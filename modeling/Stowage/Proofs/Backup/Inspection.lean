import Mathlib.Data.List.Find
import Mathlib.Data.List.Pairwise
import Stowage.Proofs.Backup.Inspect

/-! All that an inspection of a written archive comes to: what it answers, in which order its faults
are met, and how many handles it takes. The order of the entries has no part in it. -/
namespace Stowage.Backup

open Memory Stowage.Path

variable {s t : Memory} {archive : Path} {entries others : List (String × Bytes)}

def firstData? (entries : List (String × Bytes)) (name : String) : Option Bytes :=
  (entries.find? fun e => (ofString e.1).same (ofString name)).map Prod.snd

/-- A number of seconds since 1970 that the calendar reaches, in digits with a plus sign or none. -/
def secondOf? (text : List Char) : Option Moment :=
  let digits := dropPlus text
  if !digits.isEmpty && digits.all isDigit then Moment.at? (decimalValue digits) 0 else none

def stateFrom (archive : Path) : Option Bytes → Except Error Instance
  | none => .error (.missingEntry archive stateEntryName)
  | some data => Instance.ofJson data (archive.joinText stateEntryName)

def timeFrom (archive : Path) : Option Bytes → Except Error Moment
  | none => .error (.missingEntry archive timeEntryName)
  | some data =>
    let text := trim (Utf8.decodeLossy data)
    match secondOf? text with
    | none => .error (.invalidTimestamp archive (String.ofList text))
    | some time => .ok time

/-- What is told of an archive that holds these entries, and the handles that it takes to tell. -/
def account (archive : Path) (entries : List (String × Bytes)) : Except Error Backup × Nat :=
  match stateFrom archive (firstData? entries stateEntryName) with
  | .error e => (.error e, 1)
  | .ok i => ((timeFrom archive (firstData? entries timeEntryName)).map (ofInstance i), 2)

/-- An archive of these entries is stored here, under an access that is allowed. It has no more
octets than a vector can hold. -/
structure Packed (s : Memory) (archive : Path) (entries : List (String × Bytes)) : Prop where
  named : ∀ e ∈ entries, Archive.IsEntryName e.1
  stored : ∃ modified bs, Archive.write modified (entries.map Archive.entryOf) = .ok bs ∧
    bs.length < signedLimit ∧
    s.fileContent archive = .ok bs

theorem firstData?_perm (h : entries.Perm others)
    (apart : entries.Pairwise fun a b => ¬ (ofString a.1).same (ofString b.1)) (name : String) :
    firstData? entries name = firstData? others name := by
  have : Std.Symm fun a b : String × Bytes => ¬ (ofString a.1).same (ofString b.1) :=
    ⟨fun a b differ same => differ ((same_comm _ _).trans same)⟩
  have only : {e | e ∈ entries ∧ (ofString e.1).same (ofString name)}.Subsingleton := by
    intro a ha b hb
    by_contra unequal
    exact apart.forall ha.1 hb.1 unequal
      (same_iff.mpr ((same_iff.mp ha.2).trans (same_iff.mp hb.2).symm))
  rw [firstData?, firstData?, List.find?_eq_find?_of_perm h only]

theorem account_perm (h : entries.Perm others)
    (apart : entries.Pairwise fun a b => ¬ (ofString a.1).same (ofString b.1)) :
    account archive entries = account archive others := by
  rw [account, account, firstData?_perm h apart, firstData?_perm h apart]

namespace Packed

theorem find?_eq (packed : Packed s archive entries) (name : String) :
    ∃ bs, s.fileContent archive = .ok bs ∧ Archive.find? ⟨bs, none⟩ (ofString name) =
      .ok (firstData? entries name) := by
  obtain ⟨modified, bs, written, short, stored⟩ := packed.stored
  have dotless : ∀ e ∈ entries.map Archive.entryOf, .here ∉ e.path.components := by
    intro e he
    obtain ⟨d, hd, rfl⟩ := List.mem_map.mp he
    exact (packed.named d hd).plain.not_mem.2.1
  refine ⟨bs, stored, ?_⟩
  rw [Archive.find?_of_write written dotless short, List.find?_map, Option.map_map]
  rfl

theorem run_extractEntry (packed : Packed s archive entries) (name : String) :
    run (extractEntry archive name) s =
      ((match firstData? entries name with
        | some data => .ok data
        | none => .error (.missingEntry archive name)), s.withOpens (s.opens + 1)) := by
  obtain ⟨bs, stored, found⟩ := packed.find?_eq name
  have opened : run (failingOn archive (Storage.openFile archive)) s = (.ok ⟨.ok bs, none⟩,
      s.withOpens (s.opens + 1)) := by
    refine run_failingOn_eq_ok.mpr ?_
    change ((s.fileContent archive).map _, _) = _
    rw [stored]
    rfl
  rw [extractEntry, run_bind, opened]
  dsimp only
  change ((Archive.readEntry ⟨.ok bs, none⟩ name).mapError _, _) = _
  rw [Archive.readEntry]
  dsimp only
  rw [found]
  cases firstData? entries name <;> rfl

theorem run_readState (packed : Packed s archive entries) :
    run (readState archive) s =
      (stateFrom archive (firstData? entries stateEntryName), s.withOpens (s.opens + 1)) := by
  rw [readState, run_bind, packed.run_extractEntry]
  cases firstData? entries stateEntryName <;> rfl

theorem run_readTime (packed : Packed s archive entries) :
    run (readTime archive) s =
      (timeFrom archive (firstData? entries timeEntryName), s.withOpens (s.opens + 1)) := by
  rw [readTime, run_bind, packed.run_extractEntry]
  cases firstData? entries timeEntryName with
  | none => rfl
  | some data =>
    have same : Moment.ofDecimal? (trim (Utf8.decodeLossy data)) =
        secondOf? (trim (Utf8.decodeLossy data)) :=
      Moment.ofDecimal?_eq _
    dsimp only [timeFrom]
    rw [same]
    cases secondOf? (trim (Utf8.decodeLossy data)) <;> rfl

theorem withOpens (packed : Packed s archive entries) (n : Nat) :
    Packed (s.withOpens n) archive entries :=
  ⟨packed.named, packed.stored⟩

end Packed

section Inspected

variable (fine : s.isDenied archive = false)
include fine

theorem run_isFile :
    run (failingOn archive (Storage.isFile archive)) s =
      (.ok ((s.get? archive).any fun node => decide (node ≠ .directory)), s) := by
  refine run_failingOn_eq_ok.mpr ?_
  change (s.ask archive _, s) = _
  rw [ask, allowed_eq_ok.mpr fine]
  rfl

theorem run_inspect_of_not_file (other : ∀ data, s.get? archive ≠ some (.file data)) :
    run (inspect archive) s = (.error (.notExist archive), s) := by
  have noFile : ((s.get? archive).any fun node => decide (node ≠ .directory)) = false := by
    rcases held : s.get? archive with _ | data | _
    · rfl
    · exact absurd held (other data)
    · rfl
  unfold inspect
  rw [run_bind, run_isFile fine, noFile]
  rfl

variable {bs : Bytes} (held : s.get? archive = some (.file bs))
include held

theorem run_inspect_of_not_extension (extension : hasExtension archive = false) :
    run (inspect archive) s = (.error (.invalidExtension archive), s) := by
  unfold inspect
  rw [run_bind, run_isFile fine, held, extension]
  rfl

theorem run_inspect_of_extension (extension : hasExtension archive) :
    run (inspect archive) s =
      match run (readState archive) s with
      | (.error e, t) => (.error e, t)
      | (.ok i, t) =>
        ((run (readTime archive) t).1.map (ofInstance i), (run (readTime archive) t).2) := by
  unfold inspect
  rw [run_bind, run_isFile fine, held]
  dsimp only
  simp only [extension, Option.any_some, ne_eq, reduceCtorEq, not_false_eq_true, decide_true,
    Bool.not_true, Bool.false_eq_true, if_false]
  rw [run_bind]
  rcases run (readState archive) s with ⟨e | i, t⟩
  · rfl
  · dsimp only
    rw [run_bind]
    rcases run (readTime archive) t with ⟨e | time, u⟩
    · rfl
    · rfl

end Inspected

theorem Packed.run_inspect (packed : Packed s archive entries) (extension : hasExtension archive) :
    run (inspect archive) s = ((account archive entries).1,
      s.withOpens (s.opens + (account archive entries).2)) := by
  obtain ⟨_, _, _, _, stored⟩ := packed.stored
  obtain ⟨fine, held⟩ := fileContent_eq_ok.mp stored
  rw [run_inspect_of_extension fine held extension, packed.run_readState, account]
  rcases stateFrom archive (firstData? entries stateEntryName) with e | i
  · rfl
  · dsimp only
    rw [(packed.withOpens _).run_readTime]
    rfl

theorem exists_packed (nodes : Nodes) (archive : Path)
    (named : ∀ e ∈ entries, Archive.IsEntryName e.1)
    (size : (Archive.write 3 (entries.map Archive.entryOf)).toOption.all (·.length < signedLimit)) :
    ∃ bs, Packed { nodes := nodes.insert archive (.file bs) } archive entries := by
  obtain ⟨bs, written⟩ := Archive.exists_write named 3
  rw [written] at size
  refine ⟨bs, named, 3, bs, written, by simpa [Except.toOption] using size,
    fileContent_eq_ok.mpr ⟨rfl, ?_⟩⟩
  rw [get?, Nodes.get?_insert, if_pos (same_iff.mpr rfl)]

/-- What is no file is not opened, nor is a file of another extension. Of an archive that was
written, the first data under the name of the state and those under the name of the time are all
that counts, in this order, and each takes a handle. So entries whose names differ as paths may
stand in any order. -/
theorem inspect_of_write (fine : s.isDenied archive = false) :
    ((∀ data, s.get? archive ≠ some (.file data)) →
      run (inspect archive) s = (.error (.notExist archive), s)) ∧
    (∀ data, s.get? archive = some (.file data) → hasExtension archive = false →
      run (inspect archive) s = (.error (.invalidExtension archive), s)) ∧
    ∀ entries, Packed s archive entries → hasExtension archive →
      run (inspect archive) s = ((account archive entries).1,
        s.withOpens (s.opens + (account archive entries).2)) ∧
      ∀ others t, entries.Perm others →
        (entries.Pairwise fun a b => ¬ (ofString a.1).same (ofString b.1)) →
        Packed t archive others → answer (inspect archive) t = answer (inspect archive) s := by
  refine ⟨run_inspect_of_not_file fine, fun data held => run_inspect_of_not_extension fine held,
    fun entries packed extension =>
    ⟨packed.run_inspect extension, fun others t same apart shuffled => ?_⟩⟩
  rw [answer, answer, shuffled.run_inspect extension, packed.run_inspect extension,
    account_perm same apart]

theorem inspect_of_write_shuffled :
    let i : Instance := { name := "node", tag := "1", url := "u", version := "2", commit := "c" }
    let entries := [("timestamp", ascii " +007\n"), ("data/a", [0]), ("data//state.json", i.toJson)]
    ∃ s t, Packed s (ofString "b/n.tar") entries ∧ Packed t (ofString "b/n.tar") entries.reverse ∧
      run (inspect (ofString "b")) s = (.error (.notExist (ofString "b")), s) ∧
      run (inspect (ofString "b/n.txt")) s = (.error (.invalidExtension (ofString "b/n.txt")), s) ∧
      run (inspect (ofString "b/n.tar")) s = (.ok (ofInstance i { seconds := 7, nanos := 0 }),
        s.withOpens 2) ∧
      answer (inspect (ofString "b/n.tar")) t = answer (inspect (ofString "b/n.tar")) s := by
  intro i entries
  let stored (bs : Bytes) : Memory :=
    { nodes :=
      (Nodes.empty.insert (ofString "b/n.txt") (.file [])).insert (ofString "b/n.tar") (.file bs) }
  have named : ∀ e ∈ entries, Archive.IsEntryName e.1 := by
    simp only [entries, List.forall_mem_cons, List.not_mem_nil, false_imp_iff, implies_true,
      and_true]
    exact ⟨⟨by decide, by decide, by decide⟩, ⟨by decide, by decide, by decide⟩,
      ⟨by decide, by decide, by decide⟩⟩
  obtain ⟨bs, first⟩ : ∃ bs, Packed (stored bs) (ofString "b/n.tar") entries :=
    exists_packed _ _ named (by decide +kernel)
  obtain ⟨bs', second⟩ : ∃ bs, Packed (stored bs) (ofString "b/n.tar") entries.reverse :=
    exists_packed _ _ (fun e he => named e (List.mem_reverse.mp he)) (by decide +kernel)
  have fine (path : Path) : (stored bs).isDenied path = false := rfl
  obtain ⟨refused, -, -⟩ := inspect_of_write (fine (ofString "b"))
  obtain ⟨-, other, -⟩ := inspect_of_write (fine (ofString "b/n.txt"))
  obtain ⟨-, -, told⟩ := inspect_of_write (fine (ofString "b/n.tar"))
  obtain ⟨ran, shuffled⟩ := told entries first (by decide)
  have whole : account (ofString "b/n.tar") entries =
      (.ok (ofInstance i { seconds := 7, nanos := 0 }), 2) := by
    decide +kernel
  rw [whole] at ran
  refine ⟨stored bs, stored bs', first, second, refused ?_, other [] ?_ (by decide), ran,
    shuffled entries.reverse _ (List.reverse_perm entries).symm (by decide) second⟩
  · intro data
    rw [get?, Nodes.get?_insert, if_neg (by decide), Nodes.get?_insert, if_neg (by decide)]
    exact (Option.some_ne_none _).symm
  · rw [get?, Nodes.get?_insert, if_neg (by decide), Nodes.get?_insert, if_pos (by decide)]

/-- Two names of one path: the state that comes first is the one that counts. -/
theorem not_inspect_of_write_of_same :
    ∃ entries others s t, entries.Perm others ∧ (entries.map Prod.fst).Nodup ∧
      Packed s (ofString "n.tar") entries ∧ Packed t (ofString "n.tar") others ∧
      answer (inspect (ofString "n.tar")) t ≠ answer (inspect (ofString "n.tar")) s := by
  let i : Instance := { name := "node", tag := "1", url := "u", version := "2", commit := "c" }
  let j : Instance := { i with version := "3" }
  let first : String × Bytes := ("data/state.json", i.toJson)
  let second : String × Bytes := ("data//state.json", j.toJson)
  let time : String × Bytes := ("timestamp", ascii "7")
  have named : ∀ e ∈ [first, second, time], Archive.IsEntryName e.1 := by
    simp only [first, second, time, List.forall_mem_cons, List.not_mem_nil, false_imp_iff,
      implies_true, and_true]
    exact ⟨⟨by decide, by decide, by decide⟩, ⟨by decide, by decide, by decide⟩,
      ⟨by decide, by decide, by decide⟩⟩
  have swapped : [first, second, time].Perm [second, first, time] := .swap ..
  obtain ⟨bs, packed⟩ := exists_packed Nodes.empty (ofString "n.tar") named (by decide +kernel)
  obtain ⟨bs', packed'⟩ := exists_packed Nodes.empty (ofString "n.tar")
    (fun e he => named e (swapped.mem_iff.mpr he)) (by decide +kernel)
  refine ⟨_, _, _, _, swapped, by decide, packed, packed', ?_⟩
  rw [answer, answer, packed.run_inspect (by decide), packed'.run_inspect (by decide)]
  dsimp only
  decide +kernel

end Stowage.Backup
