import Stowage.Proofs.Backup.RoundTrip
import Stowage.Proofs.Path.Text
import Stowage.Proofs.Storage.Traversal

/-! An archive holds what the directory held: each file below it under the name that leads there,
the time under its own, and nothing under any other name. -/
namespace Stowage.Backup

open Memory Stowage.Path

variable {s t : Memory} {directory backups file rel : Path} {data : Bytes} {now : Moment}
    {c : CreatedBackup}

structure Held (s : Memory) (directory file rel : Path) (data : Bytes) : Prop where
  stored : (file, Node.file data) ∈ s.nodes.entries
  below : file.below? directory = some rel

/-- A path that an entry's name can be made of without loss: a text of names, without zeros. -/
structure Archivable (rel : Path) : Prop where
  text : (Utf8.decode? rel.spelling).isSome
  plain : rel.Plain
  clean : 0 ∉ rel.spelling

instance (rel : Path) : Decidable (Archivable rel) :=
  decidable_of_iff ((Utf8.decode? rel.spelling).isSome ∧ rel.Plain ∧ 0 ∉ rel.spelling)
    ⟨fun h => ⟨h.1, h.2.1, h.2.2⟩, fun h => ⟨h.text, h.plain, h.clean⟩⟩

/-- The name of the entry for a file: its components behind `data`, with slashes between them. -/
def memberName (rel : Path) : String :=
  "data/" ++ String.ofList (['/'].intercalate (rel.components.map fun c =>
    Utf8.decodeLossy c.octets))

theorem memberName_eq (nonempty : rel.components ≠ []) : memberName rel = entryName rel := by
  have full : (rel.components.map fun c => Utf8.decodeLossy c.octets) ≠ [] :=
    List.map_eq_nil_iff.not.mpr nonempty
  have texts := cons_intercalate '/' full
  rw [List.flatMap_map] at texts
  rw [memberName, entryName, ← texts, ← String.toList_inj]
  simp only [String.toList_append, String.toList_ofList]
  rfl

namespace Archivable

theorem shown_eq (h : Archivable rel) {c : Component} (mem : c ∈ rel.components) :
    Component.ofOctets (shown c) = c := by
  obtain ⟨cs, decoded⟩ := Option.isSome_iff_exists.mp h.text
  obtain ⟨names, eq, isName⟩ := h.plain.exists_names
  rw [shown, encode_decodeLossy_octets (Utf8.decode?_eq_some_iff.mp decoded) h.plain mem]
  rw [eq] at mem
  obtain ⟨n, hn, rfl⟩ := List.mem_map.mp mem
  exact ofOctets_of_isName (isName n hn)

theorem components_entryName (h : Archivable rel) :
    (ofString (entryName rel)).components = .name (ascii dataDirectoryName) :: rel.components := by
  rw [Backup.components_entryName h.plain.not_mem.1 h.plain.not_mem.2.1]
  exact congrArg (_ :: ·) ((List.map_congr_left fun c hc => h.shown_eq hc).trans (List.map_id _))

end Archivable

theorem Held.get? (h : Held s directory file rel data) : s.get? file = some (.file data) :=
  Nodes.get?_of_mem h.stored

theorem Held.storedBelow (h : Held s directory file rel data)
    (there : s.get? directory = some .directory) (plain : rel.Plain) :
    rel.components ≠ [] ∧ s.StoredBelow directory file := by
  have eq := components_of_below? h.below
  have nonempty : rel.components ≠ [] := by
    intro empty
    rw [empty, List.append_nil] at eq
    rw [get?_congr (same_iff.mpr eq.symm), h.get?] at there
    cases there
  exact ⟨nonempty, ⟨data, h.stored⟩, rel.components, nonempty, plain.not_mem.1, eq⟩

theorem Held.components_fileEntry (h : Held s directory file rel data) (archivable : Archivable rel)
    (content : Bytes) :
    (fileEntry directory file content).path.components =
      .name (ascii dataDirectoryName) :: rel.components := by
  rw [fileEntry, h.below]
  exact archivable.components_entryName

section Entries

variable {files : List Path} {entries : List Archive.Entry} {name : Path} {rest : List Component}

theorem exists_held_of_mem (walked : answer (Storage.walk directory) s = .ok files)
    (filled : fileEntries directory s files = .ok entries) {e : Archive.Entry} (mem : e ∈ entries) :
    ∃ file rel, Held s directory file rel e.data ∧ e = fileEntry directory file e.data := by
  obtain ⟨file, hf, made⟩ := (exists_of_mem_mapM filled).1 e mem
  obtain ⟨data, read, rfl⟩ := map_eq_ok.mp made
  obtain ⟨⟨content, stored⟩, rest, -, -, eq⟩ := storedBelow_of_walk walked file hf
  obtain ⟨rel, below, -⟩ := below?_of_append eq
  have there := (fileContent_eq_ok.mp read).2
  rw [Memory.get?, Nodes.get?_of_mem stored] at there
  cases there
  exact ⟨file, rel, ⟨stored, below⟩, rfl⟩

theorem find?_of_held (shaped : s.TreeShaped)
    (walked : answer (Storage.walk directory) s = .ok files)
    (filled : fileEntries directory s files = .ok entries)
    (archivable : ∀ file rel data, Held s directory file rel data → Archivable rel)
    (held : Held s directory file rel data)
    (named : name.components = .name (ascii dataDirectoryName) :: rel.components) :
    (entries.find? fun e => e.path.same name).map Archive.Entry.data = some data := by
  refine map_find?_eq_some ?_ fun e he same => ?_
  · have plain := (archivable _ _ _ held).plain
    have mem :=
      (mem_walk_iff shaped walked).mpr (held.storedBelow (directory_of_walk walked) plain).2
    obtain ⟨e, he, made⟩ := (exists_of_mem_mapM filled).2 file mem
    obtain ⟨content, -, rfl⟩ := map_eq_ok.mp made
    refine ⟨_, he, same_iff.mpr ?_⟩
    rw [held.components_fileEntry (archivable _ _ _ held), named]
  · obtain ⟨file', rel', held', eq⟩ := exists_held_of_mem walked filled he
    have level := same_iff.mp same
    rw [eq, held'.components_fileEntry (archivable _ _ _ held'), named] at level
    have whole : file'.same file := by
      rw [same_iff, components_of_below? held'.below, components_of_below? held.below,
        (List.cons.inj level).2]
    have content := held'.get?
    rw [get?_congr whole, held.get?] at content
    cases content
    rfl

theorem find?_eq_none (walked : answer (Storage.walk directory) s = .ok files)
    (filled : fileEntries directory s files = .ok entries)
    (archivable : ∀ file rel data, Held s directory file rel data → Archivable rel)
    (absent : ∀ file rel data, Held s directory file rel data → rel.components ≠ rest)
    (named : name.components = .name (ascii dataDirectoryName) :: rest) :
    entries.find? (fun e => e.path.same name) = none := by
  refine List.find?_eq_none.mpr fun e he same => ?_
  obtain ⟨file, rel, held, eq⟩ := exists_held_of_mem walked filled he
  have level := same_iff.mp same
  rw [eq, held.components_fileEntry (archivable _ _ _ held), named] at level
  exact absent _ _ _ held (List.cons.inj level).2

theorem same_timeEntryName (named : name.components = .name (ascii dataDirectoryName) :: rest) :
    (ofString timeEntryName).same name = false := by
  have first : (ofString timeEntryName).components = [.name (ascii timeEntryName)] := by decide
  refine Bool.eq_false_iff.mpr fun same => ?_
  rw [same_iff, first, named] at same
  exact absurd (List.cons.inj same).1 (by decide)

end Entries

theorem readEntry_eq_absent {seconds : Nat} {entries : List Archive.Entry} {bs : Bytes}
    (name : String) (written : Archive.write seconds entries = .ok bs)
    (dotless : ∀ e ∈ entries, .here ∉ e.path.components) (short : bs.length < signedLimit)
    (absent : entries.find? (fun e => e.path.same (ofString name)) = none) :
    Archive.readEntry ⟨.ok bs, none⟩ name = .error (.absent name) := by
  rw [Archive.readEntry]
  dsimp only
  rw [Archive.find?_of_write written dotless short, absent]
  rfl

theorem ascii_seconds {time : Moment} (since : 0 ≤ time.seconds) :
    ascii (toString time.seconds.toNat) = Utf8.ofString (toString time.seconds) := by
  have digits : (toString time.seconds.toNat).toList = Nat.toDigits 10 time.seconds.toNat :=
    Nat.toList_repr
  rw [ascii, Utf8.ofString, toList_toString_seconds since, digits]
  refine (encode_of_ascii fun c hc => ?_).symm
  have small := (isDigit_iff.mp (isDigit_of_mem_toDigits (by decide) (by decide) hc)).2
  omega

/-- The archive of a tree in which every path below the directory can be archived gives back each
file as it was, and the time, and no other name below `data`. The archive has no more octets than a
vector can hold. -/
theorem readEntry_of_create (shaped : s.TreeShaped) (nonempty : directory.spelling ≠ [])
    (archivable : ∀ file rel data, Held s directory file rel data → Archivable rel)
    (created : run (create directory backups now) s = (.ok c, t)) :
    ∃ bs, t.fileContent c.path = .ok bs ∧ (bs.length < signedLimit →
      (∀ file rel data, Held s directory file rel data →
        Archive.readEntry ⟨.ok bs, none⟩ (memberName rel) = .ok data) ∧
      Archive.readEntry ⟨.ok bs, none⟩ "timestamp" = .ok (Utf8.ofString (toString now.seconds)) ∧
      ∀ name rest, (ofString name).components = .name (Utf8.ofString "data") :: rest →
        (∀ file rel data, Held s directory file rel data → rel.components ≠ rest) →
        Archive.readEntry ⟨.ok bs, none⟩ name = .error (.absent name)) := by
  obtain ⟨i, files, bs, made⟩ := create_eq_ok created
  obtain ⟨n, wrote⟩ := made.stored
  obtain ⟨entries, filled, written⟩ := made.written
  have timeDotless : .here ∉ (ofString timeEntryName).components := by decide
  have dotless :
      ∀ e ∈ (⟨ofString timeEntryName, ascii (toString now.wholeSecond.seconds.toNat)⟩ :
        Archive.Entry) ::
      entries, .here ∉ e.path.components :=
    List.forall_mem_cons.mpr ⟨timeDotless,
      here_not_mem_fileEntries nonempty (storedBelow_of_walk made.walked) filled⟩
  have own : (ofString timeEntryName).same (ofString timeEntryName) = true := same_iff.mpr rfl
  refine ⟨bs, fileContent_writeFile wrote, fun short =>
    ⟨fun file rel data held => ?_, ?_, fun name rest named absent => ?_⟩⟩
  · have archived := archivable _ _ _ held
    have down := (held.storedBelow (directory_of_walk made.walked) archived.plain).1
    rw [memberName_eq down]
    refine readEntry_eq_ok _ written dotless short ?_
    rw [List.find?_cons, same_timeEntryName archived.components_entryName]
    exact find?_of_held shaped made.walked filled archivable held archived.components_entryName
  · refine readEntry_eq_ok timeEntryName written dotless short ?_
    rw [List.find?_cons, own]
    exact congrArg Option.some (ascii_seconds made.since)
  · refine readEntry_eq_absent name written dotless short ?_
    rw [List.find?_cons, same_timeEntryName named]
    exact find?_eq_none made.walked filled archivable absent named

theorem exists_created (directory backups : Path) (now : Moment) (i : Instance)
    (shaped : s.TreeShaped) (since : 0 ≤ now.seconds)
    (loaded : answer (Instance.load directory) s = .ok i)
    (reads : ∀ d ∈ s.directoriesFrom directory, s.Readable d)
    (absent : s.get? (backups.joinText (ofInstance i now.wholeSecond).fileName) = none)
    (wrote : (s.writeFile (backups.joinText (ofInstance i now.wholeSecond).fileName) []).1 = .ok ())
    (fits : ((fileEntries directory s ((s.filesBelow directory).map Prod.fst)).toOption.any
      fun entries => (Archive.write now.wholeSecond.seconds.toNat
        (⟨ofString timeEntryName,
          ascii (toString now.wholeSecond.seconds.toNat)⟩ :: entries)).toOption.any
          (·.length < signedLimit)) = true) :
    ∃ c t bs, run (create directory backups now) s = (.ok c, t) ∧ t.fileContent c.path = .ok bs ∧
      bs.length < signedLimit := by
  have walked := (walk_eq_ok_iff shaped).mpr ⟨reads, rfl⟩
  rcases filled : fileEntries directory s ((s.filesBelow directory).map Prod.fst) with _ | entries
  · rw [filled] at fits
    cases fits
  rw [filled] at fits
  simp only [Except.toOption, Option.any_some] at fits
  rcases written : Archive.write now.wholeSecond.seconds.toNat
    (⟨ofString timeEntryName, ascii (toString now.wholeSecond.seconds.toNat)⟩ :: entries)
      with _ | bs
  · rw [written] at fits
    cases fits
  rw [written] at fits
  have draft : Draft s directory backups now i _ bs :=
    ⟨since, loaded, absent, walked, entries, filled, written⟩
  obtain ⟨n, ran⟩ := run_create_of_draft draft (writeFile_eq_ok (Prod.ext wrote rfl)).1
  obtain ⟨t, stored⟩ : ∃ t, (s.withOpens n).writeFile
      (backups.joinText (ofInstance i now.wholeSecond).fileName) bs = (.ok (), t) :=
    ⟨_, Prod.ext ((writeFile_withOpens ..).trans wrote) rfl⟩
  dsimp only at ran
  rw [stored] at ran
  exact ⟨_, t, bs, ran, fileContent_writeFile stored, by simpa using fits⟩

theorem readEntry_of_create_nested :
    ∃ s c t bs, s.TreeShaped ∧ run (create (ofString "/i") (ofString "/i/b") .epoch) s =
      (.ok c, t) ∧
      t.fileContent c.path = .ok bs ∧ s.get? (ofString "/i/d/e f") = some (.file [1, 2]) ∧
      Archive.readEntry ⟨.ok bs, none⟩ "data/d/e f" = .ok [1, 2] ∧
      Archive.readEntry ⟨.ok bs, none⟩ "timestamp" = .ok (Utf8.ofString "0") ∧
      Archive.readEntry ⟨.ok bs, none⟩ "data/d" = .error (.absent "data/d") := by
  let i : Instance := { name := "n", tag := "1", url := "u", version := "2", commit := "c" }
  let s : Memory := ((({} : Memory).writeFile (ofString "/i/state.json") i.toJson).2.writeFile
    (ofString "/i/d/e f") [1, 2]).2
  have shaped : s.TreeShaped := by decide +kernel
  have paths : ∀ entry ∈ s.nodes.entries, ∀ rel ∈ entry.1.below? (ofString "/i"), Archivable rel ∧
      (entry.2 ≠ .directory → rel.components ≠ [.name (Utf8.ofString "d")]) := by decide +kernel
  have held : Held s (ofString "/i") (ofString "/i/d/e f") (ofString "d/e f") [1, 2] :=
    ⟨by decide +kernel, by decide +kernel⟩
  obtain ⟨c, t, bs', created, stored', short⟩ :=
    exists_created (ofString "/i") (ofString "/i/b") .epoch i shaped (by decide) (by decide +kernel)
      (by decide +kernel) (by decide +kernel) (by decide +kernel) (by decide +kernel)
  obtain ⟨bs, stored, told⟩ := readEntry_of_create shaped (by decide)
    (fun file rel data h => (paths _ h.stored rel h.below).1) created
  obtain rfl : bs' = bs := Except.ok.inj (stored'.symm.trans stored)
  obtain ⟨files, time, others⟩ := told short
  have name : memberName (ofString "d/e f") = "data/d/e f" := by decide +kernel
  refine ⟨s, c, t, bs', shaped, created, stored, held.get?, name ▸ files _ _ _ held, time, ?_⟩
  exact others "data/d" [.name (Utf8.ofString "d")] (by decide) fun file rel data h =>
    (paths _ h.stored rel h.below).2 Node.noConfusion

end Stowage.Backup
