import Mathlib.Data.List.Pairwise
import Stowage.Proofs.Backup.Catalogue
import Stowage.Proofs.Storage.History
import Stowage.Proofs.Storage.Shape

/-! The backups that are listed, and the files that they are listed for. The path of a listed backup
is told by its id and its second alone, so that it leads to the file only where no needless zeros
stand before the digits. -/
namespace Stowage.Backup

open BackupName Memory Stowage.Path

variable {s : Memory} {directory path : Path} {n : BackupName} {names : List BackupName}

/-- The digits of a name start with zeros that say nothing. -/
def Padded (name : String) : Prop :=
  ∃ id digits, name.toList = spell id ('0' :: digits) ∧ digits ≠ [] ∧ ∀ c ∈ digits, isDigit c

theorem components_of_child {octets : Bytes} (child : isChild directory path)
    (last : path.fileName? = some octets) :
    path.components = directory.components ++ [.name octets] := by
  obtain ⟨c, -, eq⟩ := isChild_iff.mp child
  have own : path.components.getLast? = some c := by rw [eq, List.getLast?_concat]
  rw [fileName?, own] at last
  cases c with
  | name s => rw [eq, ← Option.some.inj last]
  | _ => cases last

theorem slash_not_mem_instanceId {digits : List Char}
    (last : path.fileName? = some (Utf8.encode (spell n.instanceId.toList digits))) :
    slash ∉ Utf8.ofString n.instanceId := by
  have mem : .name (Utf8.encode (spell n.instanceId.toList digits)) ∈ path.components := by
    unfold fileName? at last
    split at last
    · rename_i own
      rw [← Option.some.inj last]
      exact List.mem_of_getLast? own
    · cases last
  have clean := (isName_of_mem mem).2.2.2
  rw [spell, Utf8.encode_append, List.mem_append, not_or] at clean
  exact clean.1

theorem same_pathIn_iff (child : isChild directory path) (named : nameAt? path = some n) :
    path.same (n.pathIn directory) ↔ ∀ name, path.fileNameText? = some name → ¬ Padded name := by
  obtain ⟨digits, last, -, nonempty, all, read⟩ := nameAt?_eq_some_iff.mp named
  have since := (Moment.ofDecimal?_eq_some read).1
  have value : n.time.seconds.toNat = decimalValue digits := by
    rw [Moment.seconds_of_ofDecimal? all read, Int.toNat_natCast]
  have text : path.fileNameText? = .some (String.ofList (spell n.instanceId.toList digits)) := by
    refine Option.bind_eq_some_iff.mpr ⟨_, last, toString?_eq_some_iff.mpr ?_⟩
    rw [Utf8.ofString, String.toList_ofList]
  have level : path.same (n.pathIn directory) ↔ digits = Nat.toDigits 10 n.time.seconds.toNat := by
    rw [same_iff, components_of_child child last,
      components_pathIn (slash_not_mem_instanceId last) since, List.append_cancel_left_eq,
      List.singleton_inj, Component.name.injEq, encode_fileName since]
    constructor
    · intro same
      exact (spell_inj all isDigit_of_mem_seconds (Utf8.encode_injective same)).2
    · rintro same
      rw [← same]
  rw [level, text]
  constructor
  · rintro own name same ⟨id, rest, spelled, full, zeros⟩
    rw [← Option.some.inj same, String.toList_ofList] at spelled
    obtain ⟨-, eq⟩ := spell_inj all (List.forall_mem_cons.mpr ⟨by decide, zeros⟩) spelled
    exact full (eq_nil_of_toDigits (own.symm.trans eq))
  · intro unpadded
    rw [value]
    refine (toDigits_decimalValue nonempty all fun rest eq => ?_).symm
    by_contra full
    refine unpadded _ rfl ⟨n.instanceId.toList, rest, ?_, full, fun c hc =>
      all c (eq ▸ List.mem_cons_of_mem _ hc)⟩
    rw [String.toList_ofList, eq]

def PathsKept (s : Memory) (directory : Path) : Prop :=
  ∀ path data n, (path, Node.file data) ∈ s.nodes.entries → isChild directory path →
    nameAt? path = some n →
    path.same (n.pathIn directory)

theorem storedName?_eq_some_iff {entry : Path × Node} :
    storedName? directory entry = some n ↔
      ∃ path data, entry = (path, .file data) ∧ isChild directory path ∧ nameAt? path = some n := by
  obtain ⟨path, data | _⟩ := entry
  · simp [storedName?]
  · simp [storedName?]

theorem mem_storedNames_iff :
    n ∈ storedNames s.nodes directory ↔
      ∃ path data, (path, Node.file data) ∈ s.nodes.entries ∧ isChild directory path ∧
      nameAt? path = some n := by
  rw [storedNames, List.mem_filterMap]
  constructor
  · rintro ⟨_, stored, told⟩
    obtain ⟨path, data, rfl, child, named⟩ := storedName?_eq_some_iff.mp told
    exact ⟨path, data, stored, child, named⟩
  · rintro ⟨path, data, stored, child, named⟩
    exact ⟨_, stored, storedName?_eq_some_iff.mpr ⟨path, data, rfl, child, named⟩⟩

theorem isFile_eq_ok_iff (free : s.denied = []) :
    answer (Storage.isFile path) s = .ok true ↔ ∃ data, s.get? path = some (.file data) := by
  change s.ask path (fun node => node.any fun n => decide (n ≠ .directory)) = .ok true ↔ _
  rw [ask, allowed, isDenied, free]
  rcases s.get? path with _ | _ | _ <;> simp [Except.map]

theorem eq_of_nodup_filterMap {α β : Type} {f : α → Option β} {items : List α} {a b : α} {c : β}
    (once : (items.filterMap f).Nodup) (ha : a ∈ items) (hb : b ∈ items) (first : f a = some c)
    (second : f b = some c) :
    a = b := by
  have symmetric : Std.Symm fun a b => ∀ c, f a = some c → ∀ d, f b = some d → c ≠ d :=
    ⟨fun a b apart d hd c hc same => apart c hc d hd same.symm⟩
  by_contra other
  exact (List.pairwise_filterMap.mp once).forall ha hb other c first c second rfl

theorem pathsKept_iff (free : s.denied = []) :
    ((∀ n ∈ storedNames s.nodes directory, answer (Storage.isFile (n.pathIn directory)) s =
      .ok true) ∧ (storedNames s.nodes directory).Nodup) ↔ PathsKept s directory := by
  constructor
  · rintro ⟨files, apart⟩ path data n stored child named
    -- The path told by the name has a file too, which would be listed a second time.
    obtain ⟨data', there⟩ :=
      (isFile_eq_ok_iff free).mp (files n (mem_storedNames_iff.mpr ⟨path, data, stored, child,
        named⟩))
    obtain ⟨key, same, kept⟩ := Nodes.exists_mem_of_get? there
    obtain ⟨digits, last, oneLine, -, -, read⟩ := nameAt?_eq_some_iff.mp named
    obtain ⟨since, whole⟩ := Moment.ofDecimal?_eq_some read
    obtain ⟨childToo, namedToo⟩ :=
      named_of_same_pathIn (slash_not_mem_instanceId last) oneLine since same
    rw [counted_eq_self whole] at namedToo
    have told := storedName?_eq_some_iff.mpr ⟨path, data, rfl, child, named⟩
    have toldToo := storedName?_eq_some_iff.mpr ⟨key, data', rfl, childToo, namedToo⟩
    obtain ⟨rfl, -⟩ := Prod.mk.inj (eq_of_nodup_filterMap apart stored kept told toldToo)
    exact same
  · intro kept
    constructor
    · intro n mem
      obtain ⟨path, data, stored, child, named⟩ := mem_storedNames_iff.mp mem
      refine (isFile_eq_ok_iff free).mpr ⟨data, ?_⟩
      rw [← get?_congr (kept path data n stored child named)]
      exact Nodes.get?_of_mem stored
    · refine List.pairwise_filterMap.mpr (s.nodes.ordered.imp_of_mem ?_)
      rintro a b ha hb before n first m second rfl
      obtain ⟨p, _, rfl, childP, namedP⟩ := storedName?_eq_some_iff.mp first
      obtain ⟨q, _, rfl, childQ, namedQ⟩ := storedName?_eq_some_iff.mp second
      have same :=
        (same_iff.mp (kept p _ n ha childP namedP)).trans
          (same_iff.mp (kept q _ n hb childQ namedQ)).symm
      exact absurd ((same_iff_compare.mp (same_iff.mpr same)).symm.trans before) (by decide)

theorem pathsKept_iff_unpadded (free : s.denied = []) (there : s.get? directory = some .directory) :
    PathsKept s directory ↔ ∀ entries, answer (Storage.readDirectory directory) s = .ok entries →
    ∀ e ∈ entries, e.isFile →
      ∀ name n, e.path.fileNameText? = some name → parse name = .ok n → ¬ Padded name := by
  constructor
  · intro kept entries read e he file name n text parsed
    obtain ⟨rfl, -⟩ := readDirectory_eq_ok read
    obtain ⟨node, stored, child, kind⟩ := mem_children.mp he
    have named : nameAt? e.path = some n :=
      Option.bind_eq_some_iff.mpr ⟨name, text, parse_eq_ok.mp parsed⟩
    cases node with
    | file data =>
      exact (same_pathIn_iff child named).mp (kept _ data n stored child named) name text
    | directory => exact absurd file (by simp [DirEntry.isFile, kind])
  · intro unpadded path data n stored child named
    have read : s.readDirectory directory = .ok (s.children directory) := by
      rw [readDirectory, allowed, isDenied, free, there]
      rfl
    obtain ⟨name, text, parsed⟩ := Option.bind_eq_some_iff.mp named
    refine (same_pathIn_iff child named).mpr fun name' text' => ?_
    have listed : ⟨path, .file⟩ ∈ s.children directory :=
      mem_children.mpr ⟨.file data, stored, child, rfl⟩
    exact unpadded _ read ⟨path, .file⟩ listed rfl name' n text'
      (parse_eq_ok.mpr (Option.some.inj (text.symm.trans text') ▸ parsed))

/-- Every listed backup is a file, and none is listed twice, exactly where no file that is listed
has needless zeros in its name. -/
theorem isFile_of_list_iff (free : s.denied = []) (listed : answer (list directory) s = .ok names) :
    ((∀ n ∈ names, answer (Storage.isFile (n.pathIn directory)) s = .ok true) ∧ names.Nodup) ↔
      ∀ entries, answer (Storage.readDirectory directory) s = .ok entries →
      ∀ e ∈ entries, e.isFile →
        ∀ name n, e.path.fileNameText? = some name → parse name = .ok n → ¬ Padded name := by
  rcases list_eq_ok_iff.mp listed with ⟨-, ⟨there, rfl⟩ | ⟨gone, rfl⟩⟩
  · have order := byAge_perm (storedNames s.nodes directory)
    rw [order.nodup_iff]
    simp only [order.mem_iff]
    rw [pathsKept_iff free]
    exact pathsKept_iff_unpadded free there
  · refine iff_of_true ⟨fun n mem => absurd mem List.not_mem_nil,
      List.nodup_nil⟩ fun entries read => ?_
    rw [(readDirectory_eq_ok read).2] at gone
    cases gone

theorem isFile_of_list_hyphens :
    ∃ s, s.denied = [] ∧
      answer (list (ofString "/b")) s = .ok [⟨"a-0", { seconds := 7, nanos := 0 }⟩,
        ⟨"a", { seconds := 90, nanos := 0 }⟩] ∧
      answer (Storage.isFile (ofString "/b/a-0-7.tar")) s = .ok true ∧
      ∀ entries, answer (Storage.readDirectory (ofString "/b")) s = .ok entries →
      ∀ e ∈ entries, e.isFile →
        ∀ name n, e.path.fileNameText? = some name → parse name = .ok n → ¬ Padded name := by
  let s : Memory :=
    ({} : Memory).after [.write (ofString "/b/a-0-7.tar") [], .write (ofString "/b/a-90.tar") [],
      .write (ofString "/b/notes-07") []]
  have free : s.denied = [] := by decide +kernel
  have stored : storedNames s.nodes (ofString "/b") =
      [⟨"a-0", { seconds := 7, nanos := 0 }⟩, ⟨"a", { seconds := 90, nanos := 0 }⟩] := by
        decide +kernel
  have listed :=
    answer_list_of_pairwise (s := s) (by decide +kernel) (by decide +kernel) stored
      (by decide +kernel)
  exact ⟨s, free, listed, by decide +kernel,
    (isFile_of_list_iff free listed).mp ⟨by decide +kernel, by decide +kernel⟩⟩

/-- A file with zeros in front of its digits is listed under the path of another one, whether that
one is there or not. -/
theorem not_isFile_of_list_zeros :
    (∃ s, s.denied = [] ∧
      answer (list (ofString "/b")) s = .ok [⟨"node", { seconds := 7, nanos := 0 }⟩] ∧
      answer (Storage.isFile
        (BackupName.pathIn ⟨"node", { seconds := 7, nanos := 0 }⟩ (ofString "/b"))) s = .ok false) ∧
    ∃ s, s.denied = [] ∧ answer (list (ofString "/b")) s =
      .ok [⟨"node", { seconds := 7, nanos := 0 }⟩, ⟨"node", { seconds := 7, nanos := 0 }⟩] := by
  constructor
  · let s : Memory := ({} : Memory).after [.write (ofString "/b/node-007.tar") []]
    have stored : storedNames s.nodes (ofString "/b") =
        [⟨"node", { seconds := 7, nanos := 0 }⟩] := by decide +kernel
    have listed :=
      answer_list_of_pairwise (s := s) (by decide +kernel) (by decide +kernel) stored
        (by decide +kernel)
    exact ⟨s, by decide +kernel, listed, by decide +kernel⟩
  · let s : Memory :=
      ({} : Memory).after [.write (ofString "/b/node-007.tar") [],
        .write (ofString "/b/node-7.tar") []]
    have stored : storedNames s.nodes (ofString "/b") =
        [⟨"node", { seconds := 7, nanos := 0 }⟩, ⟨"node", { seconds := 7, nanos := 0 }⟩] := by
          decide +kernel
    have listed :=
      answer_list_of_pairwise (s := s) (by decide +kernel) (by decide +kernel) stored
        (by decide +kernel)
    exact ⟨s, by decide +kernel, listed⟩

end Stowage.Backup
