import Stowage.Backup.Catalogue
import Stowage.Proofs.Backup.NameRoundTrip
import Stowage.Proofs.Order
import Stowage.Proofs.Storage.Walk

/-! What the catalogue of a directory says: the backups that its files are named after, whatever is
next to them. The extension passes over no file that has the name of a backup. -/
namespace Stowage.Backup

open BackupName Memory Stowage.Path

variable {s : Memory} {directory path : Path} {n : BackupName}

def nameAt? (path : Path) : Option BackupName :=
  path.fileNameText?.bind fun name => BackupName.ofText? name.toList

def storedName? (directory : Path) : Path × Node → Option BackupName
  | (path, .file _) => if isChild directory path then nameAt? path else none
  | (_, .directory) => none

def storedNames (nodes : Nodes) (directory : Path) : List BackupName :=
  nodes.entries.filterMap (storedName? directory)

def byAge (names : List BackupName) : List BackupName :=
  names.mergeSort fun a b => (a.compareAge b).isLE

theorem toString?_eq_some_iff {bs : Bytes} {name : String} : Utf8.toString? bs = some name ↔
    bs = Utf8.ofString name := by
  rw [Utf8.toString?, Option.map_eq_some_iff]
  constructor
  · rintro ⟨cs, decoded, rfl⟩
    rw [Utf8.ofString, String.toList_ofList]
    exact Utf8.decode?_eq_some_iff.mp decoded
  · rintro rfl
    exact ⟨name.toList, Utf8.decode?_encode _, String.ofList_toList⟩

/-- A path is named after a backup by its last component alone, however many zeros stand before the
digits. -/
theorem nameAt?_eq_some_iff :
    nameAt? path = some n ↔
    ∃ digits, path.fileName? = some (Utf8.encode (spell n.instanceId.toList digits)) ∧
      '\n' ∉ n.instanceId.toList ∧ digits ≠ [] ∧ (∀ c ∈ digits, isDigit c) ∧
      Moment.ofDecimal? digits = some n.time := by
  rw [nameAt?, Option.bind_eq_some_iff]
  constructor
  · rintro ⟨name, text, parsed⟩
    obtain ⟨octets, last, text⟩ := Option.bind_eq_some_iff.mp text
    obtain ⟨digits, cut, read⟩ := ofText?_eq_some.mp parsed
    obtain ⟨whole, oneLine, nonempty, all⟩ := parts?_eq_some_iff.mp cut
    refine ⟨digits, ?_, oneLine, nonempty, all, read⟩
    rw [last, toString?_eq_some_iff.mp text, Utf8.ofString, whole]
  · rintro ⟨digits, last, oneLine, nonempty, all, read⟩
    refine ⟨String.ofList (spell n.instanceId.toList digits), ?_, ?_⟩
    · refine Option.bind_eq_some_iff.mpr ⟨_, last, toString?_eq_some_iff.mpr ?_⟩
      rw [Utf8.ofString, String.toList_ofList]
    · rw [String.toList_ofList]
      exact ofText?_eq_some.mpr ⟨digits, parts?_eq_some_iff.mpr ⟨rfl, oneLine, nonempty, all⟩, read⟩

theorem hasExtension_of_nameAt? (h : nameAt? path = some n) : hasExtension path := by
  obtain ⟨digits, last, -⟩ := nameAt?_eq_some_iff.mp h
  have full : Utf8.encode (n.instanceId.toList ++ '-' :: digits) ≠ [] := by
    simp [Utf8.encode_eq_nil_iff]
  obtain ⟨front, b, eq⟩ := (List.eq_nil_or_concat' _).resolve_left full
  have tail : Utf8.encode ['.', 't', 'a', 'r'] = ascii ".tar" := by decide
  have octets : Utf8.encode (spell n.instanceId.toList digits) = front ++ [b] ++ ascii ".tar" := by
    rw [← eq, ← tail, ← Utf8.encode_append, spell]
    simp
  rw [hasExtension, extension?, last, Option.bind_some, octets, extensionOf?_append]
  exact BEq.rfl

theorem components_pathIn (clean : slash ∉ Utf8.ofString n.instanceId) (since : 0 ≤ n.time.seconds)
    (directory : Path) :
    (n.pathIn directory).components = directory.components ++
      [.name (Utf8.ofString n.fileName)] := by
  have named : IsName (Utf8.ofString n.fileName) := by
    rw [BackupName.fileName, ofString_backupFileName]
    exact isName_append clean (slash_not_mem_nameEnd since) (long_nameEnd _)
  exact components_joinText named directory

theorem encode_fileName (since : 0 ≤ n.time.seconds) :
    Utf8.ofString n.fileName =
      Utf8.encode (spell n.instanceId.toList (Nat.toDigits 10 n.time.seconds.toNat)) := by
  rw [Utf8.ofString, BackupName.fileName, toList_backupFileName _ since]

theorem named_of_same_pathIn (clean : slash ∉ Utf8.ofString n.instanceId)
    (oneLine : '\n' ∉ n.instanceId.toList) (since : 0 ≤ n.time.seconds)
    (same : path.same (n.pathIn directory)) :
    isChild directory path ∧ nameAt? path = some n.counted := by
  have eq := (same_iff.mp same).trans (components_pathIn clean since directory)
  refine ⟨isChild_iff.mpr ⟨_, Component.noConfusion, eq⟩,
    nameAt?_eq_some_iff.mpr ⟨_, ?_, oneLine, Nat.toDigits_ne_nil, isDigit_of_mem_seconds,
      Moment.ofDecimal?_toDigits since⟩⟩
  rw [fileName?, eq, List.getLast?_concat]
  exact congrArg Option.some (encode_fileName since)

def listedName? (e : DirEntry) : Option BackupName := if e.isFile then nameAt? e.path else none

theorem run_entryBackup? (e : DirEntry) (s : Memory) :
    (entryBackup? e : StateM Memory (Option BackupName)) s = (listedName? e, s) := by
  unfold entryBackup? listedName?
  by_cases listed : e.isFile && hasExtension e.path
  · have file : e.isFile := (Bool.and_eq_true_iff.mp listed).1
    rw [if_pos listed, if_pos file, nameAt?]
    cases e.path.fileNameText? with
    | none => rfl
    | some name =>
      dsimp only
      rw [parse]
      cases parsed : ofText? name.toList <;> exact congrArg (·, s) parsed.symm
  · rw [if_neg listed]
    by_cases file : e.isFile
    · have unnamed : nameAt? e.path = none := by
        by_contra named
        obtain ⟨n, named⟩ := Option.ne_none_iff_exists'.mp named
        exact listed (Bool.and_eq_true_iff.mpr ⟨file, hasExtension_of_nameAt? named⟩)
      rw [if_pos file, unnamed]
      rfl
    · rw [if_neg file]
      rfl

theorem run_entryBackups (entries : List DirEntry) (s : Memory) :
    (entryBackups entries : StateM Memory (List BackupName)) s = (entries.filterMap listedName?,
      s) := by
  induction entries with
  | nil => rfl
  | cons e rest ih =>
    change (let (found, t) := (entryBackup? e : StateM Memory (Option BackupName)) s
      let (others, u) := (entryBackups rest : StateM Memory (List BackupName)) t
      ((found.toList ++ others, u) : List BackupName × Memory)) = _
    rw [run_entryBackup?]
    dsimp only
    rw [ih, List.filterMap_cons]
    cases listedName? e <;> rfl

theorem filterMap_children (s : Memory) (directory : Path) :
    (s.children directory).filterMap listedName? = storedNames s.nodes directory := by
  rw [children, List.filterMap_map, List.filterMap_filter, storedNames]
  refine List.filterMap_congr fun entry _ => ?_
  obtain ⟨path, _ | _⟩ := entry
  · rfl
  · by_cases child : isChild directory path <;>
      simp [child, listedName?, DirEntry.isFile, storedName?]

theorem readOnly_entryBackups (entries : List DirEntry) :
    ReadOnly (ExceptT.lift (entryBackups entries) :
      ExceptT Error (StateM Memory) (List BackupName)) :=
  .ofAnswer (fun _ => .ok (entries.filterMap listedName?))
    (fun s => congrArg (fun r => (Except.ok r.1, r.2)) (run_entryBackups entries s)) fun _ _ => rfl

theorem answer_entryBackups (entries : List DirEntry) (s : Memory) :
    answer (ExceptT.lift (entryBackups entries) : ExceptT Error (StateM Memory) (List BackupName))
      s =
      .ok (entries.filterMap listedName?) :=
  congrArg (fun r : List BackupName × Memory =>
    (Except.ok r.1 : Except Error _)) (run_entryBackups entries s)

theorem readOnly_list (directory : Path) : ReadOnly (list directory) := by
  refine (readOnly_readDirectory directory).caught.bind fun read => ?_
  split
  · split
    · exact .pure _
    · exact .throw _
  · exact (readOnly_entryBackups _).bind fun _ => .pure _

theorem answer_list (directory : Path) (s : Memory) :
    answer (list directory) s =
      match s.readDirectory directory with
      | .error failure =>
        if failure.kind = .notFound then .ok [] else .error (.io directory failure)
      | .ok _ => .ok (byAge (storedNames s.nodes directory)) := by
  have asked : answer (ExceptT.lift (Storage.readDirectory directory).run :
      ExceptT Error (StateM Memory) (Except Failure (List DirEntry))) s =
      .ok (s.readDirectory directory) := rfl
  unfold list
  cases read : s.readDirectory directory with
  | error failure =>
    rw [read] at asked
    by_cases absent : failure.kind = .notFound
    · rw [(readOnly_readDirectory directory).caught.answer_bind_ok asked]
      all_goals simp only [absent, if_true]
      · rfl
      · exact .pure _
    · rw [(readOnly_readDirectory directory).caught.answer_bind_ok asked]
      all_goals simp only [absent, if_false]
      · rfl
      · exact .throw _
  | ok entries =>
    rw [read] at asked
    rw [(readOnly_readDirectory directory).caught.answer_bind_ok asked
      ((readOnly_entryBackups entries).bind fun _ => .pure _)]
    dsimp only
    rw [(readOnly_entryBackups entries).answer_bind fun _ => .pure _, answer_entryBackups,
      ← filterMap_children, ← (readDirectory_eq_ok read).1]
    rfl

theorem answer_list_cases (directory : Path) (s : Memory) :
    answer (list directory) s =
      if s.isDenied directory then .error (.io directory (.denied directory))
      else match s.get? directory with
        | none => .ok []
        | some (.file _) => .error (.io directory (.notDirectory directory))
        | some .directory => .ok (byAge (storedNames s.nodes directory)) := by
  rw [answer_list, readDirectory, allowed]
  cases s.isDenied directory
  · rcases s.get? directory with _ | _ | _ <;> rfl
  · rfl

theorem list_eq_ok_iff {names : List BackupName} :
    answer (list directory) s = .ok names ↔ s.isDenied directory = false ∧
      (s.get? directory = some .directory ∧ names = byAge (storedNames s.nodes directory) ∨
        s.get? directory = none ∧ names = []) := by
  rw [answer_list_cases]
  cases s.isDenied directory
  · rcases s.get? directory with _ | _ | _ <;> simp [eq_comm]
  · simp

theorem answer_list_of_pairwise {names : List BackupName} (fine : s.isDenied directory = false)
    (there : s.get? directory = some .directory) (stored : storedNames s.nodes directory = names)
    (sorted : names.Pairwise fun a b => (a.compareAge b).isLE) :
    answer (list directory) s = .ok names := by
  have kept : byAge names = names := List.mergeSort_of_pairwise sorted
  apply list_eq_ok_iff.mpr
  rw [stored, kept]
  exact ⟨fine, .inl ⟨there, rfl⟩⟩

instance : Std.TransCmp compareAge :=
  inferInstanceAs (Std.TransCmp (compareLex
    (compareLex (compareOn fun n : BackupName => n.time.seconds) (compareOn fun n => n.time.nanos))
    (compareOn BackupName.instanceId)))

theorem byAge_pairwise (names : List BackupName) : (byAge names).Pairwise fun a b =>
    (a.compareAge b).isLE :=
  pairwise_sorted names

theorem byAge_perm (names : List BackupName) : (byAge names).Perm names := List.mergeSort_perm ..

end Stowage.Backup
