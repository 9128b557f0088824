import Stowage.Proofs.Digest.Streaming
import Stowage.Proofs.Storage.Walk
import Stowage.Proofs.Registry.RoundTrip
import Stowage.Registry.Tree

/-! What the checks of listed files come to: each file has a flaw or has none, and the first flaw is
what is told. -/
namespace Stowage.Registry

open Memory

variable {s : Memory} {root path : Path}

def flaw? (root : Path) (s : Memory) (f : ListedFile) : Option Error :=
  match s.get? (root.join f.path) with
  | none => some (.missingFile f.path f.digest)
  | some .directory => some (.io (root.join f.path) (.directory (root.join f.path)))
  | some (.file data) =>
    if digest data = f.digest then none else some (.mismatch f.path f.digest (digest data))

/-- What keeps a listed file from being found as it was listed: a denied access, or what is wrong
with the file. -/
def obstacle? (root : Path) (s : Memory) (f : ListedFile) : Option Error :=
  if s.isDenied (root.join f.path) then some (.io (root.join f.path) (.denied (root.join f.path)))
    else flaw? root s f

theorem obstacle?_of_free (free : s.denied = []) (root : Path) :
    obstacle? root s = flaw? root s := by
  funext f
  rw [obstacle?, isDenied, free]
  rfl

def verdict (root : Path) (s : Memory) (files : List ListedFile) : Except Error Unit :=
  match files.findSome? (flaw? root s) with
  | none => .ok ()
  | some error => .error error

theorem readOnly_digest (path : Path) (h : Handle) : ReadOnly (failingOn path h.digest) :=
  ReadOnly.failingOn (.settled _) path

theorem answer_digest (path : Path) (data : Bytes) (reach : Option Nat) :
    answer (failingOn path (Handle.digest ⟨.ok data, reach⟩)) s = .ok (digest data) := by
  refine answer_failingOn_eq_ok.mpr ?_
  exact digestReadings_octets data

theorem readOnly_compared (file : ListedFile) (actual : String) :
    ReadOnly (if actual ≠ file.digest then throw (.mismatch file.path file.digest actual)
      else pure () : ExceptT Error (StateM Memory) Unit) := by
  split
  · exact .throw _
  · exact .pure _

theorem readOnly_verifyFile (root : Path) (file : ListedFile) : ReadOnly (verifyFile root file) :=
  ((readOnly_openFile _).adapt _).bind fun _ => (readOnly_digest _ _).bind fun actual =>
    readOnly_compared file actual

theorem answer_verifyFile (root : Path) (file : ListedFile) :
    answer (verifyFile root file) s =
      match obstacle? root s file with
      | none => .ok ()
      | some error => .error error := by
  unfold verifyFile
  dsimp only
  rw [((readOnly_openFile _).adapt _).answer_bind fun _ =>
    (readOnly_digest _ _).bind fun actual => readOnly_compared file actual]
  have opened (f : Failure → Error) :
      answer (ExceptT.adapt f (Storage.openFile (root.join file.path)) :
        ExceptT Error (StateM Memory) Handle) s =
      ((s.fileContent (root.join file.path)).map fun data =>
        (⟨.ok data, none⟩ : Handle)).mapError f := rfl
  rw [opened, fileContent, obstacle?, allowed]
  by_cases denied : s.isDenied (root.join file.path)
  · rw [if_pos denied, if_pos denied]
    rfl
  rw [if_neg denied, if_neg denied, flaw?]
  rcases s.get? (root.join file.path) with _ | data | _
  · rfl
  · change answer (failingOn _ (Handle.digest ⟨.ok data, none⟩) >>= _) s = _
    rw [(readOnly_digest _ _).answer_bind_ok (answer_digest _ data none) (readOnly_compared file _)]
    dsimp only
    by_cases same : digest data = file.digest
    · rw [if_neg (not_not.mpr same), if_pos same]
      rfl
    · rw [if_pos same, if_neg same]
      rfl
  · rfl

theorem readOnly_verifyAll (root : Path) (files : List ListedFile) :
    ReadOnly (verifyAll root files) := by
  induction files with
  | nil => exact .pure _
  | cons file rest ih => exact (readOnly_verifyFile root file).bind fun _ => ih

theorem answer_verifyAll (root : Path) (files : List ListedFile) :
    answer (verifyAll root files) s =
      match files.findSome? (obstacle? root s) with
      | none => .ok ()
      | some error => .error error := by
  induction files with
  | nil => rfl
  | cons file rest ih =>
    rw [verifyAll, (readOnly_verifyFile root file).answer_bind fun _ =>
      readOnly_verifyAll root rest, ih, answer_verifyFile, List.findSome?_cons]
    cases obstacle? root s file <;> rfl

theorem readOnly_verify (root : Path) (files : List ListedFile) : ReadOnly (verify root files) :=
  (readOnly_verifyAll root files).bind fun _ => .note _

theorem answer_verify (root : Path) (files : List ListedFile) :
    answer (verify root files) s =
      match files.findSome? (obstacle? root s) with
      | none => .ok ()
      | some error => .error error := by
  rw [verify, (readOnly_verifyAll root files).answer_bind fun _ => .note _, answer_verifyAll]
  cases files.findSome? (obstacle? root s) <;> rfl

def listedAs (root path : Path) (data : Bytes) : ListedFile :=
  ⟨(path.below? root).getD path, digest data⟩

theorem map_lower_digest (data : Bytes) :
    (digest data).toList.map ListedFile.lower = (digest data).toList := by
  have kept : ∀ n < 16, ListedFile.lower (Nat.digitChar n) = Nat.digitChar n := by decide
  refine (List.map_congr_left fun c hc => ?_).trans (List.map_id _)
  obtain ⟨n, small, rfl⟩ := mem_digest hc
  exact kept n small

theorem readOnly_listFile (root path : Path) : ReadOnly (listFile root path) :=
  ((readOnly_openFile _).failingOn _).bind fun _ => (readOnly_digest _ _).bind fun _ => .pure _

theorem answer_listFile_eq_ok {f : ListedFile} :
    answer (listFile root path) s = .ok f ↔
    (s.fileContent path).map (listedAs root path) = .ok f := by
  unfold listFile
  rw [((readOnly_openFile path).failingOn path).answer_bind fun _ =>
    (readOnly_digest _ _).bind fun _ => .pure _, bind_eq_ok]
  simp only [answer_failingOn_eq_ok, answer_openFile]
  rcases s.fileContent path with failure | data
  · simp [Except.map]
  · have hashed : answer (failingOn path (Handle.digest ⟨.ok data, none⟩) >>= fun digest =>
        pure (.ofText ((path.below? root).getD path) digest.toList)) s =
          .ok (listedAs root path data) := by
      refine ((readOnly_digest path _).answer_bind_ok (answer_digest path data none) ?_).trans ?_
      · exact .pure _
      · rw [ListedFile.ofText, map_lower_digest, String.ofList_toList]
        rfl
    simp only [Except.map, Except.ok.injEq, exists_eq_left', hashed]

theorem readOnly_listAll (root : Path) (paths : List Path) : ReadOnly (listAll root paths) := by
  induction paths with
  | nil => exact .pure _
  | cons path rest ih => exact (readOnly_listFile root path).bind fun _ => ih.bind fun _ => .pure _

theorem answer_listAll_eq_ok {paths : List Path} {files : List ListedFile} :
    answer (listAll root paths) s = .ok files ↔
      paths.mapM (fun path => (s.fileContent path).map (listedAs root path)) = .ok files := by
  induction paths generalizing files with
  | nil =>
    constructor <;>
      · intro h
        cases h
        rfl
  | cons path rest ih =>
    rw [listAll, (readOnly_listFile root path).answer_bind fun _ =>
      (readOnly_listAll root rest).bind fun _ => .pure _, bind_eq_ok, mapM_cons_eq_ok]
    simp only [(readOnly_listAll root rest).answer_bind fun _ => .pure _, bind_eq_ok, ih,
      answer_listFile_eq_ok]
    constructor
    · rintro ⟨file, listed, others, later, eq⟩
      exact ⟨file, others, listed, later, (Except.ok.inj eq).symm⟩
    · rintro ⟨file, others, listed, later, rfl⟩
      exact ⟨file, listed, others, later, rfl⟩

theorem readOnly_generate (root directory : Path) : ReadOnly (generate root directory) :=
  ((readOnly_walk _).failingOn _).bind fun _ => readOnly_listAll root _

theorem answer_generate_eq_ok {directory : Path} {files : List ListedFile} :
    answer (generate root directory) s = .ok files ↔
      ∃ paths, answer (Storage.walk (root.join directory)) s = .ok paths ∧
        paths.mapM (fun path => (s.fileContent path).map (listedAs root path)) = .ok files := by
  rw [generate, ((readOnly_walk _).failingOn _).answer_bind fun _ => readOnly_listAll root _,
    bind_eq_ok]
  simp only [answer_failingOn_eq_ok, answer_listAll_eq_ok]

end Stowage.Registry
