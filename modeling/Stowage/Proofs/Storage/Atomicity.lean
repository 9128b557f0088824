import Stowage.Proofs.Storage.History

/-! What a change that fails leaves behind. Ancestors are made from the nearest outwards, so that a
file is met only after the directories below it were made: these stay, and nothing else is
touched. -/
namespace Stowage.Memory

section Ancestors

variable {nodes : Nodes} {a q : Path} {rest : List Path}

/-- A file where a directory is needed; the empty path is never looked at. -/
def blocks (nodes : Nodes) (ancestor : Path) : Bool :=
  !ancestor.isEmpty && (nodes.get? ancestor).any fun node => decide (node ≠ .directory)

def beforeFile (nodes : Nodes) (ancestors : List Path) : List Path :=
  ancestors.takeWhile fun a => !blocks nodes a

def Unmade (nodes : Nodes) (ancestors : List Path) (q : Path) : Prop :=
  nodes.get? q = none ∧ ∃ a ∈ beforeFile nodes ancestors, a.isEmpty = false ∧ a.same q

theorem get?_nodes_congr (h : a.same q) : nodes.get? a = nodes.get? q :=
  get?_congr (s := ⟨nodes, [], 0⟩) h

theorem beforeFile_cons (free : blocks nodes a = false) (rest : List Path) :
    beforeFile nodes (a :: rest) = a :: beforeFile nodes rest :=
  List.takeWhile_cons_of_pos (by rw [free]; rfl)

theorem blocks_insert (absent : nodes.get? a = none) (b : Path) :
    blocks (nodes.insert a .directory) b = blocks nodes b := by
  rw [blocks, blocks, Nodes.get?_insert]
  split
  · rename_i same
    rw [← get?_nodes_congr same, absent]
    rfl
  · rfl

theorem beforeFile_insert (absent : nodes.get? a = none) (ancestors : List Path) :
    beforeFile (nodes.insert a .directory) ancestors = beforeFile nodes ancestors := by
  simp only [beforeFile, blocks_insert absent]

theorem unmade_cons_of_empty (empty : a.isEmpty) : Unmade nodes (a :: rest) q ↔
    Unmade nodes rest q := by
  have free : blocks nodes a = false := by rw [blocks, empty]; rfl
  simp [Unmade, beforeFile_cons free, empty]

theorem unmade_cons_of_directory (there : nodes.get? a = some .directory) :
    Unmade nodes (a :: rest) q ↔ Unmade nodes rest q := by
  have free : blocks nodes a = false := by simp [blocks, there]
  rw [Unmade, Unmade, beforeFile_cons free]
  refine and_congr_right fun absent => ?_
  have apart : ¬ a.same q := fun same => by
    rw [get?_nodes_congr same, absent] at there
    cases there
  simp [apart]

theorem not_unmade_cons_of_file {data : Bytes} (named : ¬ a.isEmpty)
    (there : nodes.get? a = some (.file data)) :
    ¬ Unmade nodes (a :: rest) q := by
  have stop : blocks nodes a = true := by simp [blocks, there, named]
  simp [Unmade, beforeFile, stop]

theorem unmade_cons_of_none (named : ¬ a.isEmpty) (absent : nodes.get? a = none) :
    Unmade nodes (a :: rest) q ↔ a.same q ∨ Unmade (nodes.insert a .directory) rest q := by
  have free : blocks nodes a = false := by simp [blocks, absent]
  rw [Unmade, Unmade, beforeFile_cons free, beforeFile_insert absent, Nodes.get?_insert]
  by_cases same : a.same q
  · simp [same, named, (get?_nodes_congr same).symm.trans absent]
  · simp [same]

/-- Directories are made for what is missing before the first file, and nothing else is touched. -/
theorem get?_insertAncestors (nodes : Nodes) (ancestors : List Path) (q : Path) :
    (Unmade nodes ancestors q → (insertAncestors nodes ancestors).2.get? q = some .directory) ∧
      (¬ Unmade nodes ancestors q → (insertAncestors nodes ancestors).2.get? q = nodes.get? q) := by
  induction ancestors generalizing nodes with
  | nil => exact ⟨fun unmade => by simp [Unmade, beforeFile] at unmade, fun _ => rfl⟩
  | cons a rest ih =>
    rw [insertAncestors]
    split
    · rename_i empty
      rw [unmade_cons_of_empty empty]
      exact ih nodes
    · rename_i named
      split
      · rename_i there
        rw [unmade_cons_of_directory there]
        exact ih nodes
      · rename_i data there
        exact ⟨fun unmade => absurd unmade (not_unmade_cons_of_file named there), fun _ => rfl⟩
      · rename_i absent
        obtain ⟨made, kept⟩ := ih (nodes.insert a .directory)
        rw [unmade_cons_of_none named absent]
        have own : (nodes.insert a .directory).get? q = if a.same q then some .directory
            else nodes.get? q :=
          Nodes.get?_insert ..
        constructor
        · rintro (same | unmade)
          · rw [if_pos same] at own
            exact (grown_insertAncestors _ rest).1 q _ own
          · exact made unmade
        · intro neither
          rw [not_or] at neither
          rw [kept neither.2, own, if_neg neither.1]

theorem insertAncestors_eq_self {ancestors : List Path} (made : ∀ q, ¬ Unmade nodes ancestors q) :
    (insertAncestors nodes ancestors).2 = nodes := by
  induction ancestors with
  | nil => rfl
  | cons a rest ih =>
    rw [insertAncestors]
    split
    · rename_i empty
      exact ih fun q => (unmade_cons_of_empty empty).not.mp (made q)
    · rename_i named
      split
      · rename_i there
        exact ih fun q => (unmade_cons_of_directory there).not.mp (made q)
      · rfl
      · rename_i absent
        exact absurd ((unmade_cons_of_none named absent).mpr (.inl (Path.same_iff.mpr rfl)))
          (made a)

theorem fileAbove_of_insertAncestors {ancestors : List Path} {nodes' : Nodes} {e : Failure}
    (h : insertAncestors nodes ancestors = (.error e, nodes')) : ∃ top, e = .fileAbove top := by
  induction ancestors generalizing nodes with
  | nil => cases h
  | cons a rest ih =>
    rw [insertAncestors] at h
    split at h
    · exact ih h
    · split at h
      · exact ih h
      · cases h
        exact ⟨a, rfl⟩
      · exact ih h

end Ancestors

inductive Change
  | write (path : Path) (data : Bytes)
  | createDirectory (path : Path)
  | removeFile (path : Path)
deriving DecidableEq

namespace Change

def path : Change → Path
  | .write path _ => path
  | .createDirectory path => path
  | .removeFile path => path

def act : Change → ExceptT Failure (StateM Memory) Unit
  | .write path data => Storage.write path data
  | .createDirectory path => Storage.createDirectory path
  | .removeFile path => Storage.removeFile path

end Change

structure SameAnswers (s t : Memory) (path : Path) : Prop where
  exists? : answer (Storage.exists? path) t = answer (Storage.exists? path) s
  isDirectory : answer (Storage.isDirectory path) t = answer (Storage.isDirectory path) s
  isFile : answer (Storage.isFile path) t = answer (Storage.isFile path) s
  read : answer (Storage.read path) t = answer (Storage.read path) s
  readDirectory : answer (Storage.readDirectory path) t = answer (Storage.readDirectory path) s

/-- A directory that is made for an ancestor before a file further up makes the change fail. -/
def Leftover (s : Memory) (path : Path) (e : Failure) (q : Path) : Prop :=
  (∃ top, e = .fileAbove top) ∧ Unmade s.nodes path.ancestors q

/-- A failed change leaves all there was, and the directories that it had made by then. -/
structure LeftBy (s t : Memory) (path : Path) (e : Failure) : Prop where
  denied : t.denied = s.denied
  same : (∀ q, ¬ Leftover s path e q) → t = s
  made (q : Path) : Leftover s path e q → t.get? q = some .directory
  kept (q : Path) : ¬ Leftover s path e q → t.get? q = s.get? q

variable {s t : Memory} {path : Path} {e : Failure}

theorem LeftBy.of_refused (apart : ∀ top, e ≠ .fileAbove top) : LeftBy s s path e where
  denied := rfl
  same _ := rfl
  made _ left := absurd left.1.choose_spec (apart _)
  kept _ _ := rfl

theorem eq_denied_of_allowed (h : s.allowed path = .error e) : e = .denied path := by
  unfold allowed at h
  split at h
  · cases h
    rfl
  · cases h

theorem leftBy_denied (refused : s.allowed path = .error e) : LeftBy s s path e := by
  cases eq_denied_of_allowed refused
  exact .of_refused fun _ => Failure.noConfusion

theorem leftBy_put {node : Node} (failed : s.put path node = (.error e, t)) :
    LeftBy s t path e := by
  unfold put at failed
  split at failed
  · rename_i failure nodes eq
    cases failed
    have above := fileAbove_of_insertAncestors eq
    have each := get?_insertAncestors s.nodes path.ancestors
    have whole : (∀ q, ¬ Unmade s.nodes path.ancestors q) → _ := insertAncestors_eq_self
    rw [eq] at each whole
    refine ⟨rfl, fun clean => ?_, fun q left => (each q).1 left.2, fun q h =>
      (each q).2 fun unmade => h ⟨above, unmade⟩⟩
    have same : nodes = s.nodes := whole fun q unmade => clean q ⟨above, unmade⟩
    rw [same]
  · cases failed

theorem leftBy_of_failed {c : Change} (failed : run c.act s = (.error e, t)) :
    LeftBy s t c.path e := by
  cases c with
  | write path data =>
    change s.writeFile path data = _ at failed
    unfold writeFile at failed
    split at failed
    · rename_i refused
      cases failed
      exact leftBy_denied refused
    · cases failed
      exact .of_refused fun _ => Failure.noConfusion
    · exact leftBy_put failed
  | createDirectory path =>
    change s.createDirectory path = _ at failed
    unfold createDirectory at failed
    split at failed
    · rename_i refused
      cases failed
      exact leftBy_denied refused
    · cases failed
      exact .of_refused fun _ => Failure.noConfusion
    · exact leftBy_put failed
  | removeFile path =>
    change s.removeFile path = _ at failed
    unfold removeFile at failed
    split at failed
    · rename_i refused
      cases failed
      exact leftBy_denied refused
    · cases failed
    · cases failed
      exact .of_refused fun _ => Failure.noConfusion
    · cases failed
      exact .of_refused fun _ => Failure.noConfusion

theorem answer_exists? (fine : s.isDenied path = false) :
    answer (Storage.exists? path) s = .ok (s.get? path).isSome := by
  change s.ask path Option.isSome = _
  rw [ask, allowed_eq_ok.mpr fine]
  rfl

/-- A change that fails leaves the memory as it was, and every answer with it, exactly if no
directory was missing between its path and the first file above; otherwise the missing ones are
there from then on, and nothing else is new. -/
theorem eq_of_failed_iff {c : Change} (failed : run c.act s = (.error e, t)) :
    (t = s ↔ ∀ q, ¬ Leftover s c.path e q) ∧
      ((∀ q, ¬ Leftover s c.path e q) → ∀ q, SameAnswers s t q) ∧
      (∀ q, Leftover s c.path e q → t.get? q = some .directory ∧ (s.isDenied q = false →
        answer (Storage.exists? q) s = .ok false ∧ answer (Storage.exists? q) t = .ok true)) ∧
      ∀ q, ¬ Leftover s c.path e q → t.get? q = s.get? q := by
  have left := leftBy_of_failed failed
  refine ⟨⟨?_, left.same⟩, fun clean q => ?_, fun q leftover =>
    ⟨left.made q leftover, fun fine => ⟨?_, ?_⟩⟩, left.kept⟩
  · rintro rfl q leftover
    have made := left.made q leftover
    rw [show t.get? q = none from leftover.2.1] at made
    cases made
  · rw [left.same clean]
    exact ⟨rfl, rfl, rfl, rfl, rfl⟩
  · rw [answer_exists? fine, show s.get? q = none from leftover.2.1]
    rfl
  · have fine' : t.isDenied q = false := by rwa [isDenied, left.denied]
    rw [answer_exists? fine', left.made q leftover]
    rfl

theorem eq_of_failed_child :
    ∃ s t e, run (Change.write (.ofString "/a/b") []).act s = (.error e, t) ∧
    s.get? (.ofString "/a") = some (.file []) ∧
      t = s ∧ SameAnswers s t (.ofString "/") := by
  let s : Memory := ({} : Memory).after [.write (.ofString "/a") []]
  let c : Change := .write (.ofString "/a/b") []
  let t : Memory := (run c.act s).2
  have failed : run c.act s = (.error (.fileAbove (.ofString "/a")), t) :=
    Prod.ext (by decide +kernel) rfl
  have clean : ∀ q, ¬ Leftover s c.path (.fileAbove (.ofString "/a")) q := by
    rintro q ⟨-, -, a, before, -⟩
    have stop : beforeFile s.nodes c.path.ancestors = [] := by decide +kernel
    rw [stop] at before
    cases before
  obtain ⟨same, answers, -, -⟩ := eq_of_failed_iff failed
  exact ⟨s, t, _, failed, by decide +kernel, same.mpr clean, answers clean _⟩

/-- A failed write two directories below a file leaves a directory that was not there. -/
theorem not_sameAnswers_of_failed :
    ¬ ∀ (operations : List Operation) (c : Change) (e : Failure) (t : Memory),
      run c.act (({} : Memory).after operations) = (.error e, t) →
        ∀ q, SameAnswers (({} : Memory).after operations) t q := by
  intro atomic
  let s : Memory := ({} : Memory).after [.write (.ofString "/a") []]
  let c : Change := .write (.ofString "/a/b/c") []
  have failed : run c.act s = (.error (.fileAbove (.ofString "/a")), (run c.act s).2) :=
    Prod.ext (by decide +kernel) rfl
  have same := (atomic _ c _ _ failed (.ofString "/a/b")).exists?
  have apart : answer (Storage.exists? (.ofString "/a/b")) (run c.act s).2 ≠
      answer (Storage.exists? (.ofString "/a/b")) s := by
    decide +kernel
  exact apart same

end Stowage.Memory
