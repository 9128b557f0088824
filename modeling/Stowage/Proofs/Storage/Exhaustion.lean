import Stowage.Proofs.Storage.History
import Stowage.Proofs.Storage.Traversal

/-! A walk comes to its end: either it has read all directories from its start on, or it failed at
the first of them that cannot be read, and no bound on the number of directories beyond that of the
nodes makes a difference. -/
namespace Stowage.Memory

open Storage

variable {s : Memory} {directory path : Path}

theorem readDirectory_eq_error {e : Failure} (h : s.readDirectory directory = .error e) :
    e = .denied directory ∨ e = .absent directory ∨ e = .notDirectory directory := by
  revert h
  rw [readDirectory, allowed]
  cases s.isDenied directory
  · rcases s.get? directory with _ | _ | _ <;> simp +contextual [eq_comm]
  · simp +contextual [eq_comm]

theorem answer_walkFrom_of_readable (readable : s.Readable directory) (fuel : Nat)
    (pending found : List Path) :
    answer (walkFrom (fuel + 1) (directory :: pending) found) s =
      answer (walkFrom fuel ((s.directoriesIn directory).reverse ++ pending)
        (found ++ (s.filesIn directory).map Prod.fst)) s := by
  rw [answer_walkFrom_cons, readDirectory_eq_ok_iff.mpr ⟨readable, rfl⟩, Except.bind,
    directories_of_children, files_of_children]

theorem answer_walkFrom_of_error {e : Failure} (h : s.readDirectory directory = .error e)
    (fuel : Nat) (pending found : List Path) :
    answer (walkFrom (fuel + 1) (directory :: pending) found) s = .error e := by
  rw [answer_walkFrom_cons, h, Except.bind]

/-- Each turn takes one directory off those to be read, so that a walk does not see a bound that is
beyond their number. -/
theorem answer_walkFrom_congr (shaped : s.TreeShaped) {fuel fuel' : Nat} {pending : List Path}
    (enough : (pending.flatMap s.directoriesFrom).length ≤ fuel)
    (enough' : (pending.flatMap s.directoriesFrom).length ≤ fuel') (found : List Path) :
    answer (walkFrom fuel pending found) s = answer (walkFrom fuel' pending found) s := by
  induction fuel, pending, enough using turns_induction shaped generalizing found fuel' with
  | done fuel enough => cases fuel <;> cases fuel' <;> rfl
  | turn fuel directory pending enough left ih =>
    obtain ⟨fuel', rfl, left'⟩ := exists_turn shaped enough'
    cases read : s.readDirectory directory with
    | error e => rw [answer_walkFrom_of_error read, answer_walkFrom_of_error read]
    | ok entries =>
      have readable := (readDirectory_eq_ok_iff.mp read).1
      rw [answer_walkFrom_of_readable readable, answer_walkFrom_of_readable readable]
      exact ih left' _

theorem exists_of_walkFrom_eq_error (shaped : s.TreeShaped) {fuel : Nat} {pending found : List Path}
    {e : Failure} (enough : (pending.flatMap s.directoriesFrom).length ≤ fuel)
    (h : answer (walkFrom fuel pending found) s = .error e) :
    ∃ d ∈ pending.flatMap s.directoriesFrom, s.readDirectory d = .error e := by
  induction fuel, pending, enough using turns_induction shaped generalizing found with
  | done fuel enough => cases fuel <;> cases h
  | turn fuel directory pending enough left ih =>
    have next := directoriesFrom_perm shaped directory pending
    cases read : s.readDirectory directory with
    | error f =>
      rw [answer_walkFrom_of_error read] at h
      cases h
      exact ⟨directory, next.mem_iff.mpr List.mem_cons_self, read⟩
    | ok entries =>
      rw [answer_walkFrom_of_readable (readDirectory_eq_ok_iff.mp read).1] at h
      obtain ⟨d, mem, failed⟩ := ih h
      exact ⟨d, next.mem_iff.mpr (List.mem_cons_of_mem _ mem), failed⟩

theorem length_start_le (s : Memory) (directory : Path) :
    ([directory].flatMap s.directoriesFrom).length ≤ s.nodes.size + 1 := by
  rw [List.flatMap_singleton]
  exact s.length_directoriesFrom_le directory

theorem exists_of_walk_eq_error (shaped : s.TreeShaped) {e : Failure}
    (h : answer (walk directory) s = .error e) :
    ∃ d ∈ s.directoriesFrom directory, s.readDirectory d = .error e := by
  rw [answer_walk] at h
  cases walked : answer (walkFrom (s.nodes.size + 1) [directory] []) s with
  | ok found =>
    rw [walked] at h
    cases h
  | error f =>
    rw [walked] at h
    cases h
    have failed := exists_of_walkFrom_eq_error shaped (s.length_start_le directory) walked
    rwa [List.flatMap_singleton] at failed

def DirectoryBelow (s : Memory) (directory inner : Path) : Prop :=
  (inner, Node.directory) ∈ s.nodes.entries ∧ isBelow directory inner

theorem mem_directoriesFrom {inner : Path} :
    inner ∈ s.directoriesFrom directory ↔ inner = directory ∨ s.DirectoryBelow directory inner := by
  rw [directoriesFrom, List.mem_cons, mem_filterMap_directoryOf?, nodesBelow, List.mem_filter,
    DirectoryBelow]

/-- What keeps a walk from its end: its start is no directory, or one of the directories from there
on is denied. -/
def Barred (s : Memory) (directory : Path) : Prop :=
  s.get? directory ≠ some .directory ∨ s.isDenied directory ∨
    ∃ inner, s.DirectoryBelow directory inner ∧ s.isDenied inner

theorem not_barred_iff :
    ¬ s.Barred directory ↔ ∀ d ∈ s.directoriesFrom directory, s.Readable d := by
  simp only [Barred, not_or, not_exists, not_and, not_not, mem_directoriesFrom, readable_iff,
    Bool.not_eq_true]
  constructor
  · rintro ⟨there, fine, others⟩ d (rfl | below)
    · exact ⟨fine, there⟩
    · exact ⟨others d below, Nodes.get?_of_mem below.1⟩
  · intro each
    obtain ⟨fine, there⟩ := each directory (.inl rfl)
    exact ⟨there, fine, fun inner below => (each inner (.inr below)).1⟩

/-- A walk through a tree ends within as many directories as there are nodes. It fails where its
start is no directory, or where this or a directory below is denied, as the reading of one of them
does; otherwise it gives exactly the files that have the start above them, in the strict order of
their paths, so that none is given twice. -/
theorem walk_exact (shaped : s.TreeShaped) (directory : Path) :
    (∀ bound, s.nodes.size + 1 ≤ bound →
        answer (walkFrom bound [directory] []) s =
        answer (walkFrom (s.nodes.size + 1) [directory] []) s) ∧
      (s.Barred directory → ∃ d, (d = directory ∨ s.DirectoryBelow directory d) ∧
        ∃ e, answer (walk directory) s = .error e ∧
        (e = .denied d ∨ e = .absent d ∨ e = .notDirectory d)) ∧
      (¬ s.Barred directory → ∃ files, answer (walk directory) s = .ok files ∧
        files.Pairwise (fun p q => p.compare q = .lt) ∧
        ∀ path, path ∈ files ↔ (∃ data, (path, Node.file data) ∈ s.nodes.entries) ∧
        isBelow directory path) := by
  have start := s.length_start_le directory
  refine ⟨fun bound more => answer_walkFrom_congr shaped (Nat.le_trans start more) start [],
    fun barred => ?_, fun clear => ?_⟩
  · cases walked : answer (walk directory) s with
    | ok files =>
      have readable := ((walk_eq_ok_iff shaped).mp walked).1
      exact absurd barred (not_barred_iff.mpr readable)
    | error e =>
      obtain ⟨d, mem, failed⟩ := exists_of_walk_eq_error shaped walked
      exact ⟨d, mem_directoriesFrom.mp mem, e, rfl, readDirectory_eq_error failed⟩
  · have walked := (walk_eq_ok_iff shaped).mpr ⟨not_barred_iff.mp clear, rfl⟩
    refine ⟨_, walked, List.pairwise_map.mpr (s.filesBelow_pairwise directory), fun path => ?_⟩
    rw [mem_walk_iff shaped walked, StoredBelow, isBelow_iff]

/-- What is in a directory comes before what has a longer name; a denied directory is refused though
nothing is in it. -/
theorem walk_exact_nested :
    ∃ s : Memory, s.TreeShaped ∧ ¬ s.Barred (.ofString "/r/") ∧
      answer (walk (.ofString "/r/")) s = .ok [.ofString "/r/a/b/c", .ofString "/r/a-b"] ∧
      (∃ files, answer (walk (.ofString "/r/")) s = .ok files ∧ files.Pairwise fun p q =>
        p.compare q = .lt) ∧
      (s.deny (.ofString "/r//e")).Barred (.ofString "/r") ∧
      ∃ e, answer (walk (.ofString "/r")) (s.deny (.ofString "/r//e")) = .error e := by
  let s : Memory :=
    ({} : Memory).after [.write (.ofString "/r/a-b") [], .write (.ofString "/r/a/b/c") [1],
      .createDirectory (.ofString "/r/e"), .write (.ofString "/z") []]
  have shaped : s.TreeShaped := by decide +kernel
  have shaped' : (s.deny (.ofString "/r//e")).TreeShaped := by decide +kernel
  have clear : ¬ s.Barred (.ofString "/r/") := not_barred_iff.mpr (by decide +kernel)
  have inner : s.DirectoryBelow (.ofString "/r") (.ofString "/r/e") :=
    ⟨by decide +kernel, by decide⟩
  have barred : (s.deny (.ofString "/r//e")).Barred (.ofString "/r") :=
    .inr (.inr ⟨_, inner, by decide +kernel⟩)
  obtain ⟨-, -, found⟩ := walk_exact shaped (.ofString "/r/")
  obtain ⟨-, refused, -⟩ := walk_exact shaped' (.ofString "/r")
  obtain ⟨files, walked, ordered, -⟩ := found clear
  obtain ⟨-, -, e, failed, -⟩ := refused barred
  have given : answer (walk (.ofString "/r/")) s = .ok [.ofString "/r/a/b/c", .ofString "/r/a-b"] :=
    (walk_eq_ok_iff shaped).mpr ⟨by decide +kernel, by decide +kernel⟩
  exact ⟨s, shaped, clear, given, ⟨files, walked, ordered⟩, barred, e, failed⟩

end Stowage.Memory
