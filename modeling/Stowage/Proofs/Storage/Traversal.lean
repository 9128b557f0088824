import Mathlib.Data.List.Flatten
import Mathlib.Data.List.Nodup
import Mathlib.Data.List.Pairwise
import Mathlib.Data.List.Perm.Basic
import Stowage.Proofs.Order
import Stowage.Proofs.Storage.Shape

/-! A walk through a tree. Each directory from its start on is read once, so that the walk ends and
finds each file below the start once; it fails only where one of these directories cannot be
read. -/
namespace Stowage

namespace Nodes

theorem nodup (n : Nodes) : n.entries.Nodup := by
  refine n.ordered.imp fun {a b} before same => ?_
  rw [same, show b.1.compare b.1 = .eq from Std.ReflCmp.compare_self] at before
  cases before

end Nodes

namespace Memory

open Storage

variable {s : Memory} {directory path : Path}

def fileOf? : Path × Node → Option (Path × Bytes)
  | (path, .file data) => some (path, data)
  | (_, .directory) => none

def directoryOf? : Path × Node → Option Path
  | (_, .file _) => none
  | (path, .directory) => some path

def nodesIn (s : Memory) (directory : Path) : List (Path × Node) :=
  s.nodes.entries.filter fun entry => isChild directory entry.1

def nodesBelow (s : Memory) (directory : Path) : List (Path × Node) :=
  s.nodes.entries.filter fun entry => isBelow directory entry.1

def filesIn (s : Memory) (directory : Path) : List (Path × Bytes) :=
  (s.nodesIn directory).filterMap fileOf?

def filesBelow (s : Memory) (directory : Path) : List (Path × Bytes) :=
  (s.nodesBelow directory).filterMap fileOf?

def directoriesIn (s : Memory) (directory : Path) : List Path :=
  (s.nodesIn directory).filterMap directoryOf?

def directoriesFrom (s : Memory) (directory : Path) : List Path :=
  directory :: (s.nodesBelow directory).filterMap directoryOf?

theorem mem_filterMap_fileOf? {entries : List (Path × Node)} {data : Bytes} :
    (path, data) ∈ entries.filterMap fileOf? ↔ (path, Node.file data) ∈ entries := by
  rw [List.mem_filterMap]
  constructor
  · rintro ⟨⟨_, _ | _⟩, stored, eq⟩
    · cases eq
      exact stored
    · cases eq
  · exact fun stored => ⟨_, stored, rfl⟩

theorem mem_filterMap_directoryOf? {entries : List (Path × Node)} :
    path ∈ entries.filterMap directoryOf? ↔ (path, Node.directory) ∈ entries := by
  rw [List.mem_filterMap]
  constructor
  · rintro ⟨⟨_, _ | _⟩, stored, eq⟩
    · cases eq
    · cases eq
      exact stored
  · exact fun stored => ⟨_, stored, rfl⟩

theorem mem_filesBelow {data : Bytes} :
    (path, data) ∈ s.filesBelow directory ↔
      (path, Node.file data) ∈ s.nodes.entries ∧ isBelow directory path := by
  rw [filesBelow, mem_filterMap_fileOf?, nodesBelow, List.mem_filter]

theorem get?_of_mem_filesBelow {held : Path × Bytes} (h : held ∈ s.filesBelow directory) :
    s.get? held.1 = some (.file held.2) := Nodes.get?_of_mem (mem_filesBelow.mp h).1

theorem filesBelow_pairwise (s : Memory) (directory : Path) :
    (s.filesBelow directory).Pairwise fun a b => a.1.compare b.1 = .lt := by
  refine (s.nodes.ordered.filter _).filterMap fileOf? ?_
  rintro ⟨p, _ | _⟩ ⟨q, _ | _⟩ before _ ⟨⟩ _ ⟨⟩
  exact before

theorem mem_directoriesIn {inner : Path} :
    inner ∈ s.directoriesIn directory ↔
      (inner, Node.directory) ∈ s.nodes.entries ∧ isChild directory inner := by
  rw [directoriesIn, mem_filterMap_directoryOf?, nodesIn, List.mem_filter]

theorem directoriesIn_pairwise (s : Memory) (directory : Path) :
    (s.directoriesIn directory).Pairwise fun a b => a.compare b = .lt := by
  refine (s.nodes.ordered.filter _).filterMap directoryOf? ?_
  rintro ⟨p, _ | _⟩ ⟨q, _ | _⟩ before _ ⟨⟩ _ ⟨⟩
  exact before

theorem not_isChild_of_isBelow {inner : Path} (child : isChild directory inner)
    (below : isBelow inner path) :
    ¬ isChild directory path := by
  intro other
  obtain ⟨c, -, eq⟩ := isChild_iff.mp child
  obtain ⟨rest, nonempty, -, eq'⟩ := isBelow_iff.mp below
  obtain ⟨d, -, level⟩ := isChild_iff.mp other
  rw [eq', eq, List.append_assoc, List.append_cancel_left_eq] at level
  exact nonempty (List.cons.inj level).2

theorem same_of_isBelow {p q : Path} (first : isChild directory p) (second : isChild directory q)
    (below : isBelow p path) (below' : isBelow q path) : p.same q := by
  obtain ⟨c, -, eq⟩ := isChild_iff.mp first
  obtain ⟨d, -, eq'⟩ := isChild_iff.mp second
  obtain ⟨rest, -, -, whole⟩ := isBelow_iff.mp below
  obtain ⟨rest', -, -, whole'⟩ := isBelow_iff.mp below'
  rw [whole, eq, eq', List.append_assoc, List.append_assoc, List.append_cancel_left_eq] at whole'
  rw [Path.same_iff, eq, eq', (List.cons.inj whole').1]

theorem nodup_flatMap_nodesBelow (s : Memory) (directory : Path) :
    ((s.directoriesIn directory).flatMap s.nodesBelow).Nodup := by
  refine List.nodup_flatMap.mpr ⟨fun _ _ => s.nodes.nodup.filter _, ?_⟩
  refine (s.directoriesIn_pairwise directory).imp_of_mem fun {p q} hp hq before e first second => ?_
  have same :=
    same_of_isBelow (mem_directoriesIn.mp hp).2 (mem_directoriesIn.mp hq).2
      (List.mem_filter.mp first).2
    (List.mem_filter.mp second).2
  rw [Path.same_iff_compare.mp same] at before
  cases before

/-- In a tree, what is below a directory is in it or below one of the directories in it, and nothing
is twice. -/
theorem nodesBelow_perm (shaped : s.TreeShaped) (directory : Path) :
    (s.nodesBelow directory).Perm
      (s.nodesIn directory ++ (s.directoriesIn directory).flatMap s.nodesBelow) := by
  refine (List.perm_ext_iff_of_nodup (s.nodes.nodup.filter _) ?_).mpr ?_
  · refine (s.nodes.nodup.filter _).append (s.nodup_flatMap_nodesBelow directory)
      fun e first second => ?_
    obtain ⟨inner, mem, below⟩ := List.mem_flatMap.mp second
    exact not_isChild_of_isBelow (mem_directoriesIn.mp mem).2 (List.mem_filter.mp below).2
      (List.mem_filter.mp first).2
  · rintro ⟨path, node⟩
    rw [List.mem_append, List.mem_flatMap]
    constructor
    · intro mem
      obtain ⟨stored, below⟩ := List.mem_filter.mp mem
      rcases child_or_below shaped stored below with child | ⟨inner, kept, child, below⟩
      · exact .inl (List.mem_filter.mpr ⟨stored, child⟩)
      · exact .inr ⟨inner, mem_directoriesIn.mpr ⟨kept, child⟩, List.mem_filter.mpr ⟨stored, below⟩⟩
    · rintro (mem | ⟨inner, outer, mem⟩)
      · obtain ⟨stored, child⟩ := List.mem_filter.mp mem
        exact List.mem_filter.mpr ⟨stored, isBelow_of_isChild child⟩
      · obtain ⟨stored, below⟩ := List.mem_filter.mp mem
        exact List.mem_filter.mpr ⟨stored,
          isBelow_trans (isBelow_of_isChild (mem_directoriesIn.mp outer).2) below⟩

theorem filesBelow_perm (shaped : s.TreeShaped) (directory : Path) :
    (s.filesBelow directory).Perm
      (s.filesIn directory ++ (s.directoriesIn directory).flatMap s.filesBelow) := by
  have parts := (nodesBelow_perm shaped directory).filterMap fileOf?
  rwa [List.filterMap_append, List.filterMap_flatMap] at parts

theorem directoriesFrom_perm (shaped : s.TreeShaped) (directory : Path) (pending : List Path) :
    ((directory :: pending).flatMap s.directoriesFrom).Perm
      (directory :: ((s.directoriesIn directory).reverse ++ pending).flatMap
        s.directoriesFrom) := by
  have parts := (nodesBelow_perm shaped directory).filterMap directoryOf?
  rw [List.filterMap_append, List.filterMap_flatMap] at parts
  have inner : (s.directoriesIn directory ++
      (s.directoriesIn directory).flatMap fun d => (s.nodesBelow d).filterMap directoryOf?).Perm
        ((s.directoriesIn directory).flatMap s.directoriesFrom) := by
    have own := List.map_append_flatMap_perm (s.directoriesIn directory) id fun d =>
      (s.nodesBelow d).filterMap directoryOf?
    rwa [List.map_id] at own
  rw [List.flatMap_cons, List.flatMap_append, directoriesFrom, List.cons_append]
  exact (((parts.trans inner).trans ((List.reverse_perm _).symm.flatMap_right _)).append_right
    _).cons directory

structure Readable (s : Memory) (directory : Path) : Prop where
  fine : s.isDenied directory = false
  there : s.get? directory = some .directory

theorem readable_iff :
    s.Readable directory ↔ s.isDenied directory = false ∧ s.get? directory = some .directory :=
  ⟨fun h => ⟨h.fine, h.there⟩, fun h => ⟨h.1, h.2⟩⟩

instance (s : Memory) (directory : Path) : Decidable (s.Readable directory) :=
  decidable_of_iff _ readable_iff.symm

theorem readDirectory_eq_ok_iff {entries : List DirEntry} :
    s.readDirectory directory = .ok entries ↔
      s.Readable directory ∧ entries = s.children directory := by
  rw [readable_iff, readDirectory, allowed]
  cases s.isDenied directory
  · rcases s.get? directory with _ | _ | _ <;> simp [eq_comm]
  · simp

theorem directories_of_children (s : Memory) (directory : Path) :
    ((s.children directory).filter DirEntry.isDirectory).map DirEntry.path =
      s.directoriesIn directory := by
  rw [children, directoriesIn, ← nodesIn, List.filter_map, List.map_map, ← List.filterMap_eq_map,
    List.filterMap_filter]
  refine List.filterMap_congr ?_
  rintro ⟨path, _ | _⟩ - <;> rfl

theorem files_of_children (s : Memory) (directory : Path) :
    ((s.children directory).filter DirEntry.isFile).map DirEntry.path =
      (s.filesIn directory).map Prod.fst := by
  rw [children, filesIn, ← nodesIn, List.filter_map, List.map_map, ← List.filterMap_eq_map,
    List.filterMap_filter, List.map_filterMap]
  refine List.filterMap_congr ?_
  rintro ⟨path, _ | _⟩ - <;> rfl

theorem answer_walkFrom_cons_eq_ok {fuel : Nat} {pending found files : List Path} :
    answer (walkFrom (fuel + 1) (directory :: pending) found) s = .ok files ↔
      s.Readable directory ∧
        answer (walkFrom fuel ((s.directoriesIn directory).reverse ++ pending)
          (found ++ (s.filesIn directory).map Prod.fst)) s = .ok files := by
  rw [answer_walkFrom_cons, bind_eq_ok]
  simp only [readDirectory_eq_ok_iff]
  constructor
  · rintro ⟨entries, ⟨readable, rfl⟩, later⟩
    rw [directories_of_children, files_of_children] at later
    exact ⟨readable, later⟩
  · rintro ⟨readable, later⟩
    refine ⟨_, ⟨readable, rfl⟩, ?_⟩
    rw [directories_of_children, files_of_children]
    exact later

/-- What was found by the end is what was found before, and each file below a pending directory,
once. -/
theorem walkFrom_perm (shaped : s.TreeShaped) {fuel : Nat} {pending found files : List Path}
    (h : answer (walkFrom fuel pending found) s = .ok files) :
    files.Perm (found ++ pending.flatMap fun d => (s.filesBelow d).map Prod.fst) := by
  induction fuel generalizing pending found with
  | zero =>
    cases pending
    · cases h
      rw [List.flatMap_nil, List.append_nil]
    · cases h
  | succ fuel ih =>
    cases pending with
    | nil =>
      cases h
      rw [List.flatMap_nil, List.append_nil]
    | cons directory pending =>
      have parts := (filesBelow_perm shaped directory).map Prod.fst
      rw [List.map_append, List.map_flatMap] at parts
      refine (ih (answer_walkFrom_cons_eq_ok.mp h).2).trans ?_
      rw [List.append_assoc, List.flatMap_append, List.flatMap_cons,
        ← List.append_assoc (List.map _ _)]
      refine List.Perm.append_left _ (List.Perm.append_right _ ?_)
      exact (((List.reverse_perm _).flatMap_right _).append_left _).trans parts.symm

theorem exists_turn (shaped : s.TreeShaped) {fuel : Nat} {pending : List Path}
    (enough : ((directory :: pending).flatMap s.directoriesFrom).length ≤ fuel) :
    ∃ left, fuel = left + 1 ∧
      (((s.directoriesIn directory).reverse ++ pending).flatMap s.directoriesFrom).length ≤
      left := by
  rw [(directoriesFrom_perm shaped directory pending).length_eq, List.length_cons] at enough
  obtain ⟨left, rfl⟩ := Nat.exists_eq_add_one_of_ne_zero (Nat.ne_zero_of_lt enough)
  exact ⟨left, rfl, Nat.le_of_succ_le_succ enough⟩

/-- A walk with turns enough comes to its end: nothing is pending then, and each turn before that
was at a directory. -/
theorem turns_induction (shaped : s.TreeShaped)
    {motive : (fuel : Nat) → (pending : List Path) → (pending.flatMap s.directoriesFrom).length ≤
      fuel → Prop}
    (done : ∀ fuel enough, motive fuel [] enough)
    (turn : ∀ fuel directory pending enough left,
      motive fuel ((s.directoriesIn directory).reverse ++ pending) left →
      motive (fuel + 1) (directory :: pending) enough)
    (fuel : Nat) (pending : List Path) (enough : (pending.flatMap s.directoriesFrom).length ≤
      fuel) :
    motive fuel pending enough := by
  induction fuel generalizing pending with
  | zero =>
    cases pending with
    | nil => exact done 0 enough
    | cons directory pending =>
      obtain ⟨left, nothing, -⟩ := exists_turn shaped enough
      cases nothing
  | succ fuel ih =>
    cases pending with
    | nil => exact done (fuel + 1) enough
    | cons directory pending =>
      obtain ⟨_, same, left⟩ := exists_turn shaped enough
      cases same
      exact turn fuel directory pending enough left (ih _ left)

theorem exists_walkFrom_iff (shaped : s.TreeShaped) {fuel : Nat} {pending : List Path}
    (enough : (pending.flatMap s.directoriesFrom).length ≤ fuel) (found : List Path) :
    (∃ files, answer (walkFrom fuel pending found) s = .ok files) ↔
    ∀ d ∈ pending.flatMap s.directoriesFrom, s.Readable d := by
  induction fuel, pending, enough using turns_induction shaped generalizing found with
  | done fuel enough =>
    cases fuel <;> exact iff_of_true ⟨found, rfl⟩ fun d mem => absurd mem List.not_mem_nil
  | turn fuel directory pending enough left ih =>
    simp only [(directoriesFrom_perm shaped directory pending).mem_iff, List.forall_mem_cons,
      answer_walkFrom_cons_eq_ok, exists_and_left]
    rw [ih]

theorem length_directoriesFrom_le (s : Memory) (directory : Path) :
    (s.directoriesFrom directory).length ≤ s.nodes.size + 1 :=
  Nat.succ_le_succ (Nat.le_trans (List.length_filterMap_le _ _) (List.length_filter_le _ _))

/-- A walk succeeds exactly if each directory from its start on can be read, and then it finds the
files below the start, each once, in the order of their paths. -/
theorem walk_eq_ok_iff (shaped : s.TreeShaped) {files : List Path} :
    answer (walk directory) s = .ok files ↔
      (∀ d ∈ s.directoriesFrom directory, s.Readable d) ∧
      files = (s.filesBelow directory).map Prod.fst := by
  have alone : [directory].flatMap s.directoriesFrom = s.directoriesFrom directory :=
    List.flatMap_singleton ..
  have enough : ([directory].flatMap s.directoriesFrom).length ≤ s.nodes.size + 1 := by
    rw [alone]
    exact s.length_directoriesFrom_le directory
  have ends := exists_walkFrom_iff shaped enough []
  have sorted {found : List Path} (walked : answer (walkFrom (s.nodes.size + 1) [directory] []) s =
      .ok found) :
      found.mergeSort Path.le = (s.filesBelow directory).map Prod.fst := by
    have all := walkFrom_perm shaped walked
    rw [List.nil_append, List.flatMap_singleton] at all
    exact sorted_eq_of_perm (List.pairwise_map.mpr (s.filesBelow_pairwise directory)) all
  rw [alone] at ends
  rw [answer_walk, map_eq_ok, ← ends]
  constructor
  · rintro ⟨found, walked, rfl⟩
    exact ⟨⟨found, walked⟩, sorted walked⟩
  · rintro ⟨⟨found, walked⟩, rfl⟩
    exact ⟨found, walked, sorted walked⟩

theorem storedBelow_iff : s.StoredBelow directory path ↔
    ∃ data, (path, data) ∈ s.filesBelow directory := by
  simp only [StoredBelow, mem_filesBelow, isBelow_iff, exists_and_right]

theorem mem_walk_iff (shaped : s.TreeShaped) {files : List Path}
    (h : answer (walk directory) s = .ok files) :
    path ∈ files ↔ s.StoredBelow directory path := by
  rw [((walk_eq_ok_iff shaped).mp h).2, storedBelow_iff, List.mem_map]
  constructor
  · rintro ⟨⟨_, data⟩, mem, rfl⟩
    exact ⟨data, mem⟩
  · rintro ⟨data, mem⟩
    exact ⟨_, mem, rfl⟩

end Memory
end Stowage
