import Stowage.Proofs.Outcome
import Stowage.Proofs.Path.Components
import Stowage.Proofs.Storage.Run

/-! What a walk through files kept in memory finds: stored files below the directory, and among them
every file that is a child of it. -/
namespace Stowage

namespace Nodes

theorem exists_mem_of_get? {n : Nodes} {path : Path} {node : Node} (h : n.get? path = some node) :
    ∃ key, key.same path ∧ (key, node) ∈ n.entries := by
  obtain ⟨⟨key, _⟩, found, rfl⟩ := Option.map_eq_some_iff.mp h
  exact ⟨key, by simpa using List.find?_some found, List.mem_of_find?_eq_some found⟩

end Nodes

namespace Memory

open Storage

variable {s : Memory}

theorem isChild_iff {directory path : Path} :
    isChild directory path ↔ ∃ c, c ≠ .root ∧ path.components = directory.components ++ [c] :=
  Path.parent?_same_iff

theorem mem_children {directory : Path} {e : DirEntry} :
    e ∈ s.children directory ↔
      ∃ node, (e.path, node) ∈ s.nodes.entries ∧ isChild directory e.path ∧
        e.kind = match node with | .file _ => .file | .directory => .directory := by
  rw [children, List.mem_map]
  constructor
  · rintro ⟨⟨path, node⟩, h, rfl⟩
    obtain ⟨stored, child⟩ := List.mem_filter.mp h
    exact ⟨node, stored, child, rfl⟩
  · obtain ⟨path, kind⟩ := e
    rintro ⟨node, stored, child, rfl⟩
    exact ⟨(path, node), List.mem_filter.mpr ⟨stored, child⟩, rfl⟩

theorem readDirectory_eq_ok {directory : Path} {entries : List DirEntry}
    (h : s.readDirectory directory = .ok entries) :
    entries = s.children directory ∧ s.get? directory = some .directory := by
  unfold readDirectory at h
  split at h
  · cases h
  · rename_i found
    exact ⟨(Except.ok.inj h).symm, found⟩
  · cases h
  · cases h

def StoredBelow (s : Memory) (directory path : Path) : Prop :=
  (∃ data, (path, Node.file data) ∈ s.nodes.entries) ∧
    ∃ rest, rest ≠ [] ∧ .root ∉ rest ∧ path.components = directory.components ++ rest

theorem StoredBelow.of_child {directory inner path : Path} (h : s.StoredBelow inner path)
    (child : isChild directory inner) :
    s.StoredBelow directory path := by
  obtain ⟨c, apart, eq⟩ := isChild_iff.mp child
  obtain ⟨stored, rest, nonempty, down, below⟩ := h
  refine ⟨stored, c :: rest, List.cons_ne_nil _ _, ?_,
    by rw [below, eq, List.append_assoc, List.singleton_append]⟩
  rw [List.mem_cons, not_or]
  exact ⟨apart.symm, down⟩

theorem readOnly_walkFrom (fuel : Nat) (pending files : List Path) :
    ReadOnly (walkFrom fuel pending files) := by
  induction fuel generalizing pending files with
  | zero =>
    cases pending
    · exact .pure _
    · exact .throw _
  | succ fuel ih =>
    cases pending with
    | nil => exact .pure _
    | cons directory pending => exact (readOnly_readDirectory directory).bind fun entries => ih _ _

theorem answer_walkFrom_cons (fuel : Nat) (directory : Path) (pending files : List Path)
    (s : Memory) :
    answer (walkFrom (fuel + 1) (directory :: pending) files) s =
      (s.readDirectory directory).bind fun entries =>
        answer (walkFrom fuel (((entries.filter DirEntry.isDirectory).map DirEntry.path).reverse ++
          pending) (files ++ (entries.filter DirEntry.isFile).map DirEntry.path)) s :=
  (readOnly_readDirectory directory).answer_bind (fun _ => readOnly_walkFrom _ _ _) s

/-- Nothing found is lost, and whatever is found is stored below a pending directory. -/
theorem mem_of_answer_walkFrom {fuel : Nat} {pending files found : List Path}
    (h : answer (walkFrom fuel pending files) s = .ok found) :
    files ⊆ found ∧ ∀ path ∈ found, path ∈ files ∨
    ∃ directory ∈ pending, s.StoredBelow directory path := by
  -- Each step reads one directory, and what it adds to both lists is stored below that one.
  induction fuel generalizing pending files with
  | zero =>
    cases pending
    · cases h
      exact ⟨List.Subset.refl _, fun path hp => .inl hp⟩
    · cases h
  | succ fuel ih =>
    cases pending with
    | nil =>
      cases h
      exact ⟨List.Subset.refl _, fun path hp => .inl hp⟩
    | cons directory pending =>
      rw [answer_walkFrom_cons] at h
      cases read : s.readDirectory directory with
      | error failure => rw [read] at h; cases h
      | ok entries =>
        rw [read] at h
        obtain ⟨kept, sources⟩ := ih h
        obtain ⟨rfl, _⟩ := readDirectory_eq_ok read
        refine ⟨List.Subset.trans (List.subset_append_left _ _) kept, fun path hp => ?_⟩
        rcases sources path hp with hp | ⟨inner, hi, below⟩
        · rcases List.mem_append.mp hp with hp | hp
          · exact .inl hp
          · obtain ⟨e, he, rfl⟩ := List.mem_map.mp hp
            obtain ⟨he, file⟩ := List.mem_filter.mp he
            obtain ⟨node, stored, child, kind⟩ := mem_children.mp he
            obtain ⟨c, apart, eq⟩ := isChild_iff.mp child
            refine .inr ⟨directory, List.mem_cons_self, ?_, [c], List.cons_ne_nil _ _, ?_, eq⟩
            · cases node with
              | file data => exact ⟨data, stored⟩
              | directory => exact absurd file (by simp [DirEntry.isFile, kind])
            · simpa using apart.symm
        · rcases List.mem_append.mp hi with hi | hi
          · obtain ⟨e, he, rfl⟩ := List.mem_map.mp (List.mem_reverse.mp hi)
            obtain ⟨_, _, child, _⟩ := mem_children.mp (List.mem_filter.mp he).1
            exact .inr ⟨directory, List.mem_cons_self, below.of_child child⟩
          · exact .inr ⟨inner, List.mem_cons_of_mem _ hi, below⟩

theorem readOnly_walkBound :
    ReadOnly (liftM (walkBound : StateM Memory Nat) : ExceptT Failure (StateM Memory) Nat) :=
  .ofAnswer (fun s => .ok (s.nodes.size + 1)) (fun _ => rfl) fun _ _ => rfl

theorem readOnly_sorted (bound : Nat) (directory : Path) : ReadOnly (do
    let files ← walkFrom bound [directory] []
    return files.mergeSort Path.le : ExceptT Failure (StateM Memory) (List Path)) :=
  (readOnly_walkFrom _ _ _).bind fun _ => .pure _

theorem readOnly_walk (directory : Path) : ReadOnly (walk directory) :=
  readOnly_walkBound.bind fun bound => readOnly_sorted bound directory

theorem answer_walk (directory : Path) (s : Memory) :
    answer (walk directory) s =
      (answer (walkFrom (s.nodes.size + 1) [directory] []) s).map fun files =>
      files.mergeSort Path.le := by
  rw [walk, readOnly_walkBound.answer_bind fun bound => readOnly_sorted bound directory]
  change answer (walkFrom (s.nodes.size + 1) [directory] [] >>= _) s = _
  rw [(readOnly_walkFrom _ _ _).answer_bind fun _ => .pure _]
  rfl

theorem storedBelow_of_walk {directory : Path} {files : List Path}
    (h : answer (walk directory) s = .ok files) :
    ∀ path ∈ files, s.StoredBelow directory path := by
  rw [answer_walk] at h
  obtain ⟨found, walked, rfl⟩ := map_eq_ok.mp h
  intro path hp
  rcases (mem_of_answer_walkFrom walked).2 path (List.mem_mergeSort.mp hp) with
    hp | ⟨inner, hi, below⟩
  · exact absurd hp List.not_mem_nil
  · exact List.mem_singleton.mp hi ▸ below

theorem directory_of_walk {directory : Path} {files : List Path}
    (h : answer (walk directory) s = .ok files) :
    s.get? directory = some .directory := by
  rw [answer_walk, answer_walkFrom_cons] at h
  obtain ⟨_, walked, _⟩ := map_eq_ok.mp h
  obtain ⟨_, read, _⟩ := bind_eq_ok.mp walked
  exact (readDirectory_eq_ok read).2

theorem mem_walk_of_child {directory path : Path} {files : List Path} {data : Bytes}
    (h : answer (walk directory) s = .ok files)
    (stored : (path, Node.file data) ∈ s.nodes.entries) (child : isChild directory path) :
    path ∈ files := by
  rw [answer_walk, answer_walkFrom_cons] at h
  obtain ⟨found, walked, rfl⟩ := map_eq_ok.mp h
  obtain ⟨entries, read, later⟩ := bind_eq_ok.mp walked
  obtain ⟨rfl, _⟩ := readDirectory_eq_ok read
  refine List.mem_mergeSort.mpr ((mem_of_answer_walkFrom later).1 (List.mem_append_right _ ?_))
  exact List.mem_map.mpr ⟨⟨path, .file⟩,
    List.mem_filter.mpr ⟨mem_children.mpr ⟨_, stored, child, rfl⟩, rfl⟩, rfl⟩

end Memory
end Stowage
