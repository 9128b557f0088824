import Stowage.Proofs.Storage.Walk

/-! What the operations on files in memory leave behind. Making ancestors changes no node that is
there, and nothing but the removal of a file takes a node away. -/
namespace Stowage.Memory

variable {s t : Memory} {p q path : Path}

theorem get?_congr (h : p.same q) : s.get? p = s.get? q := by
  simp only [get?, Nodes.get?, Nodes.lookup, Path.same_congr_right h]

theorem isDenied_congr (h : p.same q) : s.isDenied p = s.isDenied q := by
  simp only [isDenied, Path.same_congr_right h]

theorem allowed_eq_ok : s.allowed path = .ok () ↔ s.isDenied path = false := by
  rw [allowed]
  cases s.isDenied path <;> simp

theorem fileContent_eq_ok {data : Bytes} :
    s.fileContent path = .ok data ↔ s.isDenied path = false ∧ s.get? path = some (.file data) := by
  rw [fileContent, allowed]
  cases s.isDenied path
  · rcases s.get? path with _ | _ | _ <;> simp
  · simp

theorem fileContent_congr {data : Bytes} (h : p.same q) : s.fileContent p = .ok data ↔
    s.fileContent q = .ok data := by
  rw [fileContent_eq_ok, fileContent_eq_ok, isDenied_congr h, get?_congr h]

/-- Nodes that are there stay as they are, and all others are directories. -/
def Grown (m n : Nodes) : Prop :=
  (∀ path node, m.get? path = some node → n.get? path = some node) ∧
    ∀ path node, n.get? path = some node → m.get? path = some node ∨ node = .directory

theorem Grown.refl (m : Nodes) : Grown m m := ⟨fun _ _ h => h, fun _ _ h => .inl h⟩

theorem Grown.trans {l m n : Nodes} (h : Grown l m) (k : Grown m n) : Grown l n := by
  refine ⟨fun path node there => k.1 path node (h.1 path node there), fun path node there => ?_⟩
  rcases k.2 path node there with there | made
  · exact h.2 path node there
  · exact .inr made

theorem grown_insert {m : Nodes} (h : m.get? path = none) : Grown m (m.insert path .directory) := by
  have sameKey {q : Path} (same : path.same q) : m.get? q = none := by
    rw [← h]
    exact get?_congr (s := ⟨m, [], 0⟩) (by rwa [Path.same_comm])
  refine ⟨fun q node there => ?_, fun q node there => ?_⟩
  · rw [Nodes.get?_insert, if_neg fun same => by rw [sameKey same] at there; cases there]
    exact there
  · rw [Nodes.get?_insert] at there
    split at there
    · exact .inr (Option.some.inj there).symm
    · exact .inl there

theorem grown_insertAncestors (m : Nodes) (ancestors : List Path) :
    Grown m (insertAncestors m ancestors).2 := by
  induction ancestors generalizing m with
  | nil => exact .refl m
  | cons ancestor rest ih =>
    rw [insertAncestors]
    split
    · exact ih m
    · split
      · exact ih m
      · exact .refl m
      · rename_i absent
        exact (grown_insert absent).trans (ih _)

theorem put_eq_ok {node : Node} (h : s.put path node = (.ok (), t)) :
    t = { s with nodes := (insertAncestors s.nodes path.ancestors).2.insert path node } := by
  unfold put at h
  split at h
  · cases h
  · rename_i nodes eq
    cases h
    rw [eq]

theorem writeFile_withOpens (n : Nat) (path : Path) (data data' : Bytes) :
    ((s.withOpens n).writeFile path data).1 = (s.writeFile path data').1 := by
  have allowed : (s.withOpens n).allowed path = s.allowed path := rfl
  have there : (s.withOpens n).get? path = s.get? path := rfl
  have put : ((s.withOpens n).put path (.file data)).1 = (s.put path (.file data')).1 := by
    have nodes : (s.withOpens n).nodes = s.nodes := rfl
    unfold Memory.put
    rw [nodes]
    rcases insertAncestors s.nodes path.ancestors with ⟨_ | _, _⟩ <;> rfl
  unfold writeFile
  rw [allowed, there]
  split
  · rfl
  · rfl
  · exact put

section Written

variable {data : Bytes} (h : s.writeFile path data = (.ok (), t))
include h

theorem writeFile_eq_ok :
    s.isDenied path = false ∧
      t =
      { s with nodes := (insertAncestors s.nodes path.ancestors).2.insert path (.file data) } := by
  unfold writeFile at h
  split at h
  · cases h
  · cases h
  · rename_i fine _
    exact ⟨allowed_eq_ok.mp fine, put_eq_ok h⟩

theorem get?_writeFile (q : Path) :
    t.get? q = if path.same q then some (.file data)
      else (insertAncestors s.nodes path.ancestors).2.get? q := by
  obtain ⟨-, rfl⟩ := writeFile_eq_ok h
  exact Nodes.get?_insert ..

theorem fileContent_writeFile : t.fileContent path = .ok data := by
  refine fileContent_eq_ok.mpr ⟨?_, ?_⟩
  · obtain ⟨fine, rfl⟩ := writeFile_eq_ok h
    exact fine
  · rw [get?_writeFile h, if_pos (Path.same_iff.mpr rfl)]

end Written

end Stowage.Memory
