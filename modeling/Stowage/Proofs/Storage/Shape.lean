import Stowage.Proofs.Storage.Walk

/-! Stored paths that make a tree: what stands above a node is a directory, so that each step down
leads to a node. -/
namespace Stowage

namespace Path

theorem exists_mem_prefixes {segments : List Segment} {front rest : List Component}
    (nonempty : rest ≠ []) (h : solids segments.reverse = front ++ rest) :
    ∃ cut ∈ prefixes segments, cut <:+ segments ∧ solids cut.reverse = front := by
  induction segments generalizing rest with
  | nil => exact absurd (List.append_eq_nil_iff.mp h.symm).2 nonempty
  | cons s tail ih =>
    rw [List.reverse_cons, solids_append] at h
    rw [prefixes]
    by_cases solid : s.solid
    · rw [solids_cons_of_solid solid] at h
      obtain ⟨rest, c, rfl⟩ := (List.eq_nil_or_concat' rest).resolve_left nonempty
      rw [← List.append_assoc] at h
      have behind := (List.append_inj' h rfl).1
      rw [if_pos solid]
      by_cases last : rest = []
      · subst last
        refine ⟨dropHollow tail, List.mem_cons_self, ?_, ?_⟩
        · exact (List.dropWhile_suffix _).trans (List.suffix_cons s tail)
        · rw [solids_reverse, solids_dropHollow, ← solids_reverse, behind, List.append_nil]
      · obtain ⟨cut, mem, suffix, eq⟩ := ih last behind
        exact ⟨cut, List.mem_cons_of_mem _ mem, suffix.trans (List.suffix_cons s tail), eq⟩
    · rw [solids_cons_of_hollow solid] at h
      rw [if_neg solid]
      obtain ⟨cut, mem, suffix, eq⟩ := ih nonempty ((List.append_nil _).symm.trans h)
      exact ⟨cut, mem, suffix.trans (List.suffix_cons s tail), eq⟩

theorem isEmpty_eq_false {p : Path} (h : p.components ≠ []) : p.isEmpty = false := by
  obtain ⟨spelling⟩ := p
  cases spelling with
  | nil => exact absurd rfl h
  | cons b bs => rfl

theorem exists_ancestor {p : Path} {front rest : List Component} (nonempty : rest ≠ [])
    (down : .root ∉ rest) (h : p.components = front ++ rest) :
    ∃ a ∈ p.ancestors, a.components = front := by
  obtain ⟨body, eq, segments⟩ : ∃ body, front = (if p.isRooted then [.root] else []) ++ body ∧
      solids p.segments = body ++ rest := by
    rw [components_eq] at h
    by_cases rooted : p.isRooted
    · rw [if_pos rooted] at h ⊢
      cases front with
      | nil =>
        have mem : .root ∈ [] ++ rest := h ▸ List.mem_cons_self
        exact absurd mem down
      | cons c front =>
        obtain ⟨rfl, segments⟩ := List.cons.inj h
        exact ⟨front, rfl, segments⟩
    · rw [if_neg rooted] at h ⊢
      exact ⟨front, rfl, h⟩
  rw [← List.reverse_reverse p.segments] at segments
  obtain ⟨cut, mem, suffix, solid⟩ := exists_mem_prefixes nonempty segments
  refine ⟨_, List.mem_map_of_mem mem, ?_⟩
  have front : cut.reverse <+: p.segments := List.reverse_suffix.mp (by rwa [List.reverse_reverse])
  rw [components_spellSegments front, solid, eq]

theorem exists_of_mem_prefixes {segments cut : List Segment} (h : cut ∈ prefixes segments) :
    cut <:+ segments ∧ ∃ rest, solids rest ≠ [] ∧
    solids segments.reverse = solids cut.reverse ++ solids rest := by
  induction segments with
  | nil => exact absurd h List.not_mem_nil
  | cons s tail ih =>
    have whole : solids (s :: tail).reverse = solids tail.reverse ++ solids [s] := by
      rw [List.reverse_cons, solids_append]
    rw [prefixes] at h
    by_cases solid : s.solid
    · rw [if_pos solid] at h
      have last : solids [s] ≠ [] := by
        rw [solids_cons_of_solid solid]
        exact List.cons_ne_nil _ _
      rcases List.mem_cons.mp h with rfl | h
      · have level : solids (dropHollow tail).reverse = solids tail.reverse := by
          rw [solids_reverse, solids_dropHollow, ← solids_reverse]
        refine ⟨(List.dropWhile_suffix _).trans (List.suffix_cons s tail), [s], last, ?_⟩
        rw [whole, level]
      · obtain ⟨suffix, rest, -, eq⟩ := ih h
        refine ⟨suffix.trans (List.suffix_cons s tail), rest ++ [s], ?_, ?_⟩
        · rw [solids_append]
          exact List.append_ne_nil_of_right_ne_nil _ last
        · rw [whole, eq, solids_append, List.append_assoc]
    · rw [if_neg solid] at h
      obtain ⟨suffix, rest, nonempty, eq⟩ := ih h
      refine ⟨suffix.trans (List.suffix_cons s tail), rest, nonempty, ?_⟩
      rw [whole, solids_cons_of_hollow solid, eq]
      exact List.append_nil _

theorem components_of_mem_ancestors {p a : Path} (h : a ∈ p.ancestors) :
    ∃ rest, rest ≠ [] ∧ .root ∉ rest ∧ p.components = a.components ++ rest := by
  obtain ⟨cut, mem, rfl⟩ := List.mem_map.mp h
  obtain ⟨suffix, rest, nonempty, eq⟩ := exists_of_mem_prefixes mem
  have front : cut.reverse <+: p.segments := List.reverse_suffix.mp (by rwa [List.reverse_reverse])
  rw [List.reverse_reverse] at eq
  refine ⟨solids rest, nonempty, root_not_mem_solids rest, ?_⟩
  rw [components_spellSegments front, components_eq, eq, List.append_assoc]

theorem not_same_of_mem_ancestors {p a : Path} (h : a ∈ p.ancestors) : ¬ a.same p := by
  intro same
  obtain ⟨rest, nonempty, -, eq⟩ := components_of_mem_ancestors h
  rw [same_iff.mp same] at eq
  exact nonempty (List.append_right_eq_self.mp eq.symm)

end Path

namespace Nodes

theorem get?_of_mem {n : Nodes} {path : Path} {node : Node} (h : (path, node) ∈ n.entries) :
    n.get? path = some node := by
  obtain ⟨entries, ordered⟩ := n
  change (path, node) ∈ entries at h
  change lookup path entries = some node
  induction entries with
  | nil => exact absurd h List.not_mem_nil
  | cons entry rest ih =>
    obtain ⟨first, others⟩ := List.pairwise_cons.mp ordered
    rw [lookup_cons]
    rcases List.mem_cons.mp h with rfl | h
    · exact if_pos (Path.same_iff.mpr rfl)
    · have apart : ¬ entry.1.same path := fun same => by
        have level := Path.same_iff_compare.mp same
        exact absurd (level.symm.trans (first _ h)) (by decide)
      rw [if_neg apart]
      exact ih others h

end Nodes

namespace Memory

open Storage

variable {s : Memory} {directory path : Path}

/-- Every ancestor of a stored path is a directory, but for the empty one. -/
def TreeShaped (s : Memory) : Prop :=
  ∀ entry ∈ s.nodes.entries, ∀ a ∈ entry.1.ancestors, a.isEmpty = false → s.get? a = some .directory

instance (s : Memory) : Decidable s.TreeShaped :=
  inferInstanceAs (Decidable (∀ entry ∈ s.nodes.entries, ∀ a ∈ entry.1.ancestors,
    a.isEmpty = false → s.get? a = some .directory))

/-- The directory is an ancestor of the path, however both are spelled. -/
def isBelow (directory path : Path) : Bool := path.ancestors.any fun a => a.same directory

theorem isBelow_iff :
    isBelow directory path ↔
      ∃ rest, rest ≠ [] ∧ .root ∉ rest ∧ path.components = directory.components ++ rest := by
  rw [isBelow, List.any_eq_true]
  constructor
  · rintro ⟨a, mem, same⟩
    rw [← Path.same_iff.mp same]
    exact Path.components_of_mem_ancestors mem
  · rintro ⟨rest, nonempty, down, eq⟩
    obtain ⟨a, mem, level⟩ := Path.exists_ancestor nonempty down eq
    exact ⟨a, mem, Path.same_iff.mpr level⟩

theorem isBelow_of_isChild (child : isChild directory path) : isBelow directory path := by
  obtain ⟨c, down, eq⟩ := isChild_iff.mp child
  exact isBelow_iff.mpr ⟨[c], List.cons_ne_nil c [], by simpa using down.symm, eq⟩

theorem isBelow_trans {inner : Path} (outer : isBelow directory inner)
    (below : isBelow inner path) :
    isBelow directory path := by
  obtain ⟨front, nonempty, down, eq⟩ := isBelow_iff.mp outer
  obtain ⟨back, -, further, eq'⟩ := isBelow_iff.mp below
  refine isBelow_iff.mpr ⟨front ++ back, List.append_ne_nil_of_left_ne_nil nonempty _, ?_,
    by rw [eq', eq, List.append_assoc]⟩
  rw [List.mem_append, not_or]
  exact ⟨down, further⟩

theorem child_or_below (shaped : s.TreeShaped) {node : Node}
    (stored : (path, node) ∈ s.nodes.entries) (below : isBelow directory path) :
    isChild directory path ∨
      ∃ inner, (inner, Node.directory) ∈ s.nodes.entries ∧ isChild directory inner ∧
      isBelow inner path := by
  obtain ⟨rest, nonempty, down, eq⟩ := isBelow_iff.mp below
  obtain ⟨c, rest, rfl⟩ := List.exists_cons_of_ne_nil nonempty
  rw [List.mem_cons, not_or] at down
  by_cases last : rest = []
  · subst last
    exact .inl (isChild_iff.mpr ⟨c, Ne.symm down.1, eq⟩)
  · have whole : path.components = (directory.components ++ [c]) ++ rest := by
      rw [eq, List.append_assoc]; rfl
    obtain ⟨a, above, components⟩ := Path.exists_ancestor last down.2 whole
    have named : a.isEmpty = false := Path.isEmpty_eq_false fun empty =>
      List.append_ne_nil_of_right_ne_nil _ (List.cons_ne_nil _ _) (components.symm.trans empty)
    obtain ⟨inner, same, kept⟩ := Nodes.exists_mem_of_get? (shaped _ stored a above named)
    have level := (Path.same_iff.mp same).trans components
    refine .inr ⟨inner, kept, isChild_iff.mpr ⟨c, Ne.symm down.1, level⟩,
      isBelow_iff.mpr ⟨rest, last, down.2, ?_⟩⟩
    rw [level, whole]

end Memory
end Stowage
