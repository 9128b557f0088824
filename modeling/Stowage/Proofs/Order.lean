import Mathlib.Data.List.Sort

/-! Sorting by a comparison. -/
namespace Stowage

variable {α : Type} {cmp : α → α → Ordering}

theorem pairwise_sorted [Std.TransCmp cmp] (items : List α) :
    (items.mergeSort fun a b => (cmp a b).isLE).Pairwise fun a b => (cmp a b).isLE := by
  apply List.pairwise_mergeSort
  · intro a b c first second
    exact Std.TransCmp.isLE_trans first second
  · intro a b
    have mirrored : cmp b a = (cmp a b).swap := Std.OrientedCmp.eq_swap
    rw [mirrored]
    cases cmp a b <;> rfl

theorem eq_of_mem_iff_of_strict [Std.TransCmp cmp] {items others : List α}
    (first : items.Pairwise fun a b => cmp a b = .lt)
    (second : others.Pairwise fun a b => cmp a b = .lt) (h : ∀ a, a ∈ items ↔ a ∈ others) :
    items = others := by
  have irreflexive : Std.Irrefl fun a b => cmp a b = .lt :=
    ⟨fun a before => by
      rw [show cmp a a = .eq from Std.ReflCmp.compare_self] at before
      cases before⟩
  have antisymmetric : Std.Antisymm fun a b => cmp a b = .lt :=
    ⟨fun a b before behind => by rw [Std.OrientedCmp.gt_of_lt before] at behind; cases behind⟩
  exact first.eq_of_mem_iff second h

theorem sorted_eq_of_perm [Std.TransCmp cmp] {items ordered : List α}
    (strict : ordered.Pairwise fun a b => cmp a b = .lt) (perm : items.Perm ordered) :
    (items.mergeSort fun a b => (cmp a b).isLE) = ordered := by
  have same := (List.mergeSort_perm items fun a b => (cmp a b).isLE).trans perm
  have symmetric : ∀ {a b : α}, cmp a b ≠ .eq → cmp b a ≠ .eq :=
    fun apart level => apart (Std.OrientedCmp.eq_symm level)
  have apart :=
    (same.pairwise_iff symmetric).mpr
      (strict.imp fun before level => by rw [before] at level; cases level)
  refine eq_of_mem_iff_of_strict (((pairwise_sorted items).and apart).imp ?_) strict fun a =>
    same.mem_iff
  rintro a b ⟨le, ne⟩
  cases order : cmp a b with
  | lt => rfl
  | eq => exact absurd order ne
  | gt =>
    rw [order] at le
    cases le

end Stowage
