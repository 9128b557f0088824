import Stowage.Proofs.Outcome
import Stowage.Proofs.Path.Names
import Stowage.Registry

/-! The paths that a registry lists are made of the names that stand in its text, and of no other
part of it. -/
namespace Stowage

open Stowage.Path

variable {text : List Char} {names : List Bytes} {cs : List Component}

theorem downwardNames_eq_ok_iff :
    downwardNames text cs = .ok names ↔
      .root ∉ cs ∧ .up ∉ cs ∧ cs.filter Component.isName = names.map .name := by
  induction cs generalizing names with
  | nil => simp [downwardNames, eq_comm]
  | cons c cs ih =>
    cases c with
    | root => simp [downwardNames]
    | up => simp [downwardNames]
    | here => simp [downwardNames, ih, Component.isName]
    | name s =>
      rw [downwardNames, map_eq_ok]
      simp only [ih, List.mem_cons, reduceCtorEq, false_or, List.filter_cons, Component.isName,
        if_true]
      constructor
      · rintro ⟨rest, ⟨relative, inside, eq⟩, rfl⟩
        exact ⟨relative, inside, by rw [eq, List.map_cons]⟩
      · rintro ⟨relative, inside, eq⟩
        obtain ⟨t, rest, rfl, first, others⟩ := List.map_eq_cons_iff.mp eq.symm
        cases first
        exact ⟨rest, ⟨relative, inside, others.symm⟩, rfl⟩

theorem name_mem_of_downwardNames (h : downwardNames text cs = .ok names) :
    ∀ s ∈ names, .name s ∈ cs := by
  obtain ⟨-, -, eq⟩ := downwardNames_eq_ok_iff.mp h
  intro s hs
  have kept : .name s ∈ cs.filter Component.isName := eq ▸ List.mem_map_of_mem hs
  exact (List.mem_filter.mp kept).1

theorem exists_names_of_listedPath {p : Path} (h : listedPath text = .ok p) :
    ∃ names, downwardNames text (Path.mk (Utf8.encode text)).components = .ok names ∧ names ≠ [] ∧
      (∀ s ∈ names, IsName s) ∧ p = ofNames names := by
  unfold listedPath at h
  split at h
  · cases h
  · cases h
  · rename_i names nonempty down
    cases h
    exact ⟨names, down, nonempty, fun s hs => isName_of_mem (name_mem_of_downwardNames down s hs),
      rfl⟩

end Stowage
