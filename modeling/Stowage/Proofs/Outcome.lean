import Mathlib.Tactic.Common

/-! Answers that may be faults: when steps in a row give a value, and when each item of a list
does. -/
namespace Stowage

variable {ε ε' α β γ : Type}

theorem bind_eq_ok {x : Except ε α} {f : α → Except ε β} {b : β} :
    x.bind f = .ok b ↔ ∃ a, x = .ok a ∧ f a = .ok b := by
  cases x <;> simp [Except.bind]

theorem map_eq_ok {x : Except ε α} {f : α → β} {b : β} :
    x.map f = .ok b ↔ ∃ a, x = .ok a ∧ f a = b := by
  cases x <;> simp [Except.map]

theorem mapError_eq_ok {x : Except ε α} {f : ε → ε'} {a : α} :
    x.mapError f = .ok a ↔ x = .ok a := by
  cases x <;> simp [Except.mapError]

theorem mapM_cons_eq_ok {f : α → Except ε β} {a : α} {as : List α} {bs : List β} :
    (a :: as).mapM f = .ok bs ↔ ∃ b rest, f a = .ok b ∧ as.mapM f = .ok rest ∧ bs = b :: rest := by
  rw [List.mapM_cons]
  change (f a).bind (fun b => (as.mapM f).bind fun rest => .ok (b :: rest)) = .ok bs ↔ _
  simp only [bind_eq_ok, Except.ok.injEq]
  constructor
  · rintro ⟨b, first, rest, others, rfl⟩
    exact ⟨b, rest, first, others, rfl⟩
  · rintro ⟨b, rest, first, others, rfl⟩
    exact ⟨b, first, rest, others, rfl⟩

theorem mapM_eq_ok_iff {f : α → Except ε β} {P : α → Prop} {g : α → β} {as : List α}
    (each : ∀ a ∈ as, ∀ b, f a = .ok b ↔ P a ∧ g a = b) {bs : List β} :
    as.mapM f = .ok bs ↔ (∀ a ∈ as, P a) ∧ as.map g = bs := by
  induction as generalizing bs with
  | nil =>
    exact ⟨fun h => ⟨fun a mem => absurd mem List.not_mem_nil, Except.ok.inj h⟩, fun h =>
      congrArg Except.ok h.2⟩
  | cons a as ih =>
    have others (rest : List β) : as.mapM f = .ok rest ↔ _ :=
      ih fun c hc => each c (List.mem_cons_of_mem _ hc)
    simp only [mapM_cons_eq_ok, each a List.mem_cons_self, others, List.forall_mem_cons,
      List.map_cons]
    constructor
    · rintro ⟨_, _, ⟨first, rfl⟩, ⟨later, rfl⟩, rfl⟩
      exact ⟨⟨first, later⟩, rfl⟩
    · rintro ⟨⟨first, later⟩, rfl⟩
      exact ⟨_, _, ⟨first, rfl⟩, ⟨later, rfl⟩, rfl⟩

theorem exists_of_mem_mapM {f : α → Except ε β} {as : List α} {bs : List β}
    (h : as.mapM f = .ok bs) :
    (∀ b ∈ bs, ∃ a ∈ as, f a = .ok b) ∧ ∀ a ∈ as, ∃ b ∈ bs, f a = .ok b := by
  induction as generalizing bs with
  | nil =>
    cases h
    simp
  | cons a as ih =>
    obtain ⟨b, rest, first, others, rfl⟩ := mapM_cons_eq_ok.mp h
    obtain ⟨back, forth⟩ := ih others
    refine ⟨fun c hc => ?_, fun c hc => ?_⟩
    · rcases List.mem_cons.mp hc with rfl | hc
      · exact ⟨a, List.mem_cons_self, first⟩
      · obtain ⟨d, hd, eq⟩ := back c hc
        exact ⟨d, List.mem_cons_of_mem _ hd, eq⟩
    · rcases List.mem_cons.mp hc with rfl | hc
      · exact ⟨b, List.mem_cons_self, first⟩
      · obtain ⟨d, hd, eq⟩ := forth c hc
        exact ⟨d, List.mem_cons_of_mem _ hd, eq⟩

theorem exists_mapM_eq_ok {f : α → Except ε β} {as : List α} (h : ∀ a ∈ as, ∃ b, f a = .ok b) :
    ∃ bs, as.mapM f = .ok bs := by
  induction as with
  | nil => exact ⟨[], rfl⟩
  | cons a as ih =>
    obtain ⟨b, first⟩ := h a List.mem_cons_self
    obtain ⟨rest, others⟩ := ih fun c hc => h c (List.mem_cons_of_mem _ hc)
    exact ⟨b :: rest, mapM_cons_eq_ok.mpr ⟨b, rest, first, others, rfl⟩⟩

end Stowage
