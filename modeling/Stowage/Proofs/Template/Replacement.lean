import Mathlib.Data.List.Infix
import Stowage.Assets

/-! Replacing a pattern in a text. Two replacements can be exchanged where the patterns, and each
value and the other pattern, stand apart: where no text holds both of them in places that
overlap. -/
namespace Stowage.Template

variable {p q a b value front rest cs : List Char}

theorem substitute_skip (p value : List Char) (n : Nat) (cs : List Char) :
    substitute p value n cs = substitute p value 0 (cs.drop n) := by
  induction n generalizing cs with
  | zero => rfl
  | succ n ih =>
    cases cs with
    | nil => rfl
    | cons c cs => exact ih cs

theorem substitute_match (full : p ≠ []) (rest : List Char) :
    substitute p value 0 (p ++ rest) = value ++ substitute p value 0 rest := by
  obtain ⟨c, cs, rfl⟩ := List.exists_cons_of_ne_nil full
  have found : (c :: cs).isPrefixOf (c :: (cs ++ rest)) :=
    List.isPrefixOf_iff_prefix.mpr ⟨rest, rfl⟩
  rw [List.cons_append, substitute, if_pos found, substitute_skip, List.length_cons,
    Nat.add_sub_cancel, List.drop_left]

theorem substitute_cons {c : Char} (other : ¬ p <+: c :: cs) :
    substitute p value 0 (c :: cs) = c :: substitute p value 0 cs := by
  rw [substitute, if_neg fun found => other (List.isPrefixOf_iff_prefix.mp found)]

theorem substitute_append (clear : ∀ m, m ≠ [] → m <:+ front → ¬ p <+: m ++ rest) :
    substitute p value 0 (front ++ rest) = front ++ substitute p value 0 rest := by
  induction front with
  | nil => rfl
  | cons c front ih =>
    have here : ¬ p <+: c :: (front ++ rest) :=
      clear (c :: front) (List.cons_ne_nil c front) List.suffix_rfl
    rw [List.cons_append, substitute_cons here, ih fun m nonempty suffix =>
      clear m nonempty (suffix.trans (List.suffix_cons c front))]
    rfl

theorem substitute_of_not_isInfix (absent : ¬ p <:+: cs) : substitute p value 0 cs = cs := by
  have clear : ∀ m, m ≠ [] → m <:+ cs → ¬ p <+: m ++ [] := fun m _ suffix found =>
    absent ((List.append_nil m ▸ found).isInfix.trans suffix.isInfix)
  have whole : substitute p value 0 (cs ++ []) = cs ++ substitute p value 0 [] :=
    substitute_append clear
  rwa [List.append_nil, substitute, List.append_nil] at whole

/-- A text is read from the left: past a pattern where one begins, and past one character
elsewhere. -/
theorem scan_induction {motive : List Char → Prop} (full : p ≠ []) (nil : motive [])
    (found : ∀ rest, motive rest → motive (p ++ rest))
    (kept : ∀ c cs, ¬ p <+: c :: cs → motive cs → motive (c :: cs)) (cs : List Char) :
    motive cs := by
  induction size : cs.length using Nat.strongRecOn generalizing cs with
  | ind n ih =>
    subst size
    by_cases begins : p <+: cs
    · obtain ⟨rest, rfl⟩ := begins
      have shorter : rest.length < (p ++ rest).length := by
        rw [List.length_append]
        exact Nat.lt_add_of_pos_left (List.length_pos_of_ne_nil full)
      exact found rest (ih _ shorter rest rfl)
    · cases cs with
      | nil => exact nil
      | cons c cs => exact kept c cs begins (ih _ (Nat.lt_succ_self _) cs rfl)

theorem substitute_self (full : p ≠ []) (cs : List Char) : substitute p p 0 cs = cs := by
  induction cs using scan_induction full with
  | nil => rfl
  | found rest ih => rw [substitute_match full, ih]
  | kept c cs other ih => rw [substitute_cons other, ih]

theorem exists_length_substitute (full : p ≠ []) (value cs : List Char) :
    ∃ n, (substitute p value 0 cs).length + n * p.length = cs.length + n * value.length := by
  induction cs using scan_induction full with
  | nil => exact ⟨0, by rw [Nat.zero_mul, Nat.zero_mul]; rfl⟩
  | found rest ih =>
    obtain ⟨n, eq⟩ := ih
    refine ⟨n + 1, ?_⟩
    rw [substitute_match full, List.length_append, List.length_append, Nat.succ_mul, Nat.succ_mul]
    omega
  | kept c cs other ih =>
    obtain ⟨n, eq⟩ := ih
    refine ⟨n, ?_⟩
    rw [substitute_cons other, List.length_cons, List.length_cons]
    omega

theorem eq_of_substitute_eq_self (full : p ≠ []) (there : p <:+: cs)
    (same : substitute p value 0 cs = cs) : value = p := by
  induction cs using scan_induction full with
  | nil => exact absurd (List.eq_nil_of_infix_nil there) full
  | found rest _ =>
    obtain ⟨n, eq⟩ := exists_length_substitute full value rest
    rw [substitute_match full] at same
    have lengths := congrArg List.length same
    rw [List.length_append, List.length_append] at lengths
    have level : value.length = p.length := by
      refine Nat.eq_of_mul_eq_mul_left (Nat.succ_pos n) ?_
      rw [Nat.succ_mul, Nat.succ_mul]
      omega
    exact (List.append_inj same level).1
  | kept c cs other ih =>
    rw [substitute_cons other] at same
    exact ih ((List.infix_cons_iff.mp there).resolve_left other) (List.cons.inj same).2

/-- Two texts that nowhere overlap: neither is a part of the other, and no end of one is a beginning
of the other. -/
structure Apart (a b : List Char) : Prop where
  outside : ¬ b <:+: a
  inside : ¬ a <:+: b
  before : ∀ m, m ≠ [] → m <:+ a → ¬ m <+: b
  behind : ∀ m, m ≠ [] → m <+: a → ¬ m <:+ b

namespace Apart

instance (a b : List Char) : Decidable (Apart a b) :=
  decidable_of_iff
    (¬ b <:+: a ∧ ¬ a <:+: b ∧ (∀ m ∈ a.tails, m ≠ [] → ¬ m <+: b) ∧ ∀ m ∈ a.inits, m ≠ [] →
      ¬ m <:+ b)
    ⟨fun h =>
      ⟨h.1, h.2.1, fun m nonempty suffix => h.2.2.1 m ((List.mem_tails ..).mpr suffix) nonempty,
        fun m nonempty start => h.2.2.2 m ((List.mem_inits ..).mpr start) nonempty⟩,
    fun h =>
      ⟨h.outside, h.inside, fun m mem nonempty => h.before m nonempty ((List.mem_tails ..).mp mem),
        fun m mem nonempty => h.behind m nonempty ((List.mem_inits ..).mp mem)⟩⟩

theorem symm (h : Apart a b) : Apart b a where
  outside := h.inside
  inside := h.outside
  before m nonempty suffix start := h.behind m nonempty start suffix
  behind m nonempty start suffix := h.before m nonempty suffix start

theorem not_isPrefix_append (h : Apart a q) {m : List Char} (nonempty : m ≠ []) (suffix : m <:+ a)
    (rest : List Char) :
    ¬ q <+: m ++ rest := by
  intro found
  rcases List.prefix_or_prefix_of_prefix found (List.prefix_append m rest) with part | whole
  · exact h.outside (part.isInfix.trans suffix.isInfix)
  · exact h.before m nonempty suffix whole

theorem substitute_append (h : Apart a q) (rest : List Char) :
    substitute q value 0 (a ++ rest) = a ++ substitute q value 0 rest :=
  Template.substitute_append fun _ nonempty suffix => h.not_isPrefix_append nonempty suffix rest

theorem isPrefix_of_substitute (full : p ≠ []) (h : Apart a q) {m : List Char} (suffix : m <:+ q)
    (found : m <+: substitute p a 0 cs) : m <+: cs := by
  induction cs generalizing m with
  | nil => exact found
  | cons c cs ih =>
    cases m with
    | nil => exact List.nil_prefix
    | cons d m =>
      by_cases begins : p <+: c :: cs
      · obtain ⟨rest, eq⟩ := begins
        rw [← eq, substitute_match full] at found
        rcases List.prefix_or_prefix_of_prefix found (List.prefix_append a _) with part | whole
        · exact absurd suffix (h.behind _ (List.cons_ne_nil d m) part)
        · exact absurd (whole.isInfix.trans suffix.isInfix) h.inside
      · rw [substitute_cons begins, List.cons_prefix_cons] at found
        exact List.cons_prefix_cons.mpr ⟨found.1, ih ((List.suffix_cons d m).trans suffix) found.2⟩

end Apart

/-- Both orders read the text past the same patterns, so that they put the same values in the same
places. -/
theorem substitute_comm (full : p ≠ []) (full' : q ≠ []) (patterns : Apart p q) (first : Apart a q)
    (second : Apart b p) (cs : List Char) :
    substitute q b 0 (substitute p a 0 cs) = substitute p a 0 (substitute q b 0 cs) := by
  induction size : cs.length using Nat.strongRecOn generalizing cs with
  | ind n ih =>
    subst size
    have shorter {front rest : List Char} (nonempty : front ≠ []) :
        rest.length < (front ++ rest).length := by
      rw [List.length_append]
      exact Nat.lt_add_of_pos_left (List.length_pos_of_ne_nil nonempty)
    by_cases begins : p <+: cs
    · obtain ⟨rest, rfl⟩ := begins
      rw [substitute_match full, first.substitute_append, patterns.substitute_append,
        substitute_match full, ih _ (shorter full) rest rfl]
    · by_cases begins' : q <+: cs
      · obtain ⟨rest, rfl⟩ := begins'
        rw [patterns.symm.substitute_append, substitute_match full', substitute_match full',
          second.substitute_append, ih _ (shorter full') rest rfl]
      · cases cs with
        | nil => rfl
        | cons c cs =>
          -- Neither pattern begins here afterwards, since none of its parts is new.
          have later : ¬ q <+: c :: substitute p a 0 cs := fun found =>
            begins'
              (first.isPrefix_of_substitute full List.suffix_rfl (by rwa [substitute_cons begins]))
          have later' : ¬ p <+: c :: substitute q b 0 cs := fun found =>
            begins (second.isPrefix_of_substitute full' List.suffix_rfl
              (by rwa [substitute_cons begins']))
          rw [substitute_cons begins, substitute_cons later, substitute_cons begins',
            substitute_cons later', ih _ (Nat.lt_succ_self _) cs rfl]

end Stowage.Template
