import Mathlib.Data.List.DropRight
import Stowage.Text.Blank

/-! Blanks at the ends of a text, and the text between them. -/
namespace Stowage

variable {cs : List Char}

theorem trimStart_of_head {c : Char} (h : isBlank c = false) (cs : List Char) :
    trimStart (c :: cs) = c :: cs :=
  List.dropWhile_cons_of_neg (by rw [h]; exact Bool.false_ne_true)

theorem isBlank_head?_trimStart (cs : List Char) :
    ∀ c ∈ (trimStart cs).head?, isBlank c = false := by
  intro c hc
  have shown := List.head?_dropWhile_not isBlank cs
  rw [trimStart] at hc
  rw [Option.mem_def.mp hc] at shown
  exact shown

theorem isBlank_getLast?_trimEnd (cs : List Char) :
    ∀ c ∈ (trimEnd cs).getLast?, isBlank c = false := by
  intro c hc
  rw [trimEnd, List.getLast?_reverse] at hc
  exact isBlank_head?_trimStart cs.reverse c hc

theorem exists_trimStart (cs : List Char) : ∃ front, (∀ c ∈ front, isBlank c) ∧
    cs = front ++ trimStart cs :=
  ⟨cs.takeWhile isBlank, fun _ => List.mem_takeWhile_imp, List.takeWhile_append_dropWhile.symm⟩

theorem exists_trimEnd (cs : List Char) :
    ∃ back, (∀ c ∈ back, isBlank c) ∧ cs = trimEnd cs ++ back :=
  ⟨cs.rtakeWhile isBlank, fun _ => List.mem_rtakeWhile_imp, List.rdropWhile_append_rtakeWhile.symm⟩

theorem exists_trim (cs : List Char) :
    ∃ front back, (∀ c ∈ front, isBlank c) ∧ (∀ c ∈ back, isBlank c) ∧
    cs = front ++ trim cs ++ back := by
  obtain ⟨front, blank, first⟩ := exists_trimStart cs
  obtain ⟨back, blank', last⟩ := exists_trimEnd (trimStart cs)
  exact ⟨front, back, blank, blank', by rw [trim, List.append_assoc, ← last, ← first]⟩

theorem trim_eq_self (first : ∀ c ∈ cs.head?, isBlank c = false)
    (last : ∀ c ∈ cs.getLast?, isBlank c = false) :
    trim cs = cs := by
  have start : trimStart cs = cs := by
    cases cs with
    | nil => rfl
    | cons c cs => exact trimStart_of_head (first c rfl) cs
  have ending : trimStart cs.reverse = cs.reverse := by
    rw [← List.head?_reverse] at last
    cases h : cs.reverse with
    | nil => rfl
    | cons c ds => exact trimStart_of_head (last c (h ▸ rfl)) ds
  rw [trim, start]
  exact (congrArg List.reverse ending).trans (List.reverse_reverse cs)

theorem trim_of_not_isBlank (h : ∀ c ∈ cs, isBlank c = false) : trim cs = cs :=
  trim_eq_self (fun c hc => h c (List.mem_of_mem_head? hc)) fun c hc =>
    h c (List.mem_of_mem_getLast? hc)

theorem isBlank_head?_trim (cs : List Char) : ∀ c ∈ (trim cs).head?, isBlank c = false := by
  intro c hc
  obtain ⟨back, -, eq⟩ := exists_trimEnd (trimStart cs)
  refine isBlank_head?_trimStart cs c ?_
  rw [eq, List.head?_append, ← trim, hc]
  rfl

theorem isBlank_getLast?_trim (cs : List Char) : ∀ c ∈ (trim cs).getLast?, isBlank c = false :=
  isBlank_getLast?_trimEnd (trimStart cs)

end Stowage
