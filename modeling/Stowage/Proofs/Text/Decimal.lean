import Mathlib.Data.List.Induction
import Stowage.Proofs.Text.Blank
import Stowage.Proofs.Text.Utf8
import Stowage.Text.Decimal

/-! Numbers written in digits and read back: no blank or sign gets in the way, and the value is the
one written. -/
namespace Stowage

theorem encode_of_ascii {cs : List Char} (h : ∀ c ∈ cs, c.toNat ≤ 0x7f) :
    Utf8.encode cs = cs.map fun c => UInt8.ofNat c.toNat := by
  induction cs with
  | nil => rfl
  | cons c cs ih =>
    rw [Utf8.encode_cons, Utf8.encodeChar_eq, if_pos (h c List.mem_cons_self),
      ih fun d hd => h d (List.mem_cons_of_mem _ hd), List.map_cons, List.singleton_append]

theorem mem_toDigits {b n : Nat} {c : Char} (base : 1 < b) (h : c ∈ Nat.toDigits b n) :
    ∃ d < b, c = d.digitChar := by
  induction n using Nat.strongRecOn with
  | ind n ih =>
    rw [Nat.toDigits_eq_if base] at h
    split at h
    · rename_i small
      exact ⟨n, small, List.mem_singleton.mp h⟩
    · rename_i large
      rcases List.mem_append.mp h with front | last
      · exact ih _ (Nat.div_lt_self (by omega) base) front
      · exact ⟨n % b, Nat.mod_lt _ (by omega), List.mem_singleton.mp last⟩

theorem toNat_digitChar : ∀ d < 10, (Nat.digitChar d).toNat = 48 + d := by decide

theorem isDigit_iff {c : Char} : isDigit c ↔ 48 ≤ c.toNat ∧ c.toNat ≤ 57 := by
  simp only [isDigit, Bool.and_eq_true, decide_eq_true_eq, Char.le_def, UInt32.le_iff_toNat_le]
  exact Iff.rfl

theorem isDigit_of_mem_toDigits {b n : Nat} {c : Char} (base : 1 < b) (decimal : b ≤ 10)
    (h : c ∈ Nat.toDigits b n) :
    isDigit c := by
  obtain ⟨d, small, rfl⟩ := mem_toDigits base h
  rw [isDigit_iff, toNat_digitChar d (by omega)]
  omega

theorem not_isBlank_of_isDigit {c : Char} (h : isDigit c) : isBlank c = false := by
  obtain ⟨low, high⟩ := isDigit_iff.mp h
  simp only [isBlank, Bool.or_eq_false_iff, Bool.and_eq_false_iff, decide_eq_false_iff_not,
    beq_eq_false_iff_ne]
  omega

theorem trim_of_isDigit {cs : List Char} (h : ∀ c ∈ cs, isDigit c) : trim cs = cs :=
  trim_of_not_isBlank fun c hc => not_isBlank_of_isDigit (h c hc)

theorem dropPlus_of_isDigit {cs : List Char} (h : ∀ c ∈ cs, isDigit c) : dropPlus cs = cs := by
  unfold dropPlus
  split
  · exact absurd (h '+' List.mem_cons_self) (by decide)
  · rfl

theorem decimalValue_toDigits (n : Nat) : decimalValue (Nat.toDigits 10 n) = n := by
  have same : (fun (v : Nat) (c : Char) => v * 10 + digitValue c) = fun v c =>
      10 * v + (c.toNat - '0'.toNat) := by
    funext v c
    rw [Nat.mul_comm]
    rfl
  rw [decimalValue, same]
  exact Nat.ofDigitChars_ten_toDigits

theorem digitChar_digitValue {c : Char} (h : isDigit c) : Nat.digitChar (digitValue c) = c := by
  obtain ⟨low, high⟩ := isDigit_iff.mp h
  have small : digitValue c < 10 := by
    rw [digitValue]
    omega
  refine Char.toNat_inj.mp ?_
  rw [toNat_digitChar _ small, digitValue]
  omega

theorem digitValue_lt {c : Char} (h : isDigit c) : digitValue c < 10 := by
  have high := (isDigit_iff.mp h).2
  rw [digitValue]
  omega

theorem eq_nil_of_toDigits {n : Nat} {rest : List Char} (h : Nat.toDigits 10 n = '0' :: rest) :
    rest = [] := by
  induction n using Nat.strongRecOn generalizing rest with
  | ind n ih =>
    rw [Nat.toDigits_eq_if (by decide)] at h
    split at h
    · exact (List.cons.inj h).2.symm
    · rename_i large
      obtain ⟨c, front, eq⟩ :=
        List.exists_cons_of_ne_nil (Nat.toDigits_ne_nil (b := 10) (n := n / 10))
      rw [eq, List.cons_append] at h
      obtain ⟨rfl, -⟩ := List.cons.inj h
      have nothing := ih (n / 10) (Nat.div_lt_self (by omega) (by decide)) eq
      have value := decimalValue_toDigits (n / 10)
      rw [eq, nothing] at value
      have zero : n / 10 = 0 := value.symm
      omega

theorem toDigits_decimalValue {digits : List Char} (nonempty : digits ≠ [])
    (all : ∀ c ∈ digits, isDigit c) (lead : ∀ rest, digits = '0' :: rest → rest = []) :
    Nat.toDigits 10 (decimalValue digits) = digits := by
  induction digits using List.reverseRecOn with
  | nil => exact absurd rfl nonempty
  | append_singleton front d ih =>
    have digit := all d (List.mem_append_right _ (List.mem_singleton_self d))
    have value : decimalValue (front ++ [d]) = decimalValue front * 10 + digitValue d := by
      rw [decimalValue, List.foldl_append]
      rfl
    by_cases first : front = []
    · subst first
      rw [value, show decimalValue [] * 10 + digitValue d = digitValue d from Nat.zero_add _,
        Nat.toDigits_of_lt_base (digitValue_lt digit), digitChar_digitValue digit]
      rfl
    · have clean : ∀ rest, front ≠ '0' :: rest := fun rest eq =>
        List.append_ne_nil_of_right_ne_nil _ (List.cons_ne_nil d [])
          (lead (rest ++ [d]) (by rw [eq]; rfl))
      have before := ih first (fun c hc => all c (List.mem_append_left _ hc)) fun rest eq =>
        absurd eq (clean rest)
      have positive : 0 < decimalValue front :=
        Nat.pos_of_ne_zero fun zero => clean [] (by rw [← before, zero]; rfl)
      rw [value, Nat.mul_comm,
        ← Nat.toDigits_append_toDigits (by decide) positive (digitValue_lt digit), before,
        Nat.toDigits_of_lt_base (digitValue_lt digit), digitChar_digitValue digit]

end Stowage
