import Stowage.Moment
import Stowage.Proofs.Text.Decimal

/-! Moments as Unix time counts them, and as they are read from digits. What is read is a second of
Unix time, so that a leap second is told from the second before it only until it is written. -/
namespace Stowage.Moment

variable {t : Moment}

theorem nanosLimit_pos (seconds : Int) : 0 < nanosLimit seconds := by
  unfold nanosLimit
  split <;> decide

def unixSecond (t : Moment) : Moment :=
  { t with nanos := 0, nanos_lt := nanosLimit_pos t.seconds }

def Leaps (t : Moment) : Prop := secondNanos ≤ t.nanos

instance (t : Moment) : Decidable t.Leaps := inferInstanceAs (Decidable (_ ≤ _))

@[simp]
theorem seconds_wholeSecond (t : Moment) : t.wholeSecond.seconds = t.seconds := rfl

@[simp]
theorem seconds_unixSecond (t : Moment) : t.unixSecond.seconds = t.seconds := rfl

@[simp]
theorem nanos_unixSecond (t : Moment) : t.unixSecond.nanos = 0 := rfl

theorem unixSecond_inj {t t' : Moment} : t.unixSecond = t'.unixSecond ↔ t.seconds = t'.seconds := by
  rw [Moment.ext_iff, seconds_unixSecond, seconds_unixSecond, nanos_unixSecond, nanos_unixSecond]
  exact and_iff_left rfl

theorem unixSecond_eq_self (whole : t.nanos = 0) : t.unixSecond = t := by
  ext
  · rfl
  · exact whole.symm

theorem nanos_eq_zero_iff (whole : t.wholeSecond = t) : t.nanos = 0 ↔ ¬ t.Leaps := by
  have nanos : t.nanos - t.nanos % secondNanos = t.nanos := congrArg Moment.nanos whole
  have within := Nat.mod_lt t.nanos (by decide : 0 < secondNanos)
  rw [Leaps, Nat.not_le]
  constructor
  · intro zero
    rw [zero]
    decide
  · intro before
    rw [Nat.mod_eq_of_lt before] at nanos
    omega

theorem wholeSecond_wholeSecond (t : Moment) : t.wholeSecond.wholeSecond = t.wholeSecond := by
  have within := Nat.mod_le t.nanos secondNanos
  have turns : t.nanos - t.nanos % secondNanos = secondNanos * (t.nanos / secondNanos) := by
    have parts := Nat.mod_add_div t.nanos secondNanos
    omega
  ext
  · rfl
  · change (t.nanos - t.nanos % secondNanos) - (t.nanos - t.nanos % secondNanos) % secondNanos = _
    rw [turns, Nat.mul_mod_right, Nat.sub_zero]
    exact turns.symm

theorem leaps_wholeSecond_iff : t.wholeSecond.Leaps ↔ t.Leaps := by
  have parts := Nat.mod_add_div t.nanos secondNanos
  have within := Nat.mod_lt t.nanos (by decide : 0 < secondNanos)
  change secondNanos ≤ t.nanos - t.nanos % secondNanos ↔ secondNanos ≤ t.nanos
  constructor
  · exact fun leaps => leaps.trans (Nat.sub_le ..)
  · intro leaps
    have turned : 1 ≤ t.nanos / secondNanos :=
      (Nat.one_le_div_iff (by decide)).mpr leaps
    have whole := Nat.mul_le_mul_left secondNanos turned
    omega

/-- Unix time has no count for a leap second. -/
theorem unixSecond_eq_wholeSecond_iff : t.unixSecond = t.wholeSecond ↔ ¬ t.Leaps := by
  rw [← leaps_wholeSecond_iff, ← nanos_eq_zero_iff (wholeSecond_wholeSecond t)]
  constructor
  · exact fun same => (congrArg Moment.nanos same).symm
  · exact fun whole => unixSecond_eq_self whole

theorem at?_of_lt {seconds : Int} (h : lastSecond < seconds) (nanos : Nat) :
    at? seconds nanos = none :=
  dif_neg fun within => Int.not_le.mpr h within.2.1

theorem at?_eq_some_iff {seconds : Int} {nanos : Nat} :
    at? seconds nanos = some t ↔ t.seconds = seconds ∧ t.nanos = nanos := by
  constructor
  · intro h
    unfold at? at h
    split at h
    · cases h
      exact ⟨rfl, rfl⟩
    · cases h
  · rintro ⟨rfl, rfl⟩
    exact dif_pos ⟨t.first_le, t.le_last, t.nanos_lt⟩

theorem ofDecimal?_eq (cs : List Char) :
    ofDecimal? cs =
      if !(dropPlus cs).isEmpty && (dropPlus cs).all isDigit then
        at? (decimalValue (dropPlus cs)) 0
      else none := by
  have further (n : Nat) (h : signedLimit ≤ n) : at? n 0 = none := by
    refine at?_of_lt ?_ 0
    have last : lastSecond < (signedLimit : Nat) := by decide
    omega
  rw [ofDecimal?, word?, decimal?]
  cases (dropPlus cs).isEmpty with
  | true => rfl
  | false =>
    cases (dropPlus cs).all isDigit with
    | false => rfl
    | true =>
      simp only [Bool.not_true, Bool.or_self, Bool.false_eq_true, Bool.not_false, Bool.and_self,
        if_true, if_false]
      split
      · rename_i n read
        split at read
        · cases read
          split
          · rfl
          · exact (further _ (by omega)).symm
        · cases read
      · rename_i read
        split at read
        · cases read
        · rename_i large
          refine (further _ ?_).symm
          have limits : signedLimit ≤ wordLimit - 1 := by decide
          omega

theorem ofDecimal?_eq_some_iff {cs : List Char} :
    ofDecimal? cs = some t ↔
      (dropPlus cs ≠ [] ∧ ∀ c ∈ dropPlus cs, isDigit c) ∧
        t.seconds = decimalValue (dropPlus cs) ∧ t.nanos = 0 := by
  rw [ofDecimal?_eq]
  split
  · rename_i number
    rw [at?_eq_some_iff]
    simp_all
  · rename_i other
    refine iff_of_false (Option.some_ne_none t).symm fun h => other ?_
    simpa using h.1

theorem ofDecimal?_toDigits (since : 0 ≤ t.seconds) :
    ofDecimal? (Nat.toDigits 10 t.seconds.toNat) = some t.unixSecond := by
  have digits : ∀ c ∈ Nat.toDigits 10 t.seconds.toNat, isDigit c := fun c hc =>
    isDigit_of_mem_toDigits (by decide) (by decide) hc
  rw [ofDecimal?_eq_some_iff, dropPlus_of_isDigit digits, decimalValue_toDigits]
  exact ⟨⟨Nat.toDigits_ne_nil, digits⟩, (Int.toNat_of_nonneg since).symm, rfl⟩

theorem seconds_of_ofDecimal? {digits : List Char} (all : ∀ c ∈ digits, isDigit c)
    (h : ofDecimal? digits = some t) : t.seconds = decimalValue digits := by
  have second := (ofDecimal?_eq_some_iff.mp h).2.1
  rwa [dropPlus_of_isDigit all] at second

end Stowage.Moment
