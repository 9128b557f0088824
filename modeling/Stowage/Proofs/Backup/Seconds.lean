import Stowage.Proofs.Backup.FileName
import Stowage.Proofs.Backup.Identity

/-! The seconds that names of archives and their entries tell: which decimals are read as a moment,
and that the moment of a backup comes back from its seconds as they are written, but for the part of
a second. -/
namespace Stowage.Moment

/-- A decimal as it is accepted: digits, behind one plus sign or none. -/
structure Spells (cs digits : List Char) : Prop where
  text : cs = digits ∨ cs = '+' :: digits
  nonempty : digits ≠ []
  decimal : ∀ c ∈ digits, isDigit c

theorem Spells.dropPlus_eq {cs digits : List Char} (h : Spells cs digits) :
    dropPlus cs = digits := by
  rcases h.text with rfl | rfl
  · exact dropPlus_of_isDigit h.decimal
  · rfl

theorem eq_or_eq_of_dropPlus (cs : List Char) : cs = dropPlus cs ∨ cs = '+' :: dropPlus cs := by
  unfold dropPlus
  split
  · exact .inr rfl
  · exact .inl rfl

theorem ofDecimal?_eq_some_iff_spells {cs : List Char} {t : Moment} :
    ofDecimal? cs = some t ↔
      ∃ digits, Spells cs digits ∧ t.seconds = decimalValue digits ∧ t.nanos = 0 := by
  rw [ofDecimal?_eq_some_iff]
  constructor
  · rintro ⟨⟨nonempty, decimal⟩, told⟩
    exact ⟨dropPlus cs, ⟨eq_or_eq_of_dropPlus cs, nonempty, decimal⟩, told⟩
  · rintro ⟨digits, spelled, told⟩
    rw [spelled.dropPlus_eq]
    exact ⟨⟨spelled.nonempty, spelled.decimal⟩, told⟩

theorem exists_ofDecimal?_iff {cs : List Char} :
    (∃ t, ofDecimal? cs = some t) ↔
      ∃ digits, Spells cs digits ∧ decimalValue digits ≤ lastSecond := by
  constructor
  · rintro ⟨t, read⟩
    obtain ⟨digits, spelled, second, -⟩ := ofDecimal?_eq_some_iff_spells.mp read
    exact ⟨digits, spelled, second ▸ t.le_last⟩
  · rintro ⟨digits, spelled, within⟩
    have first : firstSecond ≤ decimalValue digits :=
      Int.le_trans (by decide) (Int.natCast_nonneg _)
    exact ⟨⟨decimalValue digits, 0, first, within, nanosLimit_pos _⟩,
      ofDecimal?_eq_some_iff_spells.mpr ⟨digits, spelled, rfl, rfl⟩⟩

theorem ofDecimal?_negative {n : Int} (before : n < 0) : ofDecimal? (toString n).toList = none := by
  have text : (toString n).toList = '-' :: Nat.toDigits 10 n.natAbs := by
    rw [Backup.toList_toString_int, Backup.sign, if_pos before]
    rfl
  refine Option.eq_none_iff_forall_ne_some.mpr fun t read => ?_
  have digit := (ofDecimal?_eq_some_iff.mp read).1.2 '-' (by rw [text]; exact List.mem_cons_self)
  exact absurd digit (by decide)

theorem ofDecimal?_toString_seconds {t : Moment} (since : 0 ≤ t.seconds) :
    ofDecimal? (toString t.seconds).toList = some t.unixSecond := by
  rw [Backup.toList_toString_seconds since]
  exact ofDecimal?_toDigits since

/-- A decimal is read as a moment exactly where it is digits, behind one plus sign or none, that
tell no second beyond the calendar; the moment is then that second. What is written of a moment is
read back as its second in Unix time, unless it lies before 1970, and this is the whole second of
the moment unless it lies in a leap second. -/
theorem ofDecimal?_exact :
    (∀ cs, (∃ t, ofDecimal? cs = some t) ↔
      ∃ digits, Spells cs digits ∧ decimalValue digits ≤ 8210266876799) ∧
    (∀ cs digits t, Spells cs digits → ofDecimal? cs = some t →
      t.seconds = decimalValue digits ∧ t.nanos = 0) ∧
    (∀ t : Moment, ofDecimal? (toString t.seconds).toList = some t.unixSecond ↔ 0 ≤ t.seconds) ∧
    ∀ t : Moment, ofDecimal? (toString t.seconds).toList = some t.wholeSecond ↔
      0 ≤ t.seconds ∧ ¬ t.Leaps := by
  have since_of_read {t t' : Moment} (read : ofDecimal? (toString t.seconds).toList = some t') :
      0 ≤ t.seconds := by
    by_contra before
    rw [ofDecimal?_negative (Int.not_le.mp before)] at read
    cases read
  refine ⟨fun cs => ?_, fun cs digits t spelled read => ?_, fun t => ?_, fun t => ?_⟩
  · have last : lastSecond = (8210266876799 : Nat) := rfl
    rw [exists_ofDecimal?_iff, last]
    simp only [Int.ofNat_le]
  · have told := (ofDecimal?_eq_some_iff.mp read).2
    rwa [spelled.dropPlus_eq] at told
  · exact ⟨since_of_read, ofDecimal?_toString_seconds⟩
  · rw [← unixSecond_eq_wholeSecond_iff]
    constructor
    · intro read
      have since := since_of_read read
      rw [ofDecimal?_toString_seconds since] at read
      exact ⟨since, Option.some.inj read⟩
    · rintro ⟨since, same⟩
      rw [ofDecimal?_toString_seconds since, same]

/-- What is written of 23:59:60.5 is read back as 23:59:59. -/
theorem not_ofDecimal?_of_leaps :
    ¬ ∀ t : Moment, 0 ≤ t.seconds →
      ofDecimal? (toString t.seconds).toList = some t.wholeSecond := by
  intro back
  let leap : Moment := { seconds := 1483228799, nanos := 1500000000 }
  have read := back leap (by decide)
  rw [ofDecimal?_toString_seconds (by decide)] at read
  exact absurd read (by decide)

end Stowage.Moment
