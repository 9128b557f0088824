import Stowage.Proofs.Text.Utf8

/-! A lossy reading makes up no ASCII: each such character stands among the octets. -/
namespace Stowage.Utf8

def Pending.Beyond (p : Pending) : Prop :=
  ∀ b, p.low ≤ b → b ≤ p.high → 2 ≤ (p.next b).value ∧ (p.need ≤ 1 → 0x80 ≤ (p.next b).value)

theorem Pending.Beyond.next {p : Pending} (h : p.Beyond) {b : UInt8} (low : p.low ≤ b)
    (high : b ≤ p.high) :
    (p.next b).Beyond := by
  intro c _ _
  have large := (h b low high).1
  change 2 ≤ (p.next b).value * 64 + c.toNat % 64 ∧
    (_ → 0x80 ≤ (p.next b).value * 64 + c.toNat % 64)
  omega

theorem lead_beyond {b : UInt8} (low : 0xc2 ≤ b) (high : b < 0xf5) : (lead b).Beyond := by
  intro c above below
  by_cases two : b < 0xe0
  · rw [lead, if_pos two] at *
    simp only [UInt8.lt_iff_toNat_lt, Pending.next, UInt8.le_iff_toNat_le, UInt8.reduceToNat] at *
    omega
  · by_cases three : b < 0xf0
    · rw [lead, if_neg two, if_pos three] at *
      simp only [UInt8.lt_iff_toNat_lt, ← UInt8.toNat_inj, Pending.next, UInt8.le_iff_toNat_le,
        apply_ite UInt8.toNat, UInt8.reduceToNat] at *
      split_ifs at above below <;> omega
    · rw [lead, if_neg two, if_neg three] at *
      simp only [UInt8.lt_iff_toNat_lt, ← UInt8.toNat_inj, Pending.next, UInt8.le_iff_toNat_le,
        apply_ite UInt8.toNat, UInt8.reduceToNat] at *
      split_ifs at above below <;> omega

theorem toNat_ofNat_of_ne_zero {n : Nat} (h : (Char.ofNat n).toNat ≠ 0) :
    (Char.ofNat n).toNat = n := by
  by_cases valid : n.isValidChar
  · rw [Char.ofNat, dif_pos valid]
    rfl
  · rw [Char.ofNat, dif_neg valid] at h
    exact absurd rfl h

/-- The ASCII characters so far are among the octets so far, and the one begun will be none. -/
structure Faithful (seen : Bytes) (s : State) : Prop where
  ascii (c : Char) : .char c ∈ s.pieces → c.toNat ≠ 0 → c.toNat < 0x80 → UInt8.ofNat c.toNat ∈ seen
  beyond (p : Pending) : s.pending = some p → p.Beyond

theorem Faithful.start {seen : Bytes} {done : List Piece} {b : UInt8}
    (h : Faithful seen ⟨done, none⟩) :
    Faithful (seen ++ [b]) (start done b) := by
  have before (c : Char) (hc : .char c ∈ done) (nonzero : c.toNat ≠ 0) (small : c.toNat < 0x80) :
      UInt8.ofNat c.toNat ∈ seen ++ [b] := List.mem_append_left _ (h.ascii c hc nonzero small)
  by_cases single : b < 0x80
  · rw [start_of_lt single]
    refine ⟨fun c hc nonzero small => ?_, fun p hp => by cases hp⟩
    rcases List.mem_cons.mp hc with same | hc
    · cases same
      rw [toNat_ofNat_of_ne_zero nonzero, UInt8.ofNat_toNat]
      exact List.mem_append_right _ List.mem_cons_self
    · exact before c hc nonzero small
  · by_cases begins : 0xc2 ≤ b ∧ b < 0xf5
    · rw [start_of_lead begins.1 begins.2]
      refine ⟨before, fun p hp => ?_⟩
      cases hp
      exact lead_beyond begins.1 begins.2
    · have broken : 0x80 ≤ b ∧ b < 0xc2 ∨ 0xf5 ≤ b := by
        simp only [UInt8.lt_iff_toNat_lt, UInt8.le_iff_toNat_le] at *
        omega
      rw [start_broken broken]
      refine ⟨fun c hc nonzero small => ?_, fun p hp => by cases hp⟩
      rcases List.mem_cons.mp hc with same | hc
      · cases same
      · exact before c hc nonzero small

theorem Faithful.step {seen : Bytes} {s : State} (h : Faithful seen s) (b : UInt8) :
    Faithful (seen ++ [b]) (step s b) := by
  obtain ⟨done, pending⟩ := s
  cases pending with
  | none => exact h.start
  | some p =>
    have beyond := h.beyond p rfl
    by_cases within : (p.low ≤ b && b ≤ p.high) = true
    · obtain ⟨low, high⟩ : p.low ≤ b ∧ b ≤ p.high := by simpa using within
      rw [step_pending within]
      split
      · rename_i last
        refine ⟨fun c hc nonzero small => ?_, fun p hp => by cases hp⟩
        rcases List.mem_cons.mp hc with same | hc
        · cases same
          -- The character completed here is none of ASCII.
          have large := (beyond b low high).2 last
          rw [toNat_ofNat_of_ne_zero nonzero] at small
          omega
        · exact List.mem_append_left _ (h.ascii c hc nonzero small)
      · refine ⟨fun c hc nonzero small => List.mem_append_left _ (h.ascii c hc nonzero small),
          fun q hq => ?_⟩
        cases hq
        exact beyond.next low high
    · rw [step_outside within]
      refine Faithful.start ⟨fun c hc nonzero small => ?_, fun p hp => by cases hp⟩
      rcases List.mem_cons.mp hc with same | hc
      · cases same
      · exact h.ascii c hc nonzero small

theorem Faithful.foldl {seen : Bytes} {s : State} (h : Faithful seen s) (bs : Bytes) :
    Faithful (seen ++ bs) (bs.foldl Utf8.step s) := by
  induction bs generalizing seen s with
  | nil => rwa [List.append_nil]
  | cons b bs ih =>
    have rest := ih (h.step b)
    rwa [List.append_assoc] at rest

theorem mem_of_mem_decodeLossy {bs : Bytes} {c : Char} (h : c ∈ decodeLossy bs)
    (nonzero : c.toNat ≠ 0) (small : c.toNat < 0x80) : UInt8.ofNat c.toNat ∈ bs := by
  have empty : Faithful [] ⟨[], none⟩ :=
    ⟨fun c hc => absurd hc List.not_mem_nil, fun p hp => by cases hp⟩
  have faithful := empty.foldl bs
  obtain ⟨p, hp, shown⟩ := List.mem_map.mp h
  cases p with
  | char d =>
    cases shown
    refine faithful.ascii d ?_ nonzero small
    have mem := List.mem_reverse.mp hp
    split at mem
    · rcases List.mem_cons.mp mem with same | mem
      · cases same
      · exact mem
    · exact mem
  | broken n =>
    cases shown
    exact absurd small (show ¬ '\ufffd'.toNat < 0x80 by decide)
  | cut =>
    cases shown
    exact absurd small (show ¬ '\ufffd'.toNat < 0x80 by decide)

theorem mem_of_mem_encode {cs : List Char} {c : Char} (small : c.toNat < 0x80)
    (h : UInt8.ofNat c.toNat ∈ encode cs) :
    c ∈ cs := by
  obtain ⟨d, hd, mem⟩ := List.mem_flatMap.mp h
  have octet : (UInt8.ofNat c.toNat).toNat = c.toNat := by
    rw [UInt8.toNat_ofNat', Nat.mod_eq_of_lt (by omega)]
  have same : d.toNat = c.toNat := by
    have bound : d.toNat < 0x110000 := by
      have valid : d.toNat < 0xd800 ∨ 0xdfff < d.toNat ∧ d.toNat < 0x110000 := d.valid
      omega
    rw [encodeChar_eq] at mem
    split_ifs at mem <;>
      · simp only [List.mem_cons, List.not_mem_nil, or_false, ← UInt8.toNat_inj, octet,
        UInt8.toNat_ofNat'] at mem
        omega
  rw [← Char.ofNat_toNat c, ← same, Char.ofNat_toNat]
  exact hd

theorem encode_injective : Function.Injective encode := fun cs ds h => by
  have read := congrArg decode? h
  rw [decode?_encode, decode?_encode] at read
  exact Option.some.inj read

end Stowage.Utf8
