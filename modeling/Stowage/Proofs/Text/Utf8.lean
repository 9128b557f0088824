import Mathlib.Data.List.Basic
import Mathlib.Tactic.Common
import Stowage.Text.Utf8

/-! What the reading of UTF-8 one octet at a time amounts to: the octets that read as a text are the
ones that the text is written with, and a lossy reading that replaced nothing is exact. -/
namespace Stowage.Utf8

@[simp]
theorem encode_nil : encode [] = [] := rfl

@[simp]
theorem encode_cons (c : Char) (cs : List Char) :
    encode (c :: cs) = String.utf8EncodeChar c ++ encode cs :=
  List.flatMap_cons

@[simp]
theorem encode_eq_nil_iff {cs : List Char} : encode cs = [] ↔ cs = [] := by
  cases cs with
  | nil => exact iff_of_true rfl rfl
  | cons c cs =>
    rw [encode_cons]
    refine iff_of_false (List.append_ne_nil_of_left_ne_nil (List.ne_nil_of_length_pos ?_) _)
      (List.cons_ne_nil _ _)
    rw [String.length_utf8EncodeChar]
    exact c.utf8Size_pos

@[simp]
theorem encode_append (cs ds : List Char) : encode (cs ++ ds) = encode cs ++ encode ds :=
  List.flatMap_append

/-- What a character with this first octet needs. -/
def lead (b : UInt8) : Pending :=
  if b < 0xe0 then ⟨1, 0x80, 0xbf, b.toNat - 0xc0, 1⟩
  else if b < 0xf0 then ⟨2, if b = 0xe0 then 0xa0 else 0x80, if b = 0xed then 0x9f else 0xbf,
    b.toNat - 0xe0, 1⟩
  else ⟨3, if b = 0xf0 then 0x90 else 0x80, if b = 0xf4 then 0x8f else 0xbf, b.toNat - 0xf0, 1⟩

theorem lead_need_pos (b : UInt8) : 0 < (lead b).need := by
  unfold lead
  split
  · exact Nat.one_pos
  · split <;> exact Nat.succ_pos _

namespace Pending

def next (p : Pending) (b : UInt8) : Pending :=
  ⟨p.need - 1, 0x80, 0xbf, p.value * 64 + b.toNat % 64, p.taken + 1⟩

def accepts (p : Pending) : Bytes → Bool
  | [] => true
  | b :: bs => (p.low ≤ b && b ≤ p.high) && (p.next b).accepts bs

end Pending

theorem start_of_lt {b : UInt8} (h : b < 0x80) (done : List Piece) :
    start done b = ⟨.char (Char.ofNat b.toNat) :: done, none⟩ := if_pos h

theorem start_of_lead {b : UInt8} (low : 0xc2 ≤ b) (high : b < 0xf5) (done : List Piece) :
    start done b = ⟨done, some (lead b)⟩ := by
  have outside : ¬ b < 0x80 := fun h => absurd (UInt8.le_trans low (UInt8.le_of_lt h)) (by decide)
  have behind : ¬ b < 0xc2 := UInt8.not_lt.mpr low
  simp only [start, lead, outside, behind, high, if_true, if_false]
  split
  · rfl
  · split <;> rfl

theorem start_broken {b : UInt8} (h : 0x80 ≤ b ∧ b < 0xc2 ∨ 0xf5 ≤ b) (done : List Piece) :
    start done b = ⟨.broken 1 :: done, none⟩ := by
  simp only [UInt8.lt_iff_toNat_lt, UInt8.le_iff_toNat_le] at h
  simp only [start, UInt8.lt_iff_toNat_lt]
  simp only [UInt8.toNat_ofNat] at *
  rcases h with h | h
  · rw [if_neg (by omega), if_pos (by omega)]
  · rw [if_neg (by omega), if_neg (by omega), if_neg (by omega), if_neg (by omega),
      if_neg (by omega)]

theorem step_pending {p : Pending} {b : UInt8} (h : (p.low ≤ b && b ≤ p.high) = true)
    (done : List Piece) :
    step ⟨done, some p⟩ b =
      if p.need ≤ 1 then ⟨.char (Char.ofNat (p.next b).value) :: done, none⟩
        else ⟨done, some (p.next b)⟩ := by
  rw [step]
  simp only [h, if_true]
  rfl

theorem step_outside {p : Pending} {b : UInt8} (h : ¬ (p.low ≤ b && b ≤ p.high) = true)
    (done : List Piece) :
    step ⟨done, some p⟩ b = start (.broken p.taken :: done) b := by
  rw [step]
  simp only [h]
  rfl

theorem foldl_step_pending {p : Pending} {bs : Bytes} (h : p.accepts bs) (done : List Piece) :
    (bs.length < p.need → bs.foldl step ⟨done, some p⟩ = ⟨done, some (bs.foldl Pending.next p)⟩) ∧
      (bs ≠ [] → bs.length = p.need →
        bs.foldl step ⟨done, some p⟩ = ⟨.char (Char.ofNat (bs.foldl Pending.next p).value) :: done,
          none⟩) := by
  induction bs generalizing p with
  | nil => exact ⟨fun _ => rfl, fun h => absurd rfl h⟩
  | cons b bs ih =>
    obtain ⟨within, later⟩ := Bool.and_eq_true_iff.mp h
    rw [List.length_cons, List.foldl_cons, List.foldl_cons, step_pending within]
    have need : (p.next b).need = p.need - 1 := rfl
    constructor
    · intro short
      rw [if_neg (by omega)]
      exact (ih later).1 (by omega)
    · intro _ full
      cases bs with
      | nil =>
        rw [if_pos (by simp_all)]
        rfl
      | cons c cs =>
        rw [List.length_cons] at full
        rw [if_neg (by omega)]
        exact (ih later).2 (List.cons_ne_nil c cs) (by rw [need, List.length_cons]; omega)

theorem encodeChar_eq (c : Char) : String.utf8EncodeChar c =
    if c.toNat ≤ 0x7f then [UInt8.ofNat c.toNat]
    else if c.toNat ≤ 0x7ff
      then [UInt8.ofNat (c.toNat / 64 % 0x20 + 0xc0), UInt8.ofNat (c.toNat % 0x40 + 0x80)]
    else if c.toNat ≤ 0xffff then
      [UInt8.ofNat (c.toNat / 4096 % 0x10 + 0xe0), UInt8.ofNat (c.toNat / 64 % 0x40 + 0x80),
        UInt8.ofNat (c.toNat % 0x40 + 0x80)]
    else
      [UInt8.ofNat (c.toNat / 262144 % 0x08 + 0xf0), UInt8.ofNat (c.toNat / 4096 % 0x40 + 0x80),
        UInt8.ofNat (c.toNat / 64 % 0x40 + 0x80), UInt8.ofNat (c.toNat % 0x40 + 0x80)] := rfl

theorem exists_lead (c : Char) (h : 0x7f < c.toNat) :
    ∃ b bs, String.utf8EncodeChar c = b :: bs ∧ 0xc2 ≤ b ∧ b < 0xf5 ∧ (lead b).accepts bs ∧
      bs.length = (lead b).need ∧ (bs.foldl Pending.next (lead b)).value = c.toNat := by
  have valid : c.toNat < 0xd800 ∨ 0xdfff < c.toNat ∧ c.toNat < 0x110000 := c.valid
  have toNat (k : Nat) (h : k < 256) : (UInt8.ofNat k).toNat = k := by
    rw [UInt8.toNat_ofNat', Nat.mod_eq_of_lt h]
  rw [encodeChar_eq, if_neg (Nat.not_le.mpr h)]
  generalize c.toNat = n at *
  split
  · refine ⟨_, _, rfl, ?_⟩
    have h0 := toNat (n / 64 % 0x20 + 0xc0) (by omega)
    have h1 := toNat (n % 0x40 + 0x80) (by omega)
    simp only [lead, Pending.accepts, Pending.next, List.foldl, List.length, UInt8.le_iff_toNat_le,
      UInt8.lt_iff_toNat_lt, ← UInt8.toNat_inj, UInt8.reduceToNat, h0, h1]
    rw [if_pos (by omega)]
    simp only [Bool.and_eq_true, decide_eq_true_eq, and_true, true_and, UInt8.reduceToNat]
    omega
  · split
    · refine ⟨_, _, rfl, ?_⟩
      have h0 := toNat (n / 4096 % 0x10 + 0xe0) (by omega)
      have h1 := toNat (n / 64 % 0x40 + 0x80) (by omega)
      have h2 := toNat (n % 0x40 + 0x80) (by omega)
      simp only [lead, Pending.accepts, Pending.next, List.foldl, List.length,
        UInt8.le_iff_toNat_le, UInt8.lt_iff_toNat_lt, ← UInt8.toNat_inj, UInt8.reduceToNat, h0, h1,
        h2]
      rw [if_neg (by omega), if_pos (by omega)]
      simp only [Bool.and_eq_true, decide_eq_true_eq, and_true, true_and]
      split <;> split <;> simp only [UInt8.reduceToNat] <;> omega
    · refine ⟨_, _, rfl, ?_⟩
      have h0 := toNat (n / 262144 % 0x08 + 0xf0) (by omega)
      have h1 := toNat (n / 4096 % 0x40 + 0x80) (by omega)
      have h2 := toNat (n / 64 % 0x40 + 0x80) (by omega)
      have h3 := toNat (n % 0x40 + 0x80) (by omega)
      simp only [lead, Pending.accepts, Pending.next, List.foldl, List.length,
        UInt8.le_iff_toNat_le, UInt8.lt_iff_toNat_lt, ← UInt8.toNat_inj, UInt8.reduceToNat, h0, h1,
        h2, h3]
      rw [if_neg (by omega), if_neg (by omega)]
      simp only [Bool.and_eq_true, decide_eq_true_eq, and_true, true_and]
      split <;> split <;> simp only [UInt8.reduceToNat] <;> omega

theorem toNat_ofNat_of_valid {n : Nat} (h : n < 0xd800 ∨ 0xdfff < n ∧ n < 0x110000) :
    (Char.ofNat n).toNat = n := by
  rw [Char.ofNat, dif_pos (show n.isValidChar from h)]
  rfl

theorem ofNat_eq_iff {k : Nat} {b : UInt8} (h : k = b.toNat) : UInt8.ofNat k = b := by
  rw [h, UInt8.ofNat_toNat]

theorem encodeChar_of_lead {b : UInt8} {bs : Bytes} (low : 0xc2 ≤ b) (high : b < 0xf5)
    (fits : (lead b).accepts bs) (full : bs.length = (lead b).need) :
    String.utf8EncodeChar (Char.ofNat (bs.foldl Pending.next (lead b)).value) = b :: bs := by
  simp only [UInt8.le_iff_toNat_le, UInt8.lt_iff_toNat_lt, UInt8.reduceToNat] at low high
  by_cases two : b < 0xe0
  · rw [lead, if_pos two] at *
    obtain ⟨b1, rfl⟩ := List.length_eq_one_iff.mp full
    simp only [UInt8.lt_iff_toNat_lt, Pending.accepts, UInt8.le_iff_toNat_le, UInt8.reduceToNat,
      Bool.and_eq_true, decide_eq_true_eq, and_true] at two fits
    simp only [List.foldl, Pending.next]
    rw [encodeChar_eq, toNat_ofNat_of_valid (by omega), if_neg (by omega), if_pos (by omega),
      ofNat_eq_iff (b := b) (by omega), ofNat_eq_iff (b := b1) (by omega)]
  · by_cases three : b < 0xf0
    · rw [lead, if_neg two, if_pos three] at *
      obtain ⟨b1, b2, rfl⟩ : ∃ b1 b2, bs = [b1, b2] :=
        match bs, full with | [b1, b2], _ => ⟨b1, b2, rfl⟩
      simp only [UInt8.lt_iff_toNat_lt, ← UInt8.toNat_inj, Pending.accepts, Pending.next,
        UInt8.le_iff_toNat_le, apply_ite UInt8.toNat, UInt8.reduceToNat, Bool.and_eq_true,
        decide_eq_true_eq, and_true] at two three fits
      -- The second octet keeps the value above what two octets can write, and off the surrogates.
      have second : (b.toNat = 0xe0 → 0xa0 ≤ b1.toNat) ∧ (b.toNat = 0xed → b1.toNat ≤ 0x9f) ∧
          0x80 ≤ b1.toNat ∧
          b1.toNat ≤ 0xbf := by
        split_ifs at fits <;> omega
      obtain ⟨_, third⟩ := fits
      simp only [List.foldl, Pending.next]
      rw [encodeChar_eq, toNat_ofNat_of_valid (by omega), if_neg (by omega), if_neg (by omega),
        if_pos (by omega), ofNat_eq_iff (b := b) (by omega), ofNat_eq_iff (b := b1) (by omega),
        ofNat_eq_iff (b := b2) (by omega)]
    · rw [lead, if_neg two, if_neg three] at *
      obtain ⟨b1, b2, b3, rfl⟩ : ∃ b1 b2 b3, bs = [b1, b2, b3] :=
        match bs, full with | [b1, b2, b3], _ => ⟨b1, b2, b3, rfl⟩
      simp only [UInt8.lt_iff_toNat_lt, ← UInt8.toNat_inj, Pending.accepts, Pending.next,
        UInt8.le_iff_toNat_le, apply_ite UInt8.toNat, UInt8.reduceToNat, Bool.and_eq_true,
        decide_eq_true_eq, and_true] at two three fits
      have second : (b.toNat = 0xf0 → 0x90 ≤ b1.toNat) ∧ (b.toNat = 0xf4 → b1.toNat ≤ 0x8f) ∧
          0x80 ≤ b1.toNat ∧
          b1.toNat ≤ 0xbf := by
        split_ifs at fits <;> omega
      obtain ⟨_, third, fourth⟩ := fits
      simp only [List.foldl, Pending.next]
      rw [encodeChar_eq, toNat_ofNat_of_valid (by omega), if_neg (by omega), if_neg (by omega),
        if_neg (by omega), ofNat_eq_iff (b := b) (by omega), ofNat_eq_iff (b := b1) (by omega),
        ofNat_eq_iff (b := b2) (by omega),
        ofNat_eq_iff (b := b3) (by omega)]

theorem foldl_step_encodeChar (c : Char) (done : List Piece) :
    (String.utf8EncodeChar c).foldl step ⟨done, none⟩ = ⟨.char c :: done, none⟩ := by
  by_cases h : c.toNat ≤ 0x7f
  · rw [encodeChar_eq, if_pos h]
    have small : (UInt8.ofNat c.toNat).toNat = c.toNat := by
      rw [UInt8.toNat_ofNat', Nat.mod_eq_of_lt (by omega)]
    have ascii : UInt8.ofNat c.toNat < 0x80 := by
      rw [UInt8.lt_iff_toNat_lt, small]
      exact Nat.lt_succ_of_le h
    change start done _ = _
    rw [start_of_lt ascii, small, Char.ofNat_toNat]
  · obtain ⟨b, bs, eq, low, high, fits, full, value⟩ := exists_lead c (by omega)
    rw [eq, List.foldl_cons]
    change bs.foldl step (start done b) = _
    have nonempty : bs ≠ [] := List.ne_nil_of_length_pos (full ▸ lead_need_pos b)
    rw [start_of_lead low high, (foldl_step_pending fits done).2 nonempty full, value,
      Char.ofNat_toNat]

theorem foldl_step_encode (cs : List Char) (done : List Piece) :
    (encode cs).foldl step ⟨done, none⟩ = ⟨(cs.map Piece.char).reverse ++ done, none⟩ := by
  induction cs generalizing done with
  | nil => rfl
  | cons c cs ih =>
    rw [encode_cons, List.foldl_append, foldl_step_encodeChar]
    exact (ih _).trans (by simp)

theorem pieces_encode (cs : List Char) : pieces (encode cs) = cs.map .char := by
  simp [pieces, foldl_step_encode]

@[simp]
theorem decode?_encode (cs : List Char) : decode? (encode cs) = some cs := by
  rw [decode?, pieces_encode]
  induction cs with
  | nil => rfl
  | cons c cs ih => simp [Piece.char?, ih]

@[simp]
theorem decodeLossy_encode (cs : List Char) : decodeLossy (encode cs) = cs := by
  simp [decodeLossy, pieces_encode, Piece.char?, Function.comp_def]

/-- A state that only characters lead to. -/
def Sound (s : State) : Prop := s.pending = none ∧ ∀ p ∈ s.pieces, p.char?.isSome

theorem mem_start {done : List Piece} {p : Piece} (h : p ∈ done) (b : UInt8) :
    p ∈ (start done b).pieces := by
  unfold start
  repeat' split
  all_goals first | exact h | exact List.mem_cons_of_mem _ h

theorem mem_foldl_step {s : State} {p : Piece} (h : p ∈ s.pieces) (bs : Bytes) :
    p ∈ (bs.foldl step s).pieces := by
  induction bs generalizing s with
  | nil => exact h
  | cons b bs ih =>
    apply ih
    unfold step
    split
    · exact mem_start h b
    · split
      · dsimp only
        split
        · exact List.mem_cons_of_mem _ h
        · exact h
      · exact mem_start (List.mem_cons_of_mem _ h) b

theorem not_sound_of_broken {done : List Piece} {n : Nat} (h : .broken n ∈ done)
    (pending : Option Pending) (bs : Bytes) :
    ¬ Sound (bs.foldl step ⟨done, pending⟩) :=
  fun sound => Bool.false_ne_true (sound.2 (.broken n) (mem_foldl_step h bs))

theorem exists_rest_of_sound {p : Pending} {done : List Piece} {bs : Bytes} (need : 0 < p.need)
    (sound : Sound (bs.foldl step ⟨done, some p⟩)) :
    ∃ mine rest, bs = mine ++ rest ∧ p.accepts mine ∧ mine.length = p.need := by
  induction bs generalizing p with
  | nil => exact absurd sound.1 (by simp)
  | cons b bs ih =>
    have within : (p.low ≤ b && b ≤ p.high) = true := by
      by_contra outside
      rw [List.foldl_cons, step_outside outside] at sound
      exact not_sound_of_broken (mem_start List.mem_cons_self b) _ bs sound
    rw [List.foldl_cons, step_pending within] at sound
    by_cases last : p.need = 1
    · exact ⟨[b], bs, rfl, by rw [Pending.accepts, within]; rfl, last.symm⟩
    · rw [if_neg (by omega)] at sound
      obtain ⟨mine, rest, rfl, fits, full⟩ := ih (by change 0 < p.need - 1; omega) sound
      refine ⟨b :: mine, rest, rfl, by rw [Pending.accepts, within, fits]; rfl, ?_⟩
      rw [List.length_cons, full]
      exact Nat.sub_add_cancel need

theorem exists_encode_of_sound (bs : Bytes) (done : List Piece)
    (sound : Sound (bs.foldl step ⟨done, none⟩)) :
    ∃ cs, bs = encode cs := by
  -- The recursion goes by whole characters, not by octets: between two of them nothing is pending.
  match bs with
  | [] => exact ⟨[], rfl⟩
  | b :: bs =>
    rw [List.foldl_cons] at sound
    change Sound (bs.foldl step (start done b)) at sound
    by_cases ascii : b < 0x80
    · rw [start_of_lt ascii] at sound
      obtain ⟨cs, rfl⟩ := exists_encode_of_sound bs _ sound
      refine ⟨Char.ofNat b.toNat :: cs, ?_⟩
      have small : b.toNat ≤ 0x7f := Nat.le_of_lt_succ (UInt8.lt_iff_toNat_lt.mp ascii)
      rw [encode_cons, encodeChar_eq, toNat_ofNat_of_valid (by omega), if_pos small,
        UInt8.ofNat_toNat]
      rfl
    · by_cases led : 0xc2 ≤ b ∧ b < 0xf5
      · rw [start_of_lead led.1 led.2] at sound
        obtain ⟨mine, rest, rfl, fits, full⟩ := exists_rest_of_sound (lead_need_pos b) sound
        rw [List.foldl_append,
          (foldl_step_pending fits done).2 (List.ne_nil_of_length_pos (full ▸ lead_need_pos b))
            full] at sound
        obtain ⟨cs, rfl⟩ := exists_encode_of_sound rest _ sound
        exact ⟨_ :: cs,
          by rw [encode_cons, encodeChar_of_lead led.1 led.2 fits full, List.cons_append]⟩
      · rw [start_broken] at sound
        · exact absurd sound (not_sound_of_broken List.mem_cons_self _ _)
        · simp only [UInt8.lt_iff_toNat_lt, UInt8.le_iff_toNat_le, UInt8.reduceToNat] at *
          omega
termination_by bs.length
decreasing_by all_goals simp_all; try omega

theorem char?_isSome_of_mapM {ps : List Piece} {cs : List Char}
    (h : ps.mapM Piece.char? = some cs) :
    ∀ p ∈ ps, p.char?.isSome := by
  induction ps generalizing cs with
  | nil => simp
  | cons p ps ih =>
    rw [List.mapM_cons] at h
    obtain ⟨c, hc, h⟩ := Option.bind_eq_some_iff.mp h
    obtain ⟨ds, hds, _⟩ := Option.bind_eq_some_iff.mp h
    rintro q (_ | ⟨_, hq⟩)
    · rw [hc]; rfl
    · exact ih hds q hq

theorem sound_of_pieces {bs : Bytes} (h : ∀ p ∈ pieces bs, p.char?.isSome) :
    Sound (bs.foldl step ⟨[], none⟩) := by
  unfold pieces at h
  dsimp only at h
  split at h
  · exact absurd (h .cut (by simp)) (by decide)
  · rename_i ended
    exact ⟨by simpa using ended, fun p hp => h p (List.mem_reverse.mpr hp)⟩

theorem decode?_eq_some_iff {bs : Bytes} {cs : List Char} :
    decode? bs = some cs ↔ bs = encode cs := by
  constructor
  · intro h
    obtain ⟨ds, rfl⟩ := exists_encode_of_sound bs [] (sound_of_pieces (char?_isSome_of_mapM h))
    rw [decode?_encode] at h
    rw [Option.some.inj h]
  · rintro rfl
    exact decode?_encode cs

theorem eq_encode_of_decodeLossy {bs : Bytes} {cs : List Char} (h : decodeLossy bs = cs)
    (exact : '\ufffd' ∉ cs) :
    bs = encode cs := by
  have whole : ∀ p ∈ pieces bs, p.char?.isSome := by
    intro p hp
    by_contra hollow
    apply exact
    rw [← h, decodeLossy, List.mem_map]
    exact ⟨p, hp, by rw [Option.not_isSome_iff_eq_none.mp hollow]; rfl⟩
  obtain ⟨ds, rfl⟩ := exists_encode_of_sound bs [] (sound_of_pieces whole)
  rw [← h, decodeLossy_encode]

theorem accepts_take {p : Pending} {bs : Bytes} (h : p.accepts bs) (n : Nat) :
    p.accepts (bs.take n) := by
  induction bs generalizing p n with
  | nil => rw [List.take_nil]; rfl
  | cons b bs ih =>
    cases n with
    | zero => rfl
    | succ n =>
      obtain ⟨within, later⟩ := Bool.and_eq_true_iff.mp h
      rw [List.take_succ_cons, Pending.accepts, within, ih later n]
      rfl

theorem length_encodeChar_of_le {c : Char} (h : c.toNat ≤ 0x7f) :
    (String.utf8EncodeChar c).length = 1 := by
  rw [encodeChar_eq, if_pos h]
  rfl

/-- A character cut in two is still awaited. -/
theorem foldl_step_take_encodeChar {c : Char} {n : Nat} (pos : 0 < n)
    (cut : n < (String.utf8EncodeChar c).length) (done : List Piece) :
    ∃ p, ((String.utf8EncodeChar c).take n).foldl step ⟨done, none⟩ = ⟨done, Option.some p⟩ := by
  have beyond : 0x7f < c.toNat := by
    by_contra h
    rw [length_encodeChar_of_le (by omega)] at cut
    omega
  obtain ⟨b, bs, eq, low, high, fits, full, _⟩ := exists_lead c beyond
  obtain ⟨n, rfl⟩ := Nat.exists_eq_succ_of_ne_zero (Nat.ne_of_gt pos)
  rw [eq] at cut ⊢
  rw [List.take_succ_cons, List.foldl_cons]
  change ∃ p, (bs.take n).foldl step (start done b) = _
  rw [start_of_lead low high]
  refine ⟨_, (foldl_step_pending (accepts_take fits n) done).1 ?_⟩
  rw [List.length_cons] at cut
  rw [List.length_take]
  omega

theorem take_encode (cs : List Char) (n : Nat) (h : n ≤ (encode cs).length) :
    ∃ ds k c, (encode cs).take n = encode ds ++ (String.utf8EncodeChar c).take k ∧
      k < (String.utf8EncodeChar c).length ∧ n = (encode ds).length + k := by
  induction cs generalizing n with
  | nil =>
    exact ⟨[], 0, default, by rw [List.take_zero, encode_nil, List.take_nil]; rfl, by decide,
      by simpa using h⟩
  | cons c cs ih =>
    rw [encode_cons, List.length_append] at h
    by_cases cut : n < (String.utf8EncodeChar c).length
    · refine ⟨[], n, c, ?_, cut, (Nat.zero_add n).symm⟩
      rw [encode_cons, List.take_append_of_le_length (Nat.le_of_lt cut)]
      rfl
    · obtain ⟨ds, k, d, eq, less, sum⟩ := ih (n - (String.utf8EncodeChar c).length) (by omega)
      refine ⟨c :: ds, k, d, ?_, less, ?_⟩
      · rw [encode_cons, List.take_append, eq, List.take_of_length_le (by omega), encode_cons,
          List.append_assoc]
      · rw [encode_cons, List.length_append]
        omega

theorem faultFrom_chars (cs : List Char) (rest : List Piece) (i : Nat) :
    faultFrom i (cs.map .char ++ rest) = faultFrom (i + (encode cs).length) rest := by
  induction cs generalizing i with
  | nil => rfl
  | cons c cs ih =>
    rw [List.map_cons, List.cons_append, faultFrom, ih, encode_cons, List.length_append,
      Nat.add_assoc, String.length_utf8EncodeChar]
    · rfl
    -- What is left says that a character is none of the pieces matched before it.
    all_goals intros; contradiction

theorem char?_isSome_of_faultFrom {ps : List Piece} {i : Nat} (h : faultFrom i ps = none) :
    ∀ p ∈ ps, p.char?.isSome := by
  induction ps generalizing i with
  | nil => exact fun p hp => absurd hp List.not_mem_nil
  | cons p ps ih =>
    cases p with
    | char c => exact List.forall_mem_cons.mpr ⟨rfl, ih h⟩
    | broken n => cases h
    | cut => cases h

theorem fault?_eq_none_iff {bs : Bytes} : fault? bs = none ↔ ∃ cs, bs = encode cs := by
  constructor
  · exact fun h => exists_encode_of_sound bs [] (sound_of_pieces (char?_isSome_of_faultFrom h))
  · rintro ⟨cs, rfl⟩
    have whole := faultFrom_chars cs [] 0
    rw [List.append_nil] at whole
    rw [fault?, pieces_encode, whole]
    rfl

theorem decode?_of_fault? {bs : Bytes} {f : Fault} (h : fault? bs = some f) :
    decode? bs = none := by
  by_contra text
  obtain ⟨cs, decoded⟩ := Option.ne_none_iff_exists'.mp text
  rw [fault?_eq_none_iff.mpr ⟨cs, decode?_eq_some_iff.mp decoded⟩] at h
  cases h

/-- The fault of a text cut short is less than a character before its end. -/
theorem fault?_take_encode (cs : List Char) (n : Nat) (h : n ≤ (encode cs).length) :
    fault? ((encode cs).take n) = none ∨
      ∃ k, fault? ((encode cs).take n) = some ⟨k, none⟩ ∧ k ≤ n ∧ n ≤ k + 3 := by
  obtain ⟨ds, k, c, eq, less, rfl⟩ := take_encode cs n h
  have small : (String.utf8EncodeChar c).length ≤ 4 := by
    rw [String.length_utf8EncodeChar]
    exact c.utf8Size_le_four
  rw [eq, fault?, pieces, List.foldl_append, foldl_step_encode, List.append_nil]
  rcases Nat.eq_zero_or_pos k with rfl | pos
  · left
    rw [List.take_zero]
    have whole := faultFrom_chars ds [] 0
    rw [List.append_nil] at whole
    simpa [faultFrom] using whole
  · right
    obtain ⟨p, pending⟩ := foldl_step_take_encodeChar pos less (ds.map Piece.char).reverse
    rw [pending]
    refine ⟨(encode ds).length, ?_, by omega, by omega⟩
    have cut := faultFrom_chars ds [.cut] 0
    simpa [faultFrom] using cut

end Stowage.Utf8
