import Mathlib.Data.List.DropRight
import Stowage.Json.Printer
import Stowage.Json.Scan
import Stowage.Proofs.Text.Decimal
import Stowage.Proofs.Text.Lossy

/-! Blanks are passed over, and a string that is printed is read back, whatever its characters are:
a character is spelled by a letter, by its number or as it is, and each spelling leaves its
octets. -/
namespace Stowage.Json

section Space

theorem skipSpace_append {front : Bytes} (h : ∀ b ∈ front, isSpace b) (bs : Bytes) :
    skipSpace (front ++ bs) = skipSpace bs :=
  List.dropWhile_append_of_pos h

theorem skipSpace_cons {b : UInt8} (h : isSpace b = false) (bs : Bytes) :
    skipSpace (b :: bs) = b :: bs :=
  List.dropWhile_cons_of_neg (by rw [h]; exact Bool.false_ne_true)

theorem skipSpace_skipSpace (bs : Bytes) : skipSpace (skipSpace bs) = skipSpace bs :=
  List.dropWhile_idempotent isSpace bs

end Space

section Strings

variable {done rest : Bytes} {c d : Char}

theorem stringOctets_plain {bs : Bytes} (h : ∀ b ∈ bs, b ≠ octet '"' ∧ b ≠ octet '\\' ∧ ¬ b < 0x20)
    (done rest : Bytes) :
    stringOctets .plain done (bs ++ rest) = stringOctets .plain (bs.reverse ++ done) rest := by
  induction bs generalizing done with
  | nil => rfl
  | cons b bs ih =>
    obtain ⟨quote, backslash, control⟩ := h b List.mem_cons_self
    rw [List.cons_append, stringOctets, if_neg quote, if_neg backslash, if_neg control,
      ih fun c hc => h c (List.mem_cons_of_mem _ hc), List.reverse_cons, List.append_assoc,
      List.singleton_append]

theorem stringOctets_letter (own : String.utf8EncodeChar c = [octet c])
    (letter : String.utf8EncodeChar d = [octet d])
    (known : simpleEscape? (octet d) = some (octet c)) :
    stringOctets .plain done (Utf8.encode ['\\', d] ++ rest) =
      stringOctets .plain ((String.utf8EncodeChar c).reverse ++ done) rest := by
  have text : Utf8.encode ['\\', d] ++ rest = octet '\\' :: octet d :: rest := by
    rw [Utf8.encode_cons, Utf8.encode_cons, letter]
    rfl
  have apart : octet d ≠ octet 'u' := by
    intro same
    have unknown : simpleEscape? (octet 'u') = none := by decide
    rw [same, unknown] at known
    cases known
  rw [text, own, stringOctets, if_neg (by decide), if_pos rfl, stringOctets, if_neg apart, known]
  rfl

theorem hexOf?_hexDigit : ∀ n < 16, hexOf? (octet (hexDigit n)) = some n := by decide

theorem encodeChar_hexDigit :
    ∀ n < 16, String.utf8EncodeChar (hexDigit n) = [octet (hexDigit n)] := by decide

theorem stringOctets_number (control : c.toNat < 0x20) :
    stringOctets .plain done (Utf8.encode (escapeNumber c) ++ rest) =
      stringOctets .plain ((String.utf8EncodeChar c).reverse ++ done) rest := by
  have low : hexDigit c.toNat = hexDigit (c.toNat % 16) := by rw [hexDigit, hexDigit, Nat.mod_mod]
  have high : c.toNat / 16 < 16 := by omega
  have text : Utf8.encode (escapeNumber c) ++ rest =
      octet '\\' :: octet 'u' :: octet '0' :: octet '0' :: octet (hexDigit (c.toNat / 16)) ::
        octet (hexDigit (c.toNat % 16)) :: rest := by
    rw [escapeNumber, low]
    simp only [Utf8.encode_cons, encodeChar_hexDigit _ high,
      encodeChar_hexDigit _ (Nat.mod_lt c.toNat (by decide))]
    rfl
  have zero : hexOf? (octet '0') = some 0 := by decide
  have whole : (c.toNat / 16) * 16 + c.toNat % 16 = c.toNat := Nat.div_add_mod' ..
  have single : ¬ isTrail c.toNat ∧ ¬ isLead c.toNat := by
    simp only [isTrail, isLead, Bool.and_eq_true, decide_eq_true_eq]
    omega
  rw [text, stringOctets, if_neg (by decide), if_pos rfl, stringOctets, if_pos rfl]
  simp only [stringOctets, Option.bind_some, zero, Option.map_some, hexOf?_hexDigit _ high,
    hexOf?_hexDigit _ (Nat.mod_lt c.toNat (by decide : 16 > 0)), Nat.zero_mul, Nat.add_zero,
    Nat.zero_add, whole]
  rw [if_neg single.1, if_neg single.2, pushChar, Char.ofNat_toNat]

/-- Beyond the quote, the backslash and the control characters, a character is spelled as it is. -/
theorem stringOctets_char (quote : c ≠ '"') (backslash : c ≠ '\\') (control : ¬ c.toNat < 0x20) :
    stringOctets .plain done (Utf8.encode [c] ++ rest) =
      stringOctets .plain ((String.utf8EncodeChar c).reverse ++ done) rest := by
  have own : Utf8.encode [c] = String.utf8EncodeChar c := List.append_nil _
  have only {d : Char} (small : d.toNat < 0x80) (mem : UInt8.ofNat d.toNat ∈ Utf8.encode [c]) :
      d = c :=
    List.mem_singleton.mp (Utf8.mem_of_mem_encode small mem)
  rw [← own]
  refine stringOctets_plain (fun b mem => ⟨?_, ?_, ?_⟩) done rest
  · rintro rfl
    exact quote (only (by decide) mem).symm
  · rintro rfl
    exact backslash (only (by decide) mem).symm
  · intro small
    simp only [UInt8.lt_iff_toNat_lt, UInt8.reduceToNat] at small
    have char : (Char.ofNat b.toNat).toNat = b.toNat := Utf8.toNat_ofNat_of_valid (.inl (by omega))
    have same := only (d := Char.ofNat b.toNat) (by omega) (by rwa [char, UInt8.ofNat_toNat])
    rw [← same, char] at control
    exact control small

theorem stringOctets_escape (c : Char) (done rest : Bytes) :
    stringOctets .plain done (Utf8.encode (escape c) ++ rest) =
      stringOctets .plain ((String.utf8EncodeChar c).reverse ++ done) rest := by
  unfold escape
  split_ifs with quote backslash backspace tab line form return' control
  · rw [quote]
    exact stringOctets_letter (by decide) (by decide) (by decide)
  · rw [backslash]
    exact stringOctets_letter (by decide) (by decide) (by decide)
  · rw [backspace]
    exact stringOctets_letter (by decide) (by decide) (by decide)
  · rw [tab]
    exact stringOctets_letter (by decide) (by decide) (by decide)
  · rw [line]
    exact stringOctets_letter (by decide) (by decide) (by decide)
  · rw [form]
    exact stringOctets_letter (by decide) (by decide) (by decide)
  · rw [return']
    exact stringOctets_letter (by decide) (by decide) (by decide)
  · exact stringOctets_number control
  · exact stringOctets_char quote backslash control

theorem stringOctets_escaped (cs : List Char) (done rest : Bytes) :
    stringOctets .plain done (Utf8.encode (cs.flatMap escape) ++ octet '"' :: rest) =
      .ok (done.reverse ++ Utf8.encode cs, rest) := by
  induction cs generalizing done with
  | nil =>
    rw [List.flatMap_nil, Utf8.encode_nil, List.nil_append, List.append_nil, stringOctets,
      if_pos rfl]
  | cons c cs ih =>
    rw [List.flatMap_cons, Utf8.encode_append, List.append_assoc, stringOctets_escape, ih,
      List.reverse_append, List.reverse_reverse, List.append_assoc, Utf8.encode_cons]

theorem string_escaped (cs : List Char) (rest : Bytes) :
    string (Utf8.encode (cs.flatMap escape) ++ octet '"' :: rest) = .ok (cs, rest) := by
  rw [string, stringOctets_escaped]
  dsimp only [List.reverse_nil, List.nil_append]
  rw [Utf8.decode?_encode]

end Strings

section Digits

variable {value : Nat} {rest : Bytes}

def decimalFrom (value : Nat) (ds : Bytes) : Nat :=
  ds.foldl (fun v b => v * 10 + (b.toNat - 0x30)) value

theorem le_decimalFrom (ds : Bytes) (value : Nat) : value ≤ decimalFrom value ds := by
  induction ds generalizing value with
  | nil => exact Nat.le_refl value
  | cons b ds ih =>
    have step : value ≤ value * 10 + (b.toNat - 0x30) := by omega
    exact Nat.le_trans step (ih _)

theorem significand_octets {ds : Bytes} (digits : ∀ b ∈ ds, isDigitOctet b)
    (stop : startsDigit rest = false) (small : value < wordLimit) :
    (decimalFrom value ds < wordLimit →
      significand value (ds ++ rest) = (decimalFrom value ds, rest)) ∧
      (wordLimit ≤ decimalFrom value ds → startsDigit (significand value (ds ++ rest)).2 =
        true) := by
  induction ds generalizing value with
  | nil =>
    refine ⟨fun _ => ?_, fun big => absurd small (Nat.not_lt.mpr big)⟩
    cases rest with
    | nil => rfl
    | cons b rest =>
      have other : isDigitOctet b = false := stop
      rw [List.nil_append, significand, other]
      rfl
  | cons b ds ih =>
    obtain ⟨digit, digits⟩ := List.forall_mem_cons.mp digits
    rw [List.cons_append, significand, digit, Bool.true_and]
    by_cases fits : value * 10 + (b.toNat - 0x30) < wordLimit
    · simp only [fits, decide_true, if_true]
      exact ih digits fits
    · simp only [fits, decide_false, Bool.false_eq_true, if_false]
      exact ⟨fun small => absurd (Nat.lt_of_le_of_lt (le_decimalFrom ds _) small) fits, fun _ =>
        digit⟩

end Digits

end Stowage.Json
