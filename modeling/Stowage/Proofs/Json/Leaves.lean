import Stowage.Proofs.Json.Passage
import Stowage.Proofs.Json.Prefix

/-! What a reader says about one text of a value, it says about every one. Strings and ports come
first: what a leaf stands for follows from its octets, whatever comes behind it. -/
namespace Stowage.Json

variable {α : Type} {bs rest behind : Bytes}

/-- Every text of a value is read as `a`, up to its end. -/
def Denotes (read : Bytes → Scanned α) (v : Value) (a : α) : Prop :=
  ∀ bs rest, Spread v.tokens bs rest → Bounds rest → read bs = .ok (a, rest)

def Settled (read : Bytes → Scanned α) : Prop :=
  ∀ v bs rest a behind, Spread v.tokens bs rest → Bounds rest → read bs = .ok (a, behind) →
    behind = rest ∧ Denotes read v a

section Kinds

inductive Kind
  | null
  | truth
  | number
  | text
  | list
  | object

def Value.IsOf (v : Value) : Kind → Prop
  | .null => v = .word .null
  | .truth => v = .word .true ∨ v = .word .false
  | .number => ∃ n, v = .number n
  | .text => ∃ q, v = .text q
  | .list => ∃ items, v = .list items
  | .object => ∃ members, v = .object members

def kindOf (b : UInt8) : Kind :=
  if b = octet '"' then .text
  else if b = octet '[' then .list
  else if b = octet '\x7b' then .object
  else if b = octet 'n' then .null
  else if b = octet '-' || isDigitOctet b then .number
  else .truth

theorem kindOf_digit {b : UInt8} (h : isDigitOctet b) : kindOf b = .number := by
  have other {c : UInt8} (not : isDigitOctet c = false) : b ≠ c := ne_of_isDigitOctet h not
  rw [kindOf, if_neg (other rfl), if_neg (other rfl), if_neg (other rfl), if_neg (other rfl), h,
    Bool.or_true, if_pos rfl]

theorem Value.uncons {v : Value} (h : Spread v.tokens bs rest) :
    ∃ b more, skipSpace bs = b :: more ∧ v.IsOf (kindOf b) := by
  cases v with
  | word w =>
    obtain ⟨more, shown, -⟩ := h.uncons
    refine ⟨_, _, shown, ?_⟩
    cases w with
    | null => exact rfl
    | true => exact .inl rfl
    | false => exact .inr rfl
  | number n =>
    obtain ⟨more, shown, -⟩ := h.uncons
    refine ⟨_, _, shown, ?_⟩
    rw [Numeral.token]
    cases n.negative with
    | true => exact ⟨n, rfl⟩
    | false =>
      have digit : kindOf n.whole.first = .number := kindOf_digit n.whole.digit
      exact digit ▸ ⟨n, rfl⟩
  | text q =>
    obtain ⟨more, shown, -⟩ := h.uncons
    exact ⟨_, _, shown, q, rfl⟩
  | list items =>
    obtain ⟨more, shown, -⟩ := h.uncons
    exact ⟨_, _, shown, items, rfl⟩
  | object members =>
    obtain ⟨more, shown, -⟩ := h.uncons
    exact ⟨_, _, shown, members, rfl⟩

end Kinds

section Strings

def betweenPieces : Option Nat → Mode
  | none => .plain
  | some lead => .backslash lead

theorem before_eq_some {front done out : Bytes} {others : Option Bytes} :
    (∃ all, before front others = some all ∧ done.reverse ++ all = out ∧ rest = behind) ↔
      ∃ more, others = some more ∧ (front.reverse ++ done).reverse ++ more = out ∧
      rest = behind := by
  simp only [before, Option.map_eq_some_iff, List.reverse_append, List.reverse_reverse,
    List.append_assoc]
  constructor
  · rintro ⟨_, ⟨more, found, rfl⟩, whole⟩
    exact ⟨more, found, whole⟩
  · rintro ⟨more, found, whole⟩
    exact ⟨_, ⟨more, found, rfl⟩, whole⟩

theorem stringOctets_unit (a b c d : HexDigit) (lead : Option Nat) (done bs : Bytes) :
    stringOctets (betweenPieces lead) done ((Piece.unit a b c d).octets ++ bs) =
      match lead with
      | none =>
        if isTrail (unitValue a b c d) then .error (.stopped .loneSurrogate bs)
        else if isLead (unitValue a b c d)
          then stringOctets (.backslash (unitValue a b c d)) done bs
        else stringOctets .plain (pushChar (unitValue a b c d) done) bs
      | some first =>
        if isTrail (unitValue a b c d)
          then stringOctets .plain (pushChar (joinPair first (unitValue a b c d)) done) bs
        else .error (.stopped .loneSurrogate bs) := by
  simp only [Piece.octets, List.cons_append, List.nil_append]
  cases lead with
  | none =>
    rw [betweenPieces, stringOctets, if_neg (by decide), if_pos rfl, stringOctets, if_pos rfl]
    simp only [stringOctets, a.known, b.known, c.known, d.known, Option.bind_some, Option.map_some,
      Nat.zero_mul, Nat.zero_add]
    rfl
  | some first =>
    rw [betweenPieces, stringOctets, if_pos rfl, stringOctets, if_pos rfl]
    simp only [stringOctets, a.known, b.known, c.known, d.known, Option.bind_some, Option.map_some,
      Nat.zero_mul, Nat.zero_add]
    rfl

theorem stringOctets_eq_ok {lead : Option Nat} {ps : List Piece} {done out : Bytes} :
    stringOctets (betweenPieces lead) done (ps.flatMap Piece.octets ++ octet '"' :: rest) =
      .ok (out, behind) ↔
      ∃ front, meantBy lead ps = some front ∧ done.reverse ++ front = out ∧ rest = behind := by
  fun_induction meantBy lead ps generalizing done with
  | case1 =>
    simp only [List.flatMap_nil, List.nil_append, betweenPieces, stringOctets, if_true,
      Except.ok.injEq, Prod.mk.injEq, Option.some.injEq, exists_eq_left', List.append_nil]
  | case2 b quote backslash printable ps ih =>
    rw [before_eq_some, List.flatMap_cons, List.append_assoc, Piece.octets, List.singleton_append,
      betweenPieces, stringOctets, if_neg quote, if_neg backslash, if_neg printable]
    exact ih
  | case3 letter meant known ps ih =>
    have other : letter ≠ octet 'u' := by
      rintro rfl
      cases known
    rw [before_eq_some]
    simp only [List.flatMap_cons, Piece.octets, List.cons_append, List.nil_append]
    rw [betweenPieces, stringOctets, if_neg (by decide), if_pos rfl, stringOctets, if_neg other,
      known]
    exact ih
  | case4 a b c d ps trail =>
    simp only [List.flatMap_cons, List.append_assoc, stringOctets_unit, if_pos trail, reduceCtorEq,
      false_and, exists_false]
  | case5 a b c d ps trail lead ih =>
    rw [List.flatMap_cons, List.append_assoc, stringOctets_unit]
    dsimp only
    rw [if_neg trail, if_pos lead]
    exact ih
  | case6 a b c d ps trail lead ih =>
    rw [before_eq_some, List.flatMap_cons, List.append_assoc, stringOctets_unit]
    dsimp only
    rw [if_neg trail, if_neg lead]
    exact ih
  | case7 lead a b c d ps trail ih =>
    rw [before_eq_some, List.flatMap_cons, List.append_assoc, stringOctets_unit]
    dsimp only
    rw [if_pos trail]
    exact ih
  | case8 lead a b c d ps trail =>
    simp only [List.flatMap_cons, List.append_assoc, stringOctets_unit, if_neg trail, reduceCtorEq,
      false_and, exists_false]
  | case9 ps lead other =>
    -- Only the second half of a character may follow the first one.
    refine iff_of_false (fun found => ?_) (by simp)
    cases ps with
    | nil => cases found
    | cons p ps =>
      cases p with
      | plain b quote backslash printable =>
        rw [List.flatMap_cons, List.append_assoc, Piece.octets, List.singleton_append,
          betweenPieces, stringOctets, if_neg backslash] at found
        cases found
      | escape letter meant known =>
        have no : letter ≠ octet 'u' := by
          rintro rfl
          cases known
        simp only [List.flatMap_cons, Piece.octets, List.cons_append, List.nil_append] at found
        rw [betweenPieces, stringOctets, if_pos rfl, stringOctets, if_neg no] at found
        cases found
      | unit a b c d => exact other a b c d ps rfl

theorem string_token {q : Quoted} {cs : List Char} :
    string (q.token.more ++ rest) = .ok (cs, behind) ↔ q.chars? = some cs ∧ rest = behind := by
  have whole : q.token.more ++ rest = q.pieces.flatMap Piece.octets ++ octet '"' :: rest :=
    List.append_assoc ..
  have pieces (out : Bytes) : stringOctets .plain [] (q.token.more ++ rest) = .ok (out, behind) ↔
      meantBy none q.pieces = some out ∧ rest = behind := by
    rw [whole]
    exact (@stringOctets_eq_ok rest behind none q.pieces [] out).trans (by simp)
  simp only [string_eq_ok, pieces, Quoted.chars?, Option.bind_eq_some_iff]
  constructor
  · rintro ⟨out, ⟨found, rest⟩, decoded⟩
    exact ⟨⟨out, found, decoded⟩, rest⟩
  · rintro ⟨⟨out, found, decoded⟩, rest⟩
    exact ⟨out, ⟨found, rest⟩, decoded⟩

theorem text_token {q : Quoted} {s : String} (h : Spread [q.token] bs rest) :
    text bs = .ok (s, behind) ↔ q.chars? = some s.toList ∧ rest = behind := by
  obtain ⟨more, shown, -, others⟩ := h.uncons
  cases others
  have quoted : text bs = (string (q.token.more ++ rest)).map (Prod.map String.ofList id) := by
    rw [text, shown]
    rfl
  rw [quoted, map_eq_ok]
  constructor
  · rintro ⟨⟨cs, behind⟩, found, eq⟩
    cases eq
    rw [String.toList_ofList]
    exact string_token.mp found
  · intro found
    exact ⟨_, string_token.mpr found, Prod.ext String.ofList_toList rfl⟩

theorem settled_text : Settled text := by
  intro v bs rest s behind spread bounds found
  obtain ⟨b, more, shown, kind⟩ := Value.uncons spread
  have quote : b = octet '"' := by
    by_contra other
    rw [text, shown] at found
    simp only [other, if_false, reduceCtorEq] at found
  subst quote
  obtain ⟨q, rfl⟩ : v.IsOf .text := kind
  obtain ⟨meant, rfl⟩ := (text_token spread).mp found
  exact ⟨rfl, fun bs rest spread _ => (text_token spread).mpr ⟨meant, rfl⟩⟩

end Strings

section Numbers

variable {negative : Bool} {value : Nat} {start : Int}

def Fractional (scanned : Scanned Found) : Prop := ∀ n rest, scanned ≠ .ok (.integer n, rest)

theorem fractional_float : Fractional (float negative value start bs) := by
  intro n rest found
  rw [float] at found
  split at found <;> cases found

theorem fractional_exponentDigits {down : Bool} {exponent : Nat} :
    Fractional (exponentDigits negative value start down exponent bs) := by
  induction bs generalizing exponent with
  | nil => exact fractional_float
  | cons b bs ih =>
    intro n rest found
    rw [exponentDigits] at found
    dsimp only at found
    split at found
    · split at found
      · exact ih n rest found
      · split at found <;> cases found
    · exact fractional_float n rest found

theorem fractional_exponent : Fractional (exponent negative value start bs) := by
  intro n rest found
  rw [exponent] at found
  split at found
  · cases found
  · split at found
    · exact fractional_exponentDigits n rest found
    · cases found

theorem fractional_exponentOrEnd : Fractional (exponentOrEnd negative value start bs) := by
  intro n rest found
  rw [exponentOrEnd] at found
  split at found
  · exact fractional_exponent n rest found
  · exact fractional_float n rest found

theorem fractional_fraction : Fractional (fraction negative value start bs) := by
  intro n rest found
  rw [fraction] at found
  dsimp only at found
  split_ifs at found
  · exact fractional_exponentOrEnd n rest found
  · exact fractional_exponentOrEnd n rest found

theorem afterInteger_behind (n : Numeral) (h : Bounds rest) {k : Int} :
    afterInteger false value (n.behind ++ rest) = .ok (.integer k, behind) ↔
      (n.fraction = none ∧ n.exponent = none) ∧ k = value ∧ rest = behind := by
  obtain ⟨-, point, mark⟩ := h.head
  rw [afterInteger, Numeral.behind, Numeral.fractionOctets, Numeral.exponentOctets]
  cases n.fraction with
  | some ds =>
    have dotted : isPoint (octet '.' :: ds.octets ++ n.exponent.elim [] Exponent.octets ++ rest) =
        true := rfl
    rw [Option.elim_some, if_pos dotted]
    exact iff_of_false (fractional_fraction k behind) (by simp)
  | none =>
    cases n.exponent with
    | some e =>
      obtain ⟨undotted, marked⟩ : isPoint (e.octets ++ rest) = false ∧
          isExponentMark (e.octets ++ rest) = true := by
        obtain ⟨mark, sign, digits, rfl | rfl, isSign⟩ := e <;> exact ⟨rfl, rfl⟩
      rw [Option.elim_none, Option.elim_some, List.nil_append, undotted, if_neg Bool.false_ne_true,
        if_pos marked]
      exact iff_of_false (fractional_exponent k behind) (by simp)
    | none =>
      rw [Option.elim_none, Option.elim_none, List.append_nil, List.nil_append, point, mark]
      simp [eq_comm]

theorem number_digits (n : Numeral) (h : Bounds rest) {k : Int} :
    number false (n.whole.octets ++ (n.behind ++ rest)) = .ok (.integer k, behind) ↔
      decimalFrom 0 n.whole.octets < wordLimit ∧
        (n.fraction = none ∧ n.exponent = none) ∧ k = (decimalFrom 0 n.whole.octets : Nat) ∧
        rest = behind := by
  have stop := n.head_behind h
  by_cases zero : n.whole.first = octet '0'
  · have alone : n.whole.octets = [octet '0'] := by rw [Digits.octets, n.shortest zero, zero]
    have value : decimalFrom 0 [octet '0'] = 0 := by decide
    rw [alone, value, List.singleton_append, number, if_pos rfl, stop, if_neg Bool.false_ne_true,
      afterInteger_behind n h]
    simp [wordLimit]
  · have digits : ∀ b ∈ n.whole.octets, isDigitOctet b :=
      List.forall_mem_cons.mpr ⟨n.whole.digit, n.whole.digits⟩
    obtain ⟨small, big⟩ := significand_octets digits stop (by decide : 0 < wordLimit)
    rw [Digits.octets, List.cons_append] at small big ⊢
    rw [number, if_neg zero, if_pos n.whole.digit]
    by_cases fits : decimalFrom 0 (n.whole.first :: n.whole.more) < wordLimit
    · rw [small fits]
      dsimp only
      rw [stop, if_neg Bool.false_ne_true, afterInteger_behind n h]
      simp [fits]
    · dsimp only
      rw [big (Nat.not_lt.mp fits), if_pos rfl]
      refine iff_of_false (fun found => ?_) fun h => fits h.1
      split at found
      · exact fractional_fraction k behind found
      · exact fractional_exponentOrEnd k behind found

theorem neg_of_number {k : Int} (found : number true bs = .ok (.integer k, behind)) : k < 0 := by
  have after {value : Nat} {bs : Bytes} (found : afterInteger true value bs = .ok (.integer k,
      behind)) : k < 0 := by
    rw [afterInteger] at found
    split_ifs at found with point mark zero big
    · exact absurd found (fractional_fraction k behind)
    · exact absurd found (fractional_exponent k behind)
    · exact absurd zero (by decide)
    · exact absurd found (fractional_float k behind)
    · cases found
      simp only [Bool.or_eq_true, decide_eq_true_eq, not_or] at big
      omega
  cases bs with
  | nil => cases found
  | cons b bs =>
    rw [number] at found
    dsimp only at found
    split_ifs at found with zero digit digit' more point
    · exact after found
    · exact absurd found (fractional_fraction k behind)
    · exact absurd found (fractional_exponentOrEnd k behind)
    · exact after found

def portOf : Found × Bytes → Scanned UInt16
  | (.integer value, rest) =>
    if 0 ≤ value && value < 65536 then .ok (UInt16.ofNat value.toNat, rest)
    else .error (.stopped (.wrongValue (.integer value) "u16") rest)
  | (found, rest) => .error (.stopped (.wrongType found "u16") rest)

theorem portOf_eq_ok {found : Found} {p : UInt16} :
    portOf (found, rest) = .ok (p, behind) ↔ found = .integer (p.toNat : Nat) ∧ rest = behind := by
  cases found with
  | integer value =>
    have bound := p.toNat_lt
    rw [portOf]
    split
    · rename_i fits
      simp only [Bool.and_eq_true, decide_eq_true_eq] at fits
      have same : UInt16.ofNat value.toNat = p ↔ value = p.toNat := by
        rw [← UInt16.toNat_inj, UInt16.toNat_ofNat']
        omega
      simp only [Except.ok.injEq, Prod.mk.injEq, Found.integer.injEq, same]
    · rename_i big
      simp only [Bool.and_eq_true, decide_eq_true_eq, not_and_or] at big
      simp only [reduceCtorEq, Found.integer.injEq, false_iff, not_and]
      omega
  | _ => simp [portOf]

theorem port_cons {b : UInt8} {more : Bytes} (shown : skipSpace bs = b :: more) :
    port bs =
      if b != octet '-' && !isDigitOctet b then .error (wrongType "u16" (b :: more))
      else (if b = octet '-' then number true more else number false (b :: more)).bind portOf := by
  rw [port, shown]
  dsimp only
  split_ifs
  · rfl
  · rfl
  all_goals
    generalize number _ _ = scanned
    rcases scanned with fault | ⟨_ | _ | _ | _ | _ | _ | _, rest⟩ <;> rfl

theorem port_token {n : Numeral} {p : UInt16} (h : Spread [n.token] bs rest)
    (bounds : Bounds rest) :
    port bs = .ok (p, behind) ↔ n.natural? = some p.toNat ∧ rest = behind := by
  obtain ⟨more, shown, -, others⟩ := h.uncons
  cases others
  rw [Numeral.token] at shown
  cases sign : n.negative with
  | true =>
    rw [sign, if_pos rfl] at shown
    have minus : skipSpace bs = octet '-' :: (n.whole.octets ++ n.behind ++ rest) := shown
    have fractional : n.natural? = none := by
      rw [Numeral.natural?, sign]
      rfl
    rw [port_cons minus, if_neg (by decide), if_pos rfl, bind_eq_ok, fractional]
    refine iff_of_false ?_ (by simp)
    rintro ⟨⟨found, middle⟩, read, taken⟩
    obtain ⟨rfl, -⟩ := portOf_eq_ok.mp taken
    have below := neg_of_number read
    omega
  | false =>
    rw [sign, if_neg Bool.false_ne_true] at shown
    have whole : n.whole.first :: List.append (n.whole.more ++ n.behind) rest = n.whole.octets ++
        (n.behind ++ rest) :=
      List.append_assoc n.whole.octets n.behind rest
    have natural (k : Nat) : n.natural? = some k ↔
        (n.fraction = none ∧ n.exponent = none) ∧ decimalFrom 0 n.whole.octets = k := by
      rw [Numeral.natural?, sign]
      cases n.fraction <;> cases n.exponent <;> simp
    have bound := p.toNat_lt
    have unsigned : n.whole.first ≠ octet '-' := ne_of_isDigitOctet n.whole.digit rfl
    rw [port_cons shown, n.whole.digit, Bool.not_true, Bool.and_false, if_neg Bool.false_ne_true,
      if_neg unsigned, whole, bind_eq_ok, natural]
    constructor
    · rintro ⟨⟨found, middle⟩, read, taken⟩
      obtain ⟨rfl, rfl⟩ := portOf_eq_ok.mp taken
      obtain ⟨-, plain, same, rfl⟩ := (number_digits n bounds).mp read
      exact ⟨⟨plain, by omega⟩, rfl⟩
    · rintro ⟨⟨plain, same⟩, rfl⟩
      have small : decimalFrom 0 n.whole.octets < wordLimit := by
        rw [same, wordLimit]
        omega
      refine ⟨_, (number_digits n bounds).mpr ⟨small, plain, rfl, rfl⟩, portOf_eq_ok.mpr ⟨?_, rfl⟩⟩
      rw [same]

theorem settled_port : Settled port := by
  intro v bs rest p behind spread bounds found
  obtain ⟨b, more, shown, kind⟩ := Value.uncons spread
  have number : kindOf b = .number := by
    rw [port_cons shown] at found
    split at found
    · cases found
    · rename_i start
      simp only [Bool.and_eq_true, bne_iff_ne, ne_eq, Bool.not_eq_true', not_and, Bool.not_eq_false]
        at start
      by_cases minus : b = octet '-'
      · rw [minus]
        rfl
      · exact kindOf_digit (start minus)
  rw [number] at kind
  obtain ⟨n, rfl⟩ := kind
  obtain ⟨meant, rfl⟩ := (port_token spread bounds).mp found
  exact ⟨rfl, fun bs rest spread bounds => (port_token spread bounds).mpr ⟨meant, rfl⟩⟩

end Numbers

end Stowage.Json
