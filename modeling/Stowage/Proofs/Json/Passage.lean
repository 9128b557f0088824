import Stowage.Proofs.Json.Grammar
import Stowage.Proofs.Json.Scanners

/-! A value that nothing asks for is passed over, exactly, however deep it is. What is still open is
kept as a stack of frames, and the text behind a value is taken up where its frame was left. -/
namespace Stowage.Json

variable {bs rest : Bytes} {frame : Frame} {frames : List Frame}

section Strings

theorem skipString_pieces (ps : List Piece) (rest : Bytes) :
    skipString .plain (ps.flatMap Piece.octets ++ octet '"' :: rest) = .ok rest := by
  induction ps with
  | nil => rfl
  | cons p ps ih =>
    rw [List.flatMap_cons, List.append_assoc]
    cases p with
    | plain b quote backslash printable =>
      rw [Piece.octets, List.singleton_append, skipString, if_neg quote, if_neg backslash,
        if_neg printable, ih]
    | escape letter meant known =>
      have other : letter ≠ octet 'u' := by
        rintro rfl
        cases known
      have known : (simpleEscape? letter).isSome := by
        rw [known]
        rfl
      simp only [Piece.octets, List.cons_append, List.nil_append]
      rw [skipString, if_neg (by decide), if_pos rfl, skipString, if_neg other, if_pos known, ih]
    | unit a b c d =>
      simp only [Piece.octets, List.cons_append, List.nil_append]
      rw [skipString, if_neg (by decide), if_pos rfl, skipString, if_pos rfl]
      simp only [skipString, a.known, b.known, c.known, d.known, Option.isSome_some, Bool.and_self,
        if_true, ih]

theorem skipString_body (q : Quoted) (rest : Bytes) :
    skipString .plain (q.token.more ++ rest) = .ok rest := by
  have whole : q.token.more ++ rest = q.pieces.flatMap Piece.octets ++ octet '"' :: rest :=
    List.append_assoc ..
  rw [whole, skipString_pieces]

end Strings

section Numbers

theorem dropWhile_of_not_digit (stop : startsDigit rest = false) :
    rest.dropWhile isDigitOctet = rest := by
  cases rest with
  | nil => rfl
  | cons b rest =>
    have other : isDigitOctet b = false := stop
    exact List.dropWhile_cons_of_neg (by rw [other]; exact Bool.false_ne_true)

theorem Digits.dropWhile_octets (ds : Digits) (stop : startsDigit rest = false) :
    (ds.octets ++ rest).dropWhile isDigitOctet = rest := by
  have all : ∀ b ∈ ds.octets, isDigitOctet b := List.forall_mem_cons.mpr ⟨ds.digit, ds.digits⟩
  rw [List.dropWhile_append_of_pos all, dropWhile_of_not_digit stop]

theorem ne_of_isDigitOctet {b c : UInt8} (h : isDigitOctet b) (other : isDigitOctet c = false) :
    b ≠ c := by
  rintro rfl
  rw [h] at other
  cases other

theorem skipExponent_octets (e : Exponent) (stop : startsDigit rest = false) :
    skipExponent (e.sign.toList ++ (e.digits.octets ++ rest)) = .ok rest := by
  have digits : startsDigit (e.digits.octets ++ rest) = true := e.digits.digit
  have unsigned (bs : Bytes) (h : bs = e.digits.octets ++ rest) :
      (if startsDigit bs then .ok (bs.dropWhile isDigitOctet)
        else .error (.stopped .invalidNumber (bs.drop 1)) : Except Fault Bytes) = .ok rest := by
    rw [h, if_pos digits, e.digits.dropWhile_octets stop]
  refine unsigned _ ?_
  cases signed : e.sign with
  | none =>
    have other {c : UInt8} (h : isDigitOctet c = false) : e.digits.first ≠ c :=
      ne_of_isDigitOctet e.digits.digit h
    exact if_neg
      (by simp [Digits.octets, other (rfl : isDigitOctet (octet '+') = false),
        other (rfl : isDigitOctet (octet '-') = false)])
  | some b => exact if_pos (by rcases e.isSign b signed with rfl | rfl <;> rfl)

theorem Numeral.head_exponentOctets (n : Numeral) (h : Bounds rest) :
    startsDigit (n.exponentOctets ++ rest) = false ∧
    isPoint (n.exponentOctets ++ rest) = false := by
  rw [exponentOctets]
  cases n.exponent with
  | none => exact ⟨h.head.1, h.head.2.1⟩
  | some e => obtain ⟨mark, sign, digits, rfl | rfl, isSign⟩ := e <;> exact ⟨rfl, rfl⟩

theorem Numeral.head_behind (n : Numeral) (h : Bounds rest) :
    startsDigit (n.behind ++ rest) = false := by
  rw [behind, fractionOctets]
  cases n.fraction with
  | none => exact (n.head_exponentOctets h).1
  | some ds => rfl

theorem skip_exponentOctets (n : Numeral) (h : Bounds rest) :
    (if isExponentMark (n.exponentOctets ++ rest)
      then skipExponent ((n.exponentOctets ++ rest).drop 1) else .ok (n.exponentOctets ++ rest)) =
      .ok rest := by
  rw [Numeral.exponentOctets]
  cases n.exponent with
  | none =>
    have ends : isExponentMark rest = false := h.head.2.2
    exact if_neg (by rw [Option.elim_none, List.nil_append, ends]; exact Bool.false_ne_true)
  | some e =>
    have mark : isExponentMark (e.octets ++ rest) = true := by
      obtain ⟨mark, sign, digits, rfl | rfl, isSign⟩ := e <;> rfl
    have digits : (e.octets ++ rest).drop 1 = e.sign.toList ++ (e.digits.octets ++ rest) :=
      List.append_assoc ..
    rw [Option.elim_some, mark, if_pos rfl, digits, skipExponent_octets e h.head.1]

theorem skipNumberEnd_behind (n : Numeral) (h : Bounds rest) :
    skipNumberEnd (n.behind ++ rest) = .ok rest := by
  obtain ⟨stop, point⟩ := n.head_exponentOctets h
  have last := skip_exponentOctets n h
  rw [skipNumberEnd, Numeral.behind, Numeral.fractionOctets, List.append_assoc]
  cases n.fraction with
  | none =>
    rw [Option.elim_none, List.nil_append, point, if_neg Bool.false_ne_true]
    exact last
  | some ds =>
    have digits : startsDigit (ds.octets ++ (n.exponentOctets ++ rest)) = true := ds.digit
    have fraction : skipFraction (ds.octets ++ (n.exponentOctets ++ rest)) = .ok rest := by
      simp only [skipFraction, ds.dropWhile_octets stop, digits, Bool.not_true, Bool.false_eq_true,
        if_false]
      exact last
    exact fraction

theorem skipNumber_digits (n : Numeral) (h : Bounds rest) :
    skipNumber (n.whole.octets ++ (n.behind ++ rest)) = .ok rest := by
  have stop := n.head_behind h
  have last := skipNumberEnd_behind n h
  rw [Digits.octets, List.cons_append, skipNumber_cons]
  by_cases zero : n.whole.first = octet '0'
  · rw [if_pos zero, n.shortest zero, List.nil_append, stop, if_neg Bool.false_ne_true, last]
  · have digits : (n.whole.more ++ (n.behind ++ rest)).dropWhile isDigitOctet =
        n.behind ++ rest := by
      have all := n.whole.dropWhile_octets stop
      rwa [Digits.octets, List.cons_append, List.dropWhile_cons_of_pos n.whole.digit] at all
    rw [if_neg zero, if_pos n.whole.digit, digits, last]

end Numbers

section Machine

variable {fuel : Nat} {v : Value} {t : Token} {entry : List Token} {entries : List (List Token)}

def proceed (fuel : Nat) : List Frame × Bytes → Except Fault Bytes
  | (frames, bs) => if frames.isEmpty then .ok bs else skipFrom fuel frames bs

def resume (fuel : Nat) (frames : List Frame) (bs : Bytes) : Except Fault Bytes :=
  (leave frames bs).bind (proceed fuel)

/-- A value is passed over in any frames. Each turn takes an octet, so that there are turns left for
what is behind it. -/
def Passes (tokens : List Token) : Prop :=
  ∀ frames bs rest fuel, Spread tokens bs rest → Bounds rest → bs.length < fuel →
    ∃ left, rest.length < left ∧ skipFrom fuel frames bs = resume left frames rest

theorem skipFrom_succ (shown : skipSpace bs = t.octets ++ rest) :
    skipFrom (fuel + 1) frames bs =
      (skipToken frames t.first (t.more ++ rest)).bind (proceed fuel) := by
  rw [skipFrom, shown]
  rfl

theorem passes_leaf (h : ∀ frames rest, Bounds rest → skipToken frames t.first (t.more ++ rest) =
      leave frames rest) :
    Passes [t] := by
  intro frames bs rest fuel spread bounds enough
  obtain ⟨fuel, rfl⟩ := Nat.exists_eq_add_one_of_ne_zero (Nat.ne_zero_of_lt enough)
  obtain ⟨more, shown, less, others⟩ := spread.uncons
  cases others
  refine ⟨fuel, by omega, ?_⟩
  rw [skipFrom_succ shown, h frames rest bounds, resume]

theorem passes_word (w : Word) : Passes [w.token] := by
  refine passes_leaf fun frames rest _ => ?_
  have word (letters : Bytes) : (literal letters (letters ++ rest)).bind (leave frames) =
      leave frames rest := by
    rw [literal_eq_ok.mpr rfl]
    rfl
  cases w with
  | null => exact word (ascii "ull")
  | true => exact word (ascii "rue")
  | false => exact word (ascii "alse")

theorem passes_text (q : Quoted) : Passes [q.token] := by
  refine passes_leaf fun frames rest _ => ?_
  have string : (skipString .plain (q.token.more ++ rest)).bind (leave frames) =
      leave frames rest := by
    rw [skipString_body]
    rfl
  exact string

theorem passes_number (n : Numeral) : Passes [n.token] := by
  refine passes_leaf fun frames rest bounds => ?_
  have number : (skipNumber (n.whole.octets ++ (n.behind ++ rest))).bind (leave frames) =
      leave frames rest := by
    rw [skipNumber_digits n bounds]
    rfl
  rw [Numeral.token]
  cases n.negative with
  | true =>
    rw [if_pos rfl, List.append_assoc]
    exact number
  | false =>
    have other {c : UInt8} (h : isDigitOctet c = false) : n.whole.first ≠ c :=
      ne_of_isDigitOctet n.whole.digit h
    rw [if_neg Bool.false_ne_true, List.append_assoc, skipToken, if_neg (other rfl),
      if_neg (other rfl), if_neg (other rfl), if_neg (other rfl), if_neg (other rfl),
      if_neg (other rfl), if_pos n.whole.digit]
    exact number

structure EntryPasses (frame : Frame) (entry : List Token) : Prop where
  opens : ∃ t ts, entry = t :: ts ∧ t.first ≠ frame.closing
  passes (frames : List Frame) (bs rest : Bytes) (fuel : Nat) : Spread entry bs rest → Bounds rest →
    bs.length < fuel →
    ∃ next left, skipKey frame bs = .ok next ∧ rest.length < left ∧
      skipFrom fuel (frame :: frames) next = resume left (frame :: frames) rest

theorem leave_comma (shown : skipSpace bs = octet ',' :: rest) :
    leave (frame :: frames) bs = (skipKey frame rest).map (frame :: frames, ·) := by
  simp only [leave, shown, if_true]

theorem leave_closing (shown : skipSpace bs = frame.closing :: rest) :
    leave (frame :: frames) bs = leave frames rest := by
  have other : frame.closing ≠ octet ',' := by cases frame <;> decide
  simp only [leave, shown, other, if_false, if_true]

theorem enter_closing (shown : skipSpace bs = frame.closing :: rest) :
    enter frame frames bs = leave frames rest := by
  simp only [enter, shown, if_true]

theorem enter_entry {b : UInt8} (shown : skipSpace bs = b :: rest) (entry : b ≠ frame.closing) :
    enter frame frames bs = (skipKey frame (skipSpace bs)).map (frame :: frames, ·) := by
  simp only [enter, shown, entry, if_false]

theorem resume_block (each : ∀ entry ∈ entries, EntryPasses frame entry)
    (h : Spread (block frame false entries) bs rest) (enough : bs.length < fuel) :
    ∃ left, rest.length < left ∧ resume fuel (frame :: frames) bs = resume left frames rest := by
  induction entries generalizing bs fuel with
  | nil =>
    obtain ⟨more, (shown : skipSpace bs = frame.closing :: more), less, others⟩ := h.uncons
    cases others
    exact ⟨fuel, by omega, by rw [resume, leave_closing shown, resume]⟩
  | cons entry entries ih =>
    obtain ⟨own, others⟩ := List.forall_mem_cons.mp each
    obtain ⟨more, (shown : skipSpace bs = octet ',' :: more), less, behind⟩ := h.uncons
    obtain ⟨middle, spread, behind⟩ := spread_append.mp behind
    obtain ⟨next, left, key, nonempty, passed⟩ :=
      own.passes frames more middle fuel spread (bounds_block behind) (by omega)
    obtain ⟨left, nonempty, last⟩ := ih others behind nonempty
    have opened : resume fuel (frame :: frames) bs = skipFrom fuel (frame :: frames) next := by
      rw [resume, leave_comma shown, key]
      rfl
    exact ⟨left, nonempty, by rw [opened, passed, last]⟩

theorem enter_block (frames : List Frame) (each : ∀ entry ∈ entries, EntryPasses frame entry)
    (h : Spread (block frame true entries) bs rest) (enough : bs.length < fuel) :
    ∃ left, rest.length < left ∧ (enter frame frames bs).bind (proceed fuel) =
      resume left frames rest := by
  cases entries with
  | nil =>
    obtain ⟨more, (shown : skipSpace bs = frame.closing :: more), less, others⟩ := h.uncons
    cases others
    exact ⟨fuel, by omega, by rw [enter_closing shown, resume]⟩
  | cons entry entries =>
    obtain ⟨own, others⟩ := List.forall_mem_cons.mp each
    obtain ⟨t, ts, rfl, open'⟩ := own.opens
    obtain ⟨middle, spread, behind⟩ := spread_append.mp h
    obtain ⟨more, shown, less, -⟩ := spread.uncons
    have shorter : (skipSpace bs).length ≤ bs.length := (List.dropWhile_suffix isSpace).length_le
    obtain ⟨next, left, key, nonempty, passed⟩ :=
      own.passes frames (skipSpace bs) middle fuel spread.skipped (bounds_block behind) (by omega)
    obtain ⟨left, nonempty, last⟩ := resume_block others behind nonempty
    have opened : (enter frame frames bs).bind (proceed fuel) =
        skipFrom fuel (frame :: frames) next := by
      rw [enter_entry shown open', key]
      rfl
    exact ⟨left, nonempty, by rw [opened, passed, last]⟩

theorem passes_block (each : ∀ entry ∈ entries, EntryPasses frame entry) :
    Passes (frame.opens :: block frame true entries) := by
  intro frames bs rest fuel spread bounds enough
  obtain ⟨fuel, rfl⟩ := Nat.exists_eq_add_one_of_ne_zero (Nat.ne_zero_of_lt enough)
  obtain ⟨more, shown, less, inner⟩ := spread.uncons
  obtain ⟨left, nonempty, passed⟩ :=
    enter_block frames each inner (Nat.lt_of_lt_of_le less (Nat.le_of_lt_succ enough))
  refine ⟨left, nonempty, ?_⟩
  rw [skipFrom_succ shown, ← passed]
  cases frame <;> rfl

theorem Value.first_ne (h : v.tokens = t :: ts) : t.first ≠ octet ']' := by
  cases v with
  | word w => cases w <;> (cases h; decide)
  | number n =>
    cases h
    rw [Numeral.token]
    cases n.negative with
    | true => exact (by decide : octet '-' ≠ octet ']')
    | false => exact ne_of_isDigitOctet n.whole.digit rfl
  | text q =>
    cases h
    exact (by decide : octet '"' ≠ octet ']')
  | list items =>
    cases h
    decide
  | object members =>
    cases h
    decide

theorem entryPasses_item (h : Passes v.tokens) : EntryPasses .list v.tokens where
  opens := by
    obtain ⟨t, ts, eq⟩ := v.exists_tokens
    exact ⟨t, ts, eq, Value.first_ne eq⟩
  passes frames bs rest fuel spread bounds enough := by
    obtain ⟨left, nonempty, passed⟩ := h (.list :: frames) bs rest fuel spread bounds enough
    exact ⟨bs, left, rfl, nonempty, passed⟩

theorem skipKey_member {key : Quoted} {ts : List Token}
    (h : Spread (key.token :: colonToken :: ts) bs rest) :
    ∃ next, skipKey .object bs = .ok next ∧ next.length < bs.length ∧ Spread ts next rest := by
  obtain ⟨more, shown, less, h⟩ := h.uncons
  obtain ⟨next, behind, shorter, h⟩ := h.uncons
  refine ⟨next, ?_, Nat.lt_trans shorter less, h⟩
  have name : skipString .plain (key.token.more ++ more) = .ok more := skipString_body key more
  simp only [skipKey, shown]
  change (skipString .plain (key.token.more ++ more)).bind _ = _
  rw [name]
  simp only [Except.bind, behind]
  rfl

theorem entryPasses_member (key : Quoted) (h : Passes v.tokens) :
    EntryPasses .object (key.token :: colonToken :: v.tokens) where
  opens := ⟨_, _, rfl, by change octet '"' ≠ octet '\x7d'; decide⟩
  passes frames bs rest fuel spread bounds enough := by
    obtain ⟨next, named, less, spread⟩ := skipKey_member spread
    obtain ⟨left, nonempty, passed⟩ :=
      h (.object :: frames) next rest fuel spread bounds (Nat.lt_trans less enough)
    exact ⟨next, left, named, nonempty, passed⟩

theorem Value.passes (v : Value) : Passes v.tokens := by
  induction v with
  | word w => exact passes_word w
  | number n => exact passes_number n
  | text q => exact passes_text q
  | list items ih =>
    refine passes_block fun entry mem => ?_
    rw [itemEntries_eq_map] at mem
    obtain ⟨v, item, rfl⟩ := List.mem_map.mp mem
    exact entryPasses_item (ih v item)
  | object members ih =>
    refine passes_block fun entry mem => ?_
    rw [memberEntries_eq_map] at mem
    obtain ⟨m, member, rfl⟩ := List.mem_map.mp mem
    exact entryPasses_member m.1 (ih m member)

theorem skip_value (h : Spread v.tokens bs rest) (bounds : Bounds rest) : skip bs = .ok rest := by
  obtain ⟨left, nonempty, passed⟩ :=
    v.passes [] bs rest (bs.length + 1) h bounds (Nat.lt_succ_self _)
  rw [skip, passed]
  rfl

end Machine

end Stowage.Json
