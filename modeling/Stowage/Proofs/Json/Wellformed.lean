import Stowage.Proofs.Json.Passage

/-! Only values are passed over. A run is followed with what the frames that are still open need:
further entries, and their end. -/
namespace Stowage.Json

variable {bs rest behind : Bytes} {frame : Frame} {frames : List Frame}

section Strings

theorem exists_hexDigit {b : UInt8} (h : (hexOf? b).isSome) : ∃ d : HexDigit, d.octet = b := by
  obtain ⟨value, known⟩ := Option.isSome_iff_exists.mp h
  exact ⟨⟨b, value, known⟩, rfl⟩

theorem exists_of_skipString_digits (found : skipString (.digits 3 true) bs = .ok rest) :
    ∃ a b c d more, bs = HexDigit.octet a :: HexDigit.octet b :: HexDigit.octet c :: HexDigit.octet
      d :: more ∧
      skipString .plain more = .ok rest := by
  obtain _ | ⟨a, _ | ⟨b, _ | ⟨c, _ | ⟨d, more⟩⟩⟩⟩ := bs
  · cases found
  · cases found
  · cases found
  · cases found
  · simp only [skipString, Bool.true_and] at found
    split at found
    · rename_i all
      simp only [Bool.and_eq_true] at all
      obtain ⟨a, rfl⟩ := exists_hexDigit all.1.1.1
      obtain ⟨b, rfl⟩ := exists_hexDigit all.1.1.2
      obtain ⟨c, rfl⟩ := exists_hexDigit all.1.2
      obtain ⟨d, rfl⟩ := exists_hexDigit all.2
      exact ⟨a, b, c, d, more, rfl, found⟩
    · cases found

theorem exists_of_skipString (found : skipString .plain bs = .ok rest) :
    ∃ ps : List Piece, bs = ps.flatMap Piece.octets ++ octet '"' :: rest := by
  induction h : bs.length using Nat.strongRecOn generalizing bs with
  | ind n ih =>
    subst h
    have later (p : Piece) {more : Bytes} (split : bs = p.octets ++ more)
        (found : skipString .plain more = .ok rest) :
        ∃ ps : List Piece, bs = ps.flatMap Piece.octets ++ octet '"' :: rest := by
      have less : more.length < bs.length := by
        rw [split, List.length_append]
        cases p <;> simp [Piece.octets]
      obtain ⟨ps, rfl⟩ := ih _ less found rfl
      exact ⟨p :: ps, by rw [split, List.flatMap_cons, List.append_assoc]⟩
    cases bs with
    | nil => cases found
    | cons b bs =>
      rw [skipString] at found
      split_ifs at found with quote backslash control
      · cases found
        exact ⟨[], by rw [quote]; rfl⟩
      · cases bs with
        | nil => cases found
        | cons letter bs =>
          rw [skipString] at found
          split_ifs at found with unit known
          · obtain ⟨a, b, c, d, more, rfl, passed⟩ := exists_of_skipString_digits found
            exact later (.unit a b c d) (by rw [backslash, unit]; rfl) passed
          · obtain ⟨meant, known⟩ := Option.isSome_iff_exists.mp known
            exact later (.escape letter meant known) (by rw [backslash]; rfl) found
      · exact later (.plain b quote backslash control) rfl found

theorem exists_quoted (found : skipString .plain bs = .ok rest) :
    ∃ q : Quoted, q.token.more ++ rest = bs := by
  obtain ⟨ps, rfl⟩ := exists_of_skipString found
  exact ⟨⟨ps⟩, List.append_assoc ..⟩

end Strings

section Numbers

theorem exists_digits (digit : startsDigit bs = true) :
    ∃ ds : Digits, bs = ds.octets ++ bs.dropWhile isDigitOctet := by
  cases bs with
  | nil => cases digit
  | cons b bs =>
    have own : isDigitOctet b = true := digit
    refine ⟨⟨b, bs.takeWhile isDigitOctet, own, fun c mem => List.mem_takeWhile_imp mem⟩, ?_⟩
    rw [Digits.octets, List.dropWhile_cons_of_pos own, List.cons_append,
      List.takeWhile_append_dropWhile]

theorem exists_of_skipExponent (found : skipExponent bs = .ok rest) :
    ∃ sign ds, (∀ b ∈ sign, b = octet '+' ∨ b = octet '-') ∧
    bs = Option.toList sign ++ (Digits.octets ds ++ rest) := by
  have digits {bs : Bytes} (found : (if startsDigit bs then .ok (bs.dropWhile isDigitOctet)
      else .error (.stopped .invalidNumber (bs.drop 1)) : Except Fault Bytes) = .ok rest) :
      ∃ ds, bs = Digits.octets ds ++ rest := by
    split at found
    · rename_i digit
      cases found
      exact exists_digits digit
    · cases found
  obtain ⟨ds, unsigned⟩ := digits found
  by_cases signed : bs.head? == some (octet '+') || bs.head? == some (octet '-')
  · rw [if_pos signed] at unsigned
    cases bs with
    | nil => cases signed
    | cons b bs =>
      simp only [List.head?_cons, Bool.or_eq_true, beq_iff_eq, Option.some.injEq] at signed
      refine ⟨some b, ds, fun c mem => ?_, congrArg (b :: ·) unsigned⟩
      cases mem
      exact signed
  · rw [if_neg signed] at unsigned
    exact ⟨none, ds, nofun, unsigned⟩

theorem exists_exponent (found : (if isExponentMark bs then skipExponent (bs.drop 1) else .ok bs) =
      .ok rest) :
    ∃ e : Option Exponent, bs = e.elim [] Exponent.octets ++ rest := by
  split at found
  · rename_i marked
    cases bs with
    | nil => cases marked
    | cons mark bs =>
      obtain ⟨sign, ds, isSign, split⟩ := exists_of_skipExponent found
      simp only [isExponentMark, List.head?_cons, Bool.or_eq_true, beq_iff_eq, Option.some.injEq]
        at marked
      refine ⟨some ⟨mark, sign, ds, marked, isSign⟩, ?_⟩
      have behind : bs = sign.toList ++ ds.octets ++ rest := split.trans (List.append_assoc ..).symm
      rw [behind]
      rfl
  · cases found
    exact ⟨none, rfl⟩

theorem exists_of_skipNumberEnd (found : skipNumberEnd bs = .ok rest) :
    ∃ (fraction : Option Digits) (e : Option Exponent),
      bs = (fraction.elim [] fun ds => octet '.' :: ds.octets) ++
      (e.elim [] Exponent.octets ++ rest) := by
  rw [skipNumberEnd] at found
  by_cases point : isPoint bs
  · cases bs with
    | nil => cases point
    | cons b bs =>
      simp only [isPoint, List.head?_cons, beq_iff_eq, Option.some.injEq] at point
      subst point
      have dotted : isPoint (octet '.' :: bs) = true := rfl
      rw [if_pos dotted, List.drop_one, List.tail_cons, skipFraction] at found
      split at found
      · cases found
      · rename_i digit
        obtain ⟨ds, split⟩ := exists_digits (by simpa using digit)
        obtain ⟨e, last⟩ := exists_exponent found
        refine ⟨some ds, e, ?_⟩
        rw [split, last]
        rfl
  · rw [if_neg point] at found
    obtain ⟨e, split⟩ := exists_exponent found
    exact ⟨none, e, split⟩

theorem exists_numeral (found : skipNumber bs = .ok rest) :
    ∃ n : Numeral, n.negative = false ∧ n.whole.octets ++ (n.behind ++ rest) = bs := by
  have of_end (whole : Digits) (shortest : whole.first = octet '0' → whole.more = []) {more : Bytes}
      (found : skipNumberEnd more = .ok rest) :
      ∃ n : Numeral, n.negative = false ∧ n.whole.octets ++ (n.behind ++ rest) = whole.octets ++
      more := by
    obtain ⟨fraction, e, split⟩ := exists_of_skipNumberEnd found
    refine ⟨⟨false, whole, fraction, e, shortest⟩, rfl, ?_⟩
    rw [split, Numeral.behind, List.append_assoc]
    rfl
  cases bs with
  | nil => cases found
  | cons b bs =>
    rw [skipNumber_cons] at found
    split_ifs at found with zero more digit
    · subst zero
      exact of_end ⟨octet '0', [], rfl, List.forall_mem_nil _⟩ (fun _ => rfl) found
    · obtain ⟨ds, split⟩ := @exists_digits (b :: bs) digit
      have own : ds.first = b := (List.cons.inj split).1.symm
      rw [List.dropWhile_cons_of_pos digit] at split
      rw [split]
      exact of_end ds (fun zero' => absurd (own.symm.trans zero') zero) found

end Numbers

section Machine

inductive IsEntry : Frame → List Token → Prop
  | item (v : Value) : IsEntry .list v.tokens
  | member (key : Quoted) (v : Value) : IsEntry .object (key.token :: colonToken :: v.tokens)

theorem exists_block {entries : List (List Token)} (each : ∀ entry ∈ entries, IsEntry frame entry) :
    ∃ v : Value, v.tokens = frame.opens :: block frame true entries := by
  cases frame with
  | list =>
    have items : ∃ items, itemEntries items = entries := by
      induction entries with
      | nil => exact ⟨[], rfl⟩
      | cons entry entries ih =>
        obtain ⟨⟨v⟩, others⟩ := List.forall_mem_cons.mp each
        obtain ⟨items, rfl⟩ := ih others
        exact ⟨v :: items, rfl⟩
    obtain ⟨items, rfl⟩ := items
    exact ⟨.list items, rfl⟩
  | object =>
    have members : ∃ members, memberEntries members = entries := by
      induction entries with
      | nil => exact ⟨[], rfl⟩
      | cons entry entries ih =>
        obtain ⟨own, others⟩ := List.forall_mem_cons.mp each
        obtain ⟨members, rfl⟩ := ih others
        cases own with
        | member key v => exact ⟨(key, v) :: members, rfl⟩
    obtain ⟨members, rfl⟩ := members
    exact ⟨.object members, rfl⟩

/-- What the frames that are still open need of a text. -/
def Ended : List Frame → Bytes → Bytes → Prop
  | [], bs, rest => bs = rest
  | frame :: frames, bs, rest => ∃ entries middle, (∀ entry ∈ entries, IsEntry frame entry) ∧
      Spread (block frame false entries) bs middle ∧ Ended frames middle rest

/-- What is still to come: nothing, or a value in the frames that are open. -/
def Awaits (frames : List Frame) (bs rest : Bytes) : Prop :=
  if frames.isEmpty then bs = rest else ∃ (v : Value) (middle : Bytes), Spread v.tokens bs middle ∧
    Ended frames middle rest

theorem Spread.after {front : Bytes} {t : Token} {ts : List Token} (blanks : ∀ b ∈ front, isSpace b)
    (h : Spread (t :: ts) bs rest) : Spread (t :: ts) (front ++ bs) rest := by
  cases h with
  | cons own others =>
    rw [← List.append_assoc]
    exact .cons (fun b mem => (List.mem_append.mp mem).elim (blanks b) (own b)) others

theorem Spread.unskipped {t : Token} {ts : List Token} (h : Spread (t :: ts) (skipSpace bs) rest) :
    Spread (t :: ts) bs rest := by
  have whole : bs.takeWhile isSpace ++ skipSpace bs = bs := List.takeWhile_append_dropWhile
  rw [← whole]
  exact h.after fun b mem => List.mem_takeWhile_imp mem

theorem spread_shown {t : Token} {ts : List Token} {more : Bytes}
    (shown : skipSpace bs = t.octets ++ more) (h : Spread ts more rest) :
    Spread (t :: ts) bs rest := by
  apply Spread.unskipped
  rw [shown]
  exact h.token t

theorem spread_of_colon {ts : List Token} {next : Bytes} (found : colon bs = .ok next)
    (h : Spread ts next rest) :
    Spread (colonToken :: ts) bs rest := by
  rw [colon] at found
  cases shown : skipSpace bs with
  | nil =>
    rw [shown] at found
    cases found
  | cons b more =>
    rw [shown] at found
    dsimp only at found
    split at found
    · rename_i separator
      cases found
      exact spread_shown (t := colonToken) (by rw [shown, separator]; rfl) h
    · cases found

theorem exists_key {next : Bytes} (found : skipKey .object bs = .ok next) :
    ∃ key : Quoted, ∀ ts rest, Spread ts next rest →
    Spread (key.token :: colonToken :: ts) bs rest := by
  have skipped : skipKey .object bs = skipKey .object (skipSpace bs) := by
    simp only [skipKey, skipSpace_skipSpace]
  rw [skipped] at found
  cases shown : skipSpace bs with
  | nil =>
    rw [shown] at found
    cases found
  | cons b more =>
    rw [shown, skipKey_cons (skipSpace_eq_cons shown).1] at found
    split at found
    · cases found
    · rename_i quote
      obtain ⟨behind, passed, separated⟩ := bind_eq_ok.mp found
      obtain ⟨key, rfl⟩ := exists_quoted passed
      have opened : skipSpace bs = key.token.octets ++ behind := by
        rw [shown, not_not.mp quote]
        rfl
      exact ⟨key, fun ts rest spread => spread_shown opened (spread_of_colon separated spread)⟩

theorem exists_entry {v : Value} {next : Bytes} (found : skipKey frame bs = .ok next)
    (spread : Spread v.tokens next rest) :
    ∃ entry, IsEntry frame entry ∧ Spread entry bs rest := by
  cases frame with
  | list =>
    cases found
    exact ⟨_, .item v, spread⟩
  | object =>
    obtain ⟨key, named⟩ := exists_key found
    exact ⟨_, .member key v, named _ _ spread⟩

theorem IsEntry.exists_cons {entry : List Token} (h : IsEntry frame entry) :
    ∃ t ts, entry = t :: ts := by
  cases h with
  | item v => exact v.exists_tokens
  | member key v => exact ⟨_, _, rfl⟩

theorem ended_of_leave {left : List Frame} {next : Bytes}
    (found : leave frames bs = .ok (left, next)) (awaits : Awaits left next rest) :
    Ended frames bs rest := by
  induction frames generalizing bs with
  | nil =>
    cases found
    exact awaits
  | cons frame frames ih =>
    cases shown : skipSpace bs with
    | nil =>
      simp only [leave, shown, reduceCtorEq] at found
    | cons b more =>
      simp only [leave, shown] at found
      split_ifs at found with isComma isEnd
      · obtain ⟨middle, named, eq⟩ := map_eq_ok.mp found
        cases eq
        obtain ⟨v, middle, spread, entries, last, each, others, ended⟩ := awaits
        obtain ⟨entry, isEntry, spread⟩ := exists_entry named spread
        refine ⟨entry :: entries, last, List.forall_mem_cons.mpr ⟨isEntry, each⟩, ?_, ended⟩
        exact spread_shown (t := comma) (by rw [shown, isComma]; rfl) (spread_append.mpr ⟨middle,
          spread, others⟩)
      · refine ⟨[], more, List.forall_mem_nil _, ?_, ih found⟩
        exact spread_shown (t := frame.closes) (by rw [shown, isEnd]; rfl) (.nil more)

theorem exists_of_enter {left : List Frame} {next : Bytes}
    (found : enter frame frames bs = .ok (left, next)) (awaits : Awaits left next rest) :
    ∃ entries middle, (∀ entry ∈ entries, IsEntry frame entry) ∧
    Spread (block frame true entries) bs middle ∧
      Ended frames middle rest := by
  cases shown : skipSpace bs with
  | nil => simp only [enter, shown, reduceCtorEq] at found
  | cons b more =>
    simp only [enter, shown] at found
    split_ifs at found with isEnd
    · refine ⟨[], more, List.forall_mem_nil _, ?_, ended_of_leave found awaits⟩
      exact spread_shown (t := frame.closes) (by rw [shown, isEnd]; rfl) (.nil more)
    · obtain ⟨middle, named, eq⟩ := map_eq_ok.mp found
      cases eq
      obtain ⟨v, middle, spread, entries, last, each, others, ended⟩ := awaits
      obtain ⟨entry, isEntry, spread⟩ := exists_entry named spread
      refine ⟨entry :: entries, last, List.forall_mem_cons.mpr ⟨isEntry, each⟩, ?_, ended⟩
      obtain ⟨t, ts, rfl⟩ := isEntry.exists_cons
      apply Spread.unskipped
      rw [shown]
      exact spread_append.mpr ⟨middle, spread, others⟩

theorem exists_of_skipToken {b : UInt8} {more : Bytes} {left : List Frame} {next : Bytes}
    (found : skipToken frames b more = .ok (left, next)) (awaits : Awaits left next rest) :
    ∃ (v : Value) (middle : Bytes), Spread v.tokens (b :: more) middle ∧
    Ended frames middle rest := by
  have leaf (v : Value) (t : Token) {after : Bytes} (own : v.tokens = [t]) (split : b :: more =
      t.octets ++ after)
      (found : leave frames after = .ok (left, next)) :
      ∃ (v : Value) (middle : Bytes), Spread v.tokens (b :: more) middle ∧
      Ended frames middle rest := by
    refine ⟨v, after, ?_, ended_of_leave found awaits⟩
    rw [own, split]
    exact (Spread.nil after).token t
  have opened (frame : Frame) (own : frame.opens.octets = [b]) (found : enter frame frames more =
      .ok (left, next)) :
      ∃ (v : Value) (middle : Bytes), Spread v.tokens (b :: more) middle ∧
      Ended frames middle rest := by
    obtain ⟨entries, middle, each, spread, ended⟩ := exists_of_enter found awaits
    obtain ⟨v, eq⟩ := exists_block each
    have whole : b :: more = frame.opens.octets ++ more := by rw [own, List.singleton_append]
    refine ⟨v, middle, ?_, ended⟩
    rw [eq, whole]
    exact spread.token frame.opens
  rw [skipToken] at found
  split_ifs at found with bracket brace n t f minus digit quote
  · exact opened .list (by rw [bracket]; rfl) found
  · exact opened .object (by rw [brace]; rfl) found
  · obtain ⟨after, word, closed⟩ := bind_eq_ok.mp found
    exact leaf (.word .null) _ rfl (by rw [n, literal_eq_ok.mp word]; rfl) closed
  · obtain ⟨after, word, closed⟩ := bind_eq_ok.mp found
    exact leaf (.word .true) _ rfl (by rw [t, literal_eq_ok.mp word]; rfl) closed
  · obtain ⟨after, word, closed⟩ := bind_eq_ok.mp found
    exact leaf (.word .false) _ rfl (by rw [f, literal_eq_ok.mp word]; rfl) closed
  · obtain ⟨after, number, closed⟩ := bind_eq_ok.mp found
    obtain ⟨n, -, rfl⟩ := exists_numeral number
    refine leaf (.number { n with negative := true }) _ rfl ?_ closed
    rw [minus, ← List.append_assoc]
    rfl
  · obtain ⟨after, number, closed⟩ := bind_eq_ok.mp found
    obtain ⟨n, unsigned, split⟩ := exists_numeral number
    refine leaf (.number n) _ rfl ?_ closed
    rw [← split, Numeral.token, unsigned, ← List.append_assoc]
    rfl
  · obtain ⟨after, string, closed⟩ := bind_eq_ok.mp found
    obtain ⟨q, rfl⟩ := exists_quoted string
    exact leaf (.text q) _ rfl (by rw [quote]; rfl) closed
  · cases found

theorem exists_of_skipFrom {fuel : Nat} (enough : bs.length < fuel)
    (found : skipFrom fuel frames bs = .ok rest) :
    ∃ (v : Value) (middle : Bytes), Spread v.tokens bs middle ∧ Ended frames middle rest := by
  induction fuel generalizing frames bs with
  | zero => exact absurd enough (Nat.not_lt_zero _)
  | succ fuel ih =>
    rw [skipFrom] at found
    cases shown : skipSpace bs with
    | nil =>
      rw [shown] at found
      cases found
    | cons b more =>
      rw [shown] at found
      obtain ⟨⟨left, next⟩, token, found⟩ := bind_eq_ok.mp found
      have less := (skipSpace_eq_cons shown).2.1
      have shorter := (steady_skipToken b).shrinks (Nat.le_refl _) token
      have awaits : Awaits left next rest := by
        dsimp only at found
        rw [Awaits]
        split at found
        · rename_i last
          cases found
          rw [if_pos last]
        · rename_i notLast
          rw [if_neg notLast]
          exact ih (by omega) found
      obtain ⟨v, middle, spread, ended⟩ := exists_of_skipToken token awaits
      obtain ⟨t, ts, eq⟩ := v.exists_tokens
      refine ⟨v, middle, ?_, ended⟩
      rw [eq] at spread ⊢
      exact Spread.unskipped (shown ▸ spread)

theorem exists_of_skip (found : skip bs = .ok rest) : ∃ v : Value, Spread v.tokens bs rest := by
  obtain ⟨v, middle, spread, rfl⟩ := exists_of_skipFrom (Nat.lt_succ_self _) found
  exact ⟨v, spread⟩

end Machine

end Stowage.Json
