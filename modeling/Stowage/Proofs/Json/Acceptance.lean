import Stowage.Proofs.Json.Denotation
import Stowage.Proofs.Json.Wellformed

/-! Whatever is read, it is a value that is read: what the readers take off a text is a text of some
tree. -/
namespace Stowage.Json

variable {α β δ : Type} {bs rest behind : Bytes} {read : Bytes → Scanned α} {fuel : Nat}
    {first : Bool}

def TakesValue (read : Bytes → Scanned α) : Prop :=
  ∀ bs a rest, read bs = .ok (a, rest) → ∃ v : Value, Spread v.tokens bs rest

theorem TakesValue.map (h : TakesValue read) (f : α → β) :
    TakesValue fun bs => (read bs).map fun (a, rest) => (f a, rest) := by
  intro bs b rest found
  obtain ⟨⟨a, behind⟩, own, eq⟩ := map_eq_ok.mp found
  cases eq
  exact h bs a rest own

theorem exists_unskipped (h : ∃ v : Value, Spread v.tokens (skipSpace bs) rest) :
    ∃ v : Value, Spread v.tokens bs rest := by
  obtain ⟨v, spread⟩ := h
  obtain ⟨t, ts, eq⟩ := v.exists_tokens
  rw [eq] at spread
  exact ⟨v, eq ▸ spread.unskipped⟩

section Leaves

def skipMode : Mode → SkipMode
  | .plain => .plain
  | .escape => .escape
  | .digits left value _ => .digits left value.isSome
  | .backslash _ => .plain
  | .letter _ => .escape

theorem skipString_of_stringOctets {mode : Mode} {done out : Bytes}
    (found : stringOctets mode done bs = .ok (out, rest)) :
    skipString (skipMode mode) bs = .ok rest := by
  induction bs generalizing mode done with
  | nil => cases found
  | cons b bs ih =>
    cases mode with
    | plain =>
      simp only [skipMode, skipString]
      simp only [stringOctets] at found
      split_ifs at found with quote backslash control
      · cases found
        rw [if_pos quote]
      · rw [if_neg quote, if_pos backslash]
        exact ih found
      · rw [if_neg quote, if_neg backslash, if_neg control]
        exact ih found
    | escape =>
      simp only [skipMode, skipString]
      simp only [stringOctets] at found
      split_ifs at found with unit
      · rw [if_pos unit]
        exact ih found
      · rw [if_neg unit]
        cases known : simpleEscape? b with
        | none =>
          rw [known] at found
          cases found
        | some meant =>
          rw [known] at found
          exact ih found
    | digits left value lead =>
      have digit : (value.bind fun v => (hexOf? b).map (v * 16 + ·)).isSome =
          (value.isSome && (hexOf? b).isSome) := by
        cases value <;> cases hexOf? b <;> rfl
      cases left with
      | succ left =>
        simp only [skipMode, skipString, ← digit]
        simp only [stringOctets] at found
        exact ih found
      | zero =>
        simp only [skipMode, skipString, ← digit]
        simp only [stringOctets] at found
        split at found
        · cases found
        · rename_i n known
          rw [known]
          split_ifs at found <;> exact ih found
        · rename_i n lead known
          rw [known]
          split_ifs at found
          exact ih found
    | backslash lead =>
      simp only [skipMode, skipString]
      simp only [stringOctets] at found
      split_ifs at found with backslash
      have quote : b ≠ octet '"' := by
        rw [backslash]
        decide
      rw [if_neg quote, if_pos backslash]
      exact ih found
    | letter lead =>
      simp only [skipMode, skipString]
      simp only [stringOctets] at found
      split_ifs at found with unit
      rw [if_pos unit]
      exact ih found

theorem exists_of_string {cs : List Char} (found : string bs = .ok (cs, rest)) :
    ∃ q : Quoted, q.token.more ++ rest = bs := by
  obtain ⟨out, taken, -⟩ := string_eq_ok.mp found
  exact exists_quoted (skipString_of_stringOctets taken)

theorem takesValue_text : TakesValue text := by
  intro bs s rest found
  rw [text] at found
  cases shown : skipSpace bs with
  | nil =>
    rw [shown] at found
    cases found
  | cons b more =>
    rw [shown] at found
    dsimp only at found
    split at found
    · rename_i quote
      obtain ⟨⟨cs, behind⟩, taken, eq⟩ := map_eq_ok.mp found
      cases eq
      obtain ⟨q, rfl⟩ := exists_of_string taken
      exact ⟨.text q, spread_shown (t := q.token) (by rw [shown, quote]; rfl) (.nil _)⟩
    · cases found

theorem dropWhile_significand (value : Nat) (bs : Bytes) :
    bs.dropWhile isDigitOctet = (significand value bs).2.dropWhile isDigitOctet := by
  induction bs generalizing value with
  | nil => rfl
  | cons b bs ih =>
    rw [significand]
    split
    · rename_i digit
      rw [Bool.and_eq_true] at digit
      rw [List.dropWhile_cons_of_pos digit.1, ih]
    · rfl

theorem skipNumber_of_number {k : Int} (found : number false bs = .ok (.integer k, rest)) :
    skipNumber bs = .ok rest := by
  have ends {value : Nat} {bs : Bytes} (found : afterInteger false value bs = .ok (.integer k,
      rest)) :
      skipNumberEnd bs = .ok rest := by
    rw [afterInteger, Bool.not_false, if_pos rfl] at found
    split_ifs at found with point mark
    · exact absurd found (fractional_fraction k rest)
    · exact absurd found (fractional_exponent k rest)
    · cases found
      rw [skipNumberEnd, if_neg point, if_neg mark]
  cases bs with
  | nil => cases found
  | cons b bs =>
    rw [number] at found
    rw [skipNumber_cons]
    by_cases zero : b = octet '0'
    · rw [if_pos zero] at found ⊢
      split at found
      · cases found
      · rename_i stop
        rw [if_neg stop]
        exact ends found
    · rw [if_neg zero] at found ⊢
      split at found
      · rename_i digit
        rw [if_pos digit]
        dsimp only at found
        split_ifs at found with more point
        · exact absurd found (fractional_fraction k rest)
        · exact absurd found (fractional_exponentOrEnd k rest)
        · have digits := dropWhile_significand 0 (b :: bs)
          rw [List.dropWhile_cons_of_pos digit, dropWhile_of_not_digit (Bool.eq_false_iff.mpr more)]
            at digits
          rw [digits]
          exact ends found
      · cases found

theorem takesValue_port : TakesValue port := by
  intro bs p rest found
  cases shown : skipSpace bs with
  | nil =>
    rw [port, shown] at found
    cases found
  | cons b more =>
    rw [port_cons shown] at found
    split at found
    · cases found
    · obtain ⟨⟨value, behind⟩, taken, integer⟩ := bind_eq_ok.mp found
      obtain ⟨rfl, rfl⟩ := portOf_eq_ok.mp integer
      split at taken
      · have below := neg_of_number taken
        omega
      · obtain ⟨n, unsigned, split⟩ := exists_numeral (skipNumber_of_number taken)
        refine ⟨.number n, spread_shown (t := n.token) ?_ (.nil _)⟩
        rw [shown, ← split, Numeral.token, unsigned, ← List.append_assoc]
        rfl

end Leaves

section Optional

theorem TakesValue.optional (h : TakesValue read) : TakesValue (optional read) := by
  intro bs o rest found
  rw [Json.optional] at found
  apply exists_unskipped
  cases shown : skipSpace bs with
  | nil =>
    rw [shown] at found
    obtain ⟨⟨a, behind⟩, own, eq⟩ := map_eq_ok.mp found
    cases eq
    exact h [] a rest own
  | cons b more =>
    rw [shown] at found
    dsimp only at found
    split at found
    · rename_i null
      obtain ⟨behind, word, eq⟩ := map_eq_ok.mp found
      cases eq
      refine ⟨.word .null, ?_⟩
      rw [null, literal_eq_ok.mp word]
      exact (Spread.nil _).token Word.null.token
    · obtain ⟨⟨a, behind⟩, own, eq⟩ := map_eq_ok.mp found
      cases eq
      exact h (b :: more) a _ own

end Optional

section Lists

variable {v : Value} {shown middle : Bytes} {entries : List (List Token)}

theorem nextElement_false (last : nextElement first bs = .ok (false, shown)) :
    shown = skipSpace bs := by
  rw [nextElement] at last
  grind

theorem nextElement_true (next : nextElement first bs = .ok (true, shown)) :
    (first = true ∧ shown = skipSpace bs) ∨
      (first = false ∧ ∃ more, skipSpace bs = octet ',' :: more ∧ shown = skipSpace more) := by
  rw [nextElement] at next
  grind

theorem spread_element (next : nextElement first bs = .ok (true, shown))
    (own : Spread v.tokens shown middle) (others : Spread (block .list false entries) middle rest) :
    Spread (block .list first (v.tokens :: entries)) bs rest := by
  have whole {more : Bytes} (own : Spread v.tokens (skipSpace more) middle) :
      Spread (v.tokens ++ block .list false entries) more rest := by
    obtain ⟨t, ts, eq⟩ := v.exists_tokens
    rw [eq] at own ⊢
    exact Spread.unskipped (spread_append.mpr ⟨middle, own, others⟩)
  obtain ⟨rfl, rfl⟩ | ⟨rfl, more, separated, rfl⟩ := nextElement_true next
  · exact whole own
  · exact spread_shown (t := comma) separated (whole own)

theorem length_le_of_nextElement {found : Bool} (next : nextElement first bs = .ok (found, shown)) :
    shown.length ≤ bs.length :=
  (steady_nextElement first).shrinks (Nat.le_refl _) next

theorem spread_closed (closed : closeList bs = (rest, none)) :
    Spread (block .list first []) bs rest :=
  spread_shown (t := Frame.list.closes) ((closeList_iff bs rest).mp closed) (.nil rest)

theorem exists_items (h : TakesValue read) {done all : List α} (enough : bs.length < fuel)
    (found : itemsFrom read fuel first done bs = .ok (all, behind))
    (closed : closeList behind = (rest, none)) :
    ∃ items, Spread (block .list first (itemEntries items)) bs rest := by
  induction fuel generalizing bs first done with
  | zero => exact absurd enough (Nat.not_lt_zero _)
  | succ fuel ih =>
    rw [itemsFrom] at found
    obtain ⟨⟨more, shown⟩, next, found⟩ := bind_eq_ok.mp found
    have less := length_le_of_nextElement next
    cases more with
    | false =>
      cases found
      rw [nextElement_false next, closeList_iff, skipSpace_skipSpace, ← closeList_iff] at closed
      exact ⟨[], spread_closed closed⟩
    | true =>
      obtain ⟨⟨a, middle⟩, item, found⟩ := bind_eq_ok.mp found
      obtain ⟨v, own⟩ := h shown a middle item
      have shorter := own.length_lt
      obtain ⟨items, others⟩ := ih (by omega) found
      exact ⟨v :: items, spread_element next own others⟩

theorem TakesValue.list (h : TakesValue read) : TakesValue (list read) := by
  intro bs all rest found
  rw [Json.list] at found
  cases shown : skipSpace bs with
  | nil =>
    rw [shown] at found
    cases found
  | cons b more =>
    rw [shown] at found
    dsimp only at found
    split at found
    · rename_i bracket
      obtain ⟨middle, taken, closed⟩ := finish_eq_ok.mp found
      obtain ⟨items, spread⟩ := exists_items h (Nat.lt_succ_self _) (mapError_eq_ok.mp taken) closed
      exact ⟨.list items, spread_shown (t := Frame.list.opens) (by rw [shown, bracket]; rfl) spread⟩
    · cases found

end Lists

section Records

variable {s : Shape δ} {draft filled : δ} {index : Nat} {v : Value} {shown middle : Bytes}
    {entries : List (List Token)}

theorem exists_cons_block (first : Bool) (items : List Value) :
    ∃ t ts, block .list first (itemEntries items) = t :: ts := by
  cases items with
  | nil => exact ⟨_, _, rfl⟩
  | cons v items =>
    cases first with
    | false => exact ⟨_, _, rfl⟩
    | true =>
      obtain ⟨t, ts, eq⟩ := v.exists_tokens
      exact ⟨t, ts ++ block .list false (itemEntries items),
        congrArg (· ++ block .list false (itemEntries items)) eq⟩

theorem exists_elements {fields : List (FieldRule δ)}
    (each : ∀ field ∈ fields, TakesValue field.read)
    (found : s.elements index first draft bs fields = .ok (filled, behind))
    (closed : closeList behind = (rest, none)) :
    ∃ items, Spread (block .list first (itemEntries items)) bs rest := by
  induction fields generalizing bs first draft index with
  | nil =>
    cases found
    exact ⟨[], spread_closed closed⟩
  | cons field fields ih =>
    obtain ⟨own, each⟩ := List.forall_mem_cons.mp each
    rw [Shape.elements] at found
    obtain ⟨⟨more, shown⟩, next, found⟩ := bind_eq_ok.mp found
    cases more with
    | true =>
      obtain ⟨⟨set, middle⟩, item, found⟩ := bind_eq_ok.mp found
      obtain ⟨v, own⟩ := own shown set middle (mapError_eq_ok.mp item)
      obtain ⟨items, others⟩ := ih each found
      exact ⟨v :: items, spread_element (mapError_eq_ok.mp next) own others⟩
    | false =>
      dsimp only at found
      rw [if_neg Bool.false_ne_true] at found
      split at found
      · cases found
      · obtain ⟨items, others⟩ := ih each found
        obtain ⟨t, ts, eq⟩ := exists_cons_block first items
        refine ⟨items, ?_⟩
        rw [eq] at others ⊢
        exact Spread.unskipped (nextElement_false (mapError_eq_ok.mp next) ▸ others)

theorem nextKey_cases {key : Bytes} (next : nextKey first bs = .ok (some key, shown)) :
    (first = true ∧ skipSpace bs = octet '"' :: key) ∨
      (first = false ∧ ∃ more, skipSpace bs = octet ',' :: more ∧
        skipSpace more = octet '"' :: key) := by
  rw [nextKey] at next
  grind

theorem nextKey_none (last : nextKey first bs = .ok (none, shown)) : shown = skipSpace bs := by
  rw [nextKey] at last
  grind

theorem spread_member {key : Bytes} {name : List Char} {ts : List Token}
    (next : nextKey first bs = .ok (some key, shown)) (named : string key = .ok (name, behind))
    (own : Spread ts behind middle) (others : Spread (block .object false entries) middle rest) :
    ∃ q : Quoted, Spread (block .object first ((q.token :: ts) :: entries)) bs rest := by
  obtain ⟨q, rfl⟩ := exists_of_string named
  refine ⟨q, ?_⟩
  have inner : Spread (ts ++ block .object false entries) behind rest :=
    spread_append.mpr ⟨middle, own, others⟩
  obtain ⟨rfl, opened⟩ | ⟨rfl, more, separated, opened⟩ := nextKey_cases next
  · exact spread_shown (t := q.token) opened inner
  · exact spread_shown (t := comma) separated (spread_shown (t := q.token) opened inner)

theorem exists_value_of_member (each : ∀ field ∈ s.fields, TakesValue field.read) {name : List Char}
    (found : s.member draft name bs = .ok (filled, rest)) :
    ∃ v : Value, Spread (colonToken :: v.tokens) bs rest := by
  rw [Shape.member] at found
  split at found
  · obtain ⟨behind, passed, eq⟩ := bind_eq_ok.mp found
    cases eq
    obtain ⟨next, separated, passed⟩ := bind_eq_ok.mp (mapError_eq_ok.mp passed)
    obtain ⟨v, spread⟩ := exists_of_skip passed
    exact ⟨v, spread_of_colon separated spread⟩
  · rename_i field known
    split at found
    · cases found
    · obtain ⟨⟨set, behind⟩, taken, eq⟩ := bind_eq_ok.mp found
      cases eq
      obtain ⟨next, separated, taken⟩ := bind_eq_ok.mp (mapError_eq_ok.mp taken)
      obtain ⟨v, spread⟩ := each field (List.mem_of_find?_eq_some known) next set _ taken
      exact ⟨v, spread_of_colon separated spread⟩

theorem exists_members (each : ∀ field ∈ s.fields, TakesValue field.read)
    (enough : bs.length < fuel) (found : s.members fuel first draft bs = .ok (filled, behind))
    (closed : closeObject behind = (rest, none)) :
    ∃ members, Spread (block .object first (memberEntries members)) bs rest := by
  induction fuel generalizing bs first draft with
  | zero => exact absurd enough (Nat.not_lt_zero _)
  | succ fuel ih =>
    rw [Shape.members] at found
    obtain ⟨⟨key, shown⟩, next, found⟩ := bind_eq_ok.mp found
    replace next := mapError_eq_ok.mp next
    cases key with
    | none =>
      dsimp only at found
      split at found
      · cases found
      · cases found
        rw [nextKey_none next, closeObject_iff, skipSpace_skipSpace] at closed
        exact ⟨[], spread_shown (t := Frame.object.closes) closed (.nil rest)⟩
    | some key =>
      obtain ⟨⟨name, more⟩, named, found⟩ := bind_eq_ok.mp found
      obtain ⟨⟨drafted, middle⟩, own, found⟩ := bind_eq_ok.mp found
      replace named := mapError_eq_ok.mp named
      obtain ⟨v, spread⟩ := exists_value_of_member each own
      have shorter : middle.length < bs.length := by
        have start : findKey first bs = .ok (true, shown) := by
          rw [findKey, next]
          rfl
        have less := length_lt_of_findKey start
        rw [nextKey_some next] at less
        have name := steady_string.shrinks (Nat.le_refl _) named
        have value := spread.length_le
        omega
      obtain ⟨members, others⟩ := ih (by omega) found
      obtain ⟨q, whole⟩ := spread_member next named spread others
      exact ⟨(q, v) :: members, whole⟩

theorem takesValue_read (each : ∀ field ∈ s.fields, TakesValue field.read) (empty : δ) :
    TakesValue (s.read empty) := by
  intro bs filled rest found
  rw [Shape.read] at found
  cases shown : skipSpace bs with
  | nil =>
    rw [shown] at found
    cases found
  | cons b more =>
    rw [shown] at found
    dsimp only at found
    split_ifs at found with brace bracket
    · obtain ⟨middle, taken, closed⟩ := finish_eq_ok.mp found
      obtain ⟨members, spread⟩ := exists_members each (Nat.lt_succ_self _) taken closed
      exact ⟨.object members,
        spread_shown (t := Frame.object.opens) (by rw [shown, brace]; rfl) spread⟩
    · obtain ⟨middle, taken, closed⟩ := finish_eq_ok.mp found
      obtain ⟨items, spread⟩ := exists_elements each taken closed
      exact ⟨.list items, spread_shown (t := Frame.list.opens) (by rw [shown, bracket]; rfl) spread⟩

end Records

/-- Takes the text of a value, and finds the same in every text of it. -/
structure Faithful (read : Bytes → Scanned α) : Prop where
  settled : Settled read
  takesValue : TakesValue read

namespace Faithful

theorem text : Faithful text := ⟨settled_text, takesValue_text⟩

theorem port : Faithful port := ⟨settled_port, takesValue_port⟩

theorem map (h : Faithful read) (f : α → β) : Faithful fun bs => (read bs).map fun (a, rest) =>
    (f a, rest) :=
  ⟨h.settled.map f, h.takesValue.map f⟩

theorem optional (h : Faithful read) : Faithful (optional read) :=
  ⟨h.settled.optional, h.takesValue.optional⟩

theorem list (h : Faithful read) : Faithful (list read) := ⟨h.settled.list, h.takesValue.list⟩

theorem record {s : Shape δ} (each : ∀ field ∈ s.fields, Faithful field.read) (empty : δ) :
    Faithful (s.read empty) :=
  ⟨.record (fun field mem => (each field mem).settled) empty,
    takesValue_read (fun field mem => (each field mem).takesValue) empty⟩

end Faithful

section Texts

variable {text : Bytes} {v : Value} {a : α}

theorem exists_spells (h : Faithful read) (parsed : parse read text = .ok a) :
    ∃ v, Spells v text := by
  obtain ⟨rest, found, ends⟩ := parse_eq_ok.mp parsed
  obtain ⟨v, spread⟩ := h.takesValue text a rest found
  exact ⟨v, rest, spread, List.dropWhile_eq_nil_iff.mp ends⟩

theorem parse_spells (h : Faithful read) (spelled : Spells v text) : parse read text = .ok a ↔
    Denotes read v a := by
  obtain ⟨rest, spread, blank⟩ := spelled
  have ends : skipSpace rest = [] := List.dropWhile_eq_nil_iff.mpr blank
  rw [parse_eq_ok, h.settled.denotes_iff spread (bounds_of_blank blank)]
  constructor
  · rintro ⟨behind, found, -⟩
    rwa [(h.settled v text rest a behind spread (bounds_of_blank blank) found).1] at found
  · exact fun found => ⟨rest, found, ends⟩

theorem exists_members_of_spells (spelled : Spells v text)
    (opened : (skipSpace text).head? = some (octet '\x7b')) :
    ∃ members, v = .object members := by
  obtain ⟨rest, spread, -⟩ := spelled
  obtain ⟨b, more, shown, kind⟩ := Value.uncons spread
  rw [shown] at opened
  cases opened
  exact kind

end Texts

end Stowage.Json
