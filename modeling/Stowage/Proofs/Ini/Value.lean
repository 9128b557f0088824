import Mathlib.Data.List.TakeWhile
import Stowage.Proofs.Ini.Text
import Stowage.Proofs.Text.Blank

/-! What a printed value is read as. Quotes are not escaped: those in front of a value fall away
with their partners, and one without a partner on its line takes in what follows the line. -/
namespace Stowage.Ini

def IsQuote (c : Char) : Prop := c = '"' ∨ c = '\''

instance (c : Char) : Decidable (IsQuote c) := inferInstanceAs (Decidable (_ ∨ _))

/-- Neither a blank nor one of the characters that paths of the same components may differ in. -/
def isMark (c : Char) : Bool := c != '/' && c != '.' && !isBlank c

/-- What a text is read as, where it is the rest of the value on its line. -/
inductive ReadAs : List Char → List Char → Prop
  | unquoted {text value : List Char} (unquoted : ∀ x ∈ text.head?, ¬ IsQuote x)
      (trimmed : value = trim (text.map reread) ∨ value = trimEnd (text.map reread)) :
      ReadAs text value
  | quoted {q : Char} {part text value : List Char} (quote : IsQuote q) (inner : q ∉ part)
    (more : ReadAs text value) :
      ReadAs (q :: part ++ q :: text) (part.map reread ++ value)
  | unclosed {q x : Char} {text beyond value : List Char} (quote : IsQuote q) (inner : q ∉ text ++
    beyond)
      (mem : x ∈ beyond) (mark : isMark x) (other : ¬ IsQuote x) :
      ReadAs (q :: text) (text.map reread ++ beyond ++ value)

def fromPart (text : List Char) : List Char := text.dropWhile (· == '\n')

/-- What stands behind the line of a value: at most line ends, or behind them a character that is
read as it is. -/
def Follows (rest : List Char) : Prop :=
  ∀ x ∈ (fromPart rest).head?, isMark x ∧ ¬ IsQuote x ∧ x ≠ '\\'

variable {c after : Cursor} {q : Char} {text rest done value : List Char} {first : Bool}
    {fuel : Nat}

theorem head?_escape_cases (x : Char) :
    (escape x).head? = some '\\' ∨ (escape x).head? = some x ∧ x ≠ '\n' ∧ x ≠ '\r' := by
  obtain ⟨spelled, -, line, ret, -⟩ | ⟨e, spelled, -⟩ | ⟨spelled, -⟩ := escape_cases x
  · exact .inr ⟨by rw [spelled]; rfl, line, ret⟩
  · exact .inl (by rw [spelled]; rfl)
  · exact .inl (by rw [spelled]; rfl)

theorem head?_escape_not_mem_lineEnds (x : Char) : (escape x).head? ∉ lineEnds := by
  obtain h | ⟨h, line, ret⟩ := head?_escape_cases x
  · rw [h]
    decide
  · simp [h, lineEnds, line, ret]

theorem head?_escape_ne_quote (quote : IsQuote q) {x : Char} (other : x ≠ q) :
    (escape x).head? ∉ [some q] := by
  obtain h | ⟨h, -⟩ := head?_escape_cases x
  · obtain rfl | rfl := quote <;> simp [h]
  · simpa [h] using other

theorem escape_quote (quote : IsQuote q) : escape q = [q] := by
  obtain rfl | rfl := quote <;> decide

theorem not_isQuote_head?_escapeAll (unquoted : ∀ x ∈ text.head?, ¬ IsQuote x) (rest : List Char) :
    ∃ x more, escapeAll text ++ '\n' :: rest = x :: more ∧ ¬ IsQuote x := by
  cases text with
  | nil => exact ⟨'\n', rest, rfl, by decide⟩
  | cons y text =>
    have other : ∀ x ∈ (escape y).head?, ¬ IsQuote x := by
      obtain h | ⟨h, -⟩ := head?_escape_cases y <;> rw [h] <;> rintro _ ⟨⟩
      · decide
      · exact unquoted y rfl
    obtain ⟨x, more, spelled⟩ : ∃ x more, escape y = x :: more := by
      obtain h | ⟨h, -⟩ := head?_escape_cases y <;> obtain ⟨more, spelled⟩ :=
        List.head?_eq_some_iff.mp h <;>
        exact ⟨_, more, spelled⟩
    refine ⟨x, more ++ escapeAll text ++ '\n' :: rest, ?_, other x (by rw [spelled]; rfl)⟩
    rw [escapeAll_cons, spelled]
    rfl

theorem valueParts_unquoted (unquoted : ∀ x ∈ text.head?, ¬ IsQuote x)
    (h : c.rest = escapeAll text ++ '\n' :: rest) :
    valueParts (fuel + 1) first done c =
      .ok (done ++ (if first then trim (text.map reread) else trimEnd (text.map reread)),
        c.skip (escapeAll text).length) := by
  obtain ⟨x, more, spelled, other⟩ := not_isQuote_head?_escapeAll unquoted rest
  have head : c.head? = some x := Cursor.head?_of_rest (h.trans spelled)
  have read : readUntil lineEnds c = .ok (text.map reread, c.skip (escapeAll text).length) :=
    readUntil_escapeAll (fun x _ => head?_escape_not_mem_lineEnds x) h List.mem_cons_self
  have unquoted : (x = '"' || x = '\'') = false := by simpa [IsQuote] using other
  rw [valueParts, head]
  simp only [unquoted, read, bind, Except.bind]
  rfl

theorem valueParts_quote (quote : IsQuote q) (h : c.rest = q :: rest) :
    valueParts (fuel + 1) first done c =
      (readUntil [some q] c.next).bind fun (part, after) =>
      valueParts fuel false (done ++ part) after.next := by
  have quoted : (q = '"' || q = '\'') = true := by simpa [IsQuote] using quote
  rw [valueParts, Cursor.head?_of_rest h]
  simp only [quoted, if_true]
  rfl

theorem isPrefix_of_valueParts (h : valueParts fuel first done c = .ok (value, after)) :
    done <+: value := by
  induction fuel generalizing first done c with
  | zero =>
    cases h
    exact List.prefix_rfl
  | succ fuel ih =>
    rw [valueParts] at h
    split at h
    · cases h
      exact List.prefix_rfl
    split at h
    · obtain ⟨⟨part, last⟩, -, h⟩ := bind_eq_ok.mp h
      exact (List.prefix_append _ _).trans (ih h)
    · obtain ⟨⟨part, last⟩, -, h⟩ := bind_eq_ok.mp h
      cases h
      exact List.prefix_append _ _

theorem exists_beyond (follows : Follows rest) (quote : IsQuote q) (inner : q ∉ text)
    {part : List Char} (h : c.rest = escapeAll text ++ '\n' :: rest)
    (read : readUntil [some q] c = .ok (part, after)) :
    ∃ x beyond, x ∈ beyond ∧ isMark x ∧ ¬ IsQuote x ∧ q ∉ text ++ beyond ∧
    text.map reread ++ beyond <+: part := by
  have inside : ∀ x ∈ text, (escape x).head? ∉ [some q] := fun x hx =>
    head?_escape_ne_quote quote fun e => inner (e ▸ hx)
  obtain ⟨ws, line, spelled⟩ : ∃ ws, (∀ x ∈ ws, x = '\n') ∧ '\n' :: rest = ws ++ fromPart rest :=
    ⟨'\n' :: rest.takeWhile (· == '\n'),
      List.forall_mem_cons.mpr ⟨rfl, fun x hx => by simpa using List.mem_takeWhile_imp hx⟩,
      congrArg _ List.takeWhile_append_dropWhile.symm⟩
  have apart : q ≠ '\n' := by obtain rfl | rfl := quote <;> decide
  rw [spelled] at h
  -- The search for the partner passes the line ends, and then either faces the end of all text or
  -- passes a mark.
  cases behind : fromPart rest with
  | nil =>
    rw [behind] at h
    have raw : ∀ x ∈ ws, some x ∉ [some q] := fun x hx => by simpa [line x hx] using Ne.symm apart
    have plain : '\\' ∉ ws := fun mem => absurd (line _ mem) (by decide)
    exact absurd rfl ((isPrefix_of_readUntil inside raw plain h read).2 (by simp))
  | cons x more =>
    obtain ⟨mark, other, plain⟩ := follows x (by rw [behind]; rfl)
    have raw : ∀ y ∈ ws ++ [x], y ≠ q ∧ y ≠ '\\' := fun y hy => by
      obtain hy | hy := List.mem_append.mp hy
      · exact line y hy ▸ ⟨Ne.symm apart, by decide⟩
      · exact List.mem_singleton.mp hy ▸ ⟨fun e => other (e ▸ quote), plain⟩
    rw [behind, ← List.singleton_append, ← List.append_assoc ws] at h
    refine ⟨x, ws ++ [x], List.mem_append_right _ List.mem_cons_self, mark, other, ?_,
      (isPrefix_of_readUntil inside (fun y hy => by simpa using (raw y hy).1) (fun mem =>
        (raw _ mem).2 rfl) h read).1⟩
    exact List.mem_append.not.mpr (not_or.mpr ⟨inner, fun mem => (raw q mem).1 rfl⟩)

theorem valueParts_closed (first : Bool) (done : List Char) (fuel : Nat) (quote : IsQuote q)
    {part : List Char} (inner : q ∉ part)
    (h : c.rest = escapeAll (q :: part ++ q :: text) ++ '\n' :: rest) :
    ∃ behind, behind.rest = escapeAll text ++ '\n' :: rest ∧
      valueParts (fuel + 1) first done c =
      valueParts fuel false (done ++ part.map reread) behind := by
  have spelled : c.rest = q :: (escapeAll part ++ q :: (escapeAll text ++ '\n' :: rest)) := by
    rw [h, escapeAll_append, escapeAll_cons, escapeAll_cons, escape_quote quote, List.append_assoc]
    rfl
  have next : c.next.rest = escapeAll part ++ q :: (escapeAll text ++ '\n' :: rest) :=
    Cursor.rest_next_of_rest spelled
  have inside : ∀ x ∈ part, (escape x).head? ∉ [some q] := fun x hx =>
    head?_escape_ne_quote quote fun e => inner (e ▸ hx)
  refine ⟨(c.next.skip (escapeAll part).length).next,
    Cursor.rest_next_of_rest (Cursor.rest_skip_of_rest next), ?_⟩
  rw [valueParts_quote quote spelled, readUntil_escapeAll inside next List.mem_cons_self]
  rfl

theorem readAs_of_valueParts (follows : Follows rest) (enough : text.length < fuel)
    (h : c.rest = escapeAll text ++ '\n' :: rest)
    (read : valueParts fuel first done c = .ok (value, after)) :
    ∃ u, value = done ++ u ∧ ReadAs text u := by
  -- Each part that is closed on the line leaves less text for less fuel.
  induction fuel generalizing text c first done with
  | zero => exact absurd enough (Nat.not_lt_zero _)
  | succ fuel ih =>
    by_cases unquoted : ∀ x ∈ text.head?, ¬ IsQuote x
    · rw [valueParts_unquoted unquoted h] at read
      cases read
      refine ⟨_, rfl, .unquoted unquoted ?_⟩
      cases first
      · exact .inr rfl
      · exact .inl rfl
    simp only [not_forall, not_not] at unquoted
    obtain ⟨q, head, quote⟩ := unquoted
    obtain ⟨text, rfl⟩ := List.head?_eq_some_iff.mp head
    by_cases closed : q ∈ text
    · obtain ⟨part, text, rfl, inner⟩ := List.eq_append_cons_of_mem closed
      obtain ⟨behind, spelled, step⟩ := valueParts_closed first done fuel quote inner h
      have shorter : text.length < fuel := by
        rw [List.length_cons, List.length_append, List.length_cons] at enough
        omega
      obtain ⟨u, rfl, more⟩ := ih shorter spelled (step ▸ read)
      exact ⟨part.map reread ++ u, List.append_assoc .., .quoted quote inner more⟩
    · have spelled : c.rest = q :: (escapeAll text ++ '\n' :: rest) := by
        rw [h, escapeAll_cons, escape_quote quote]
        rfl
      have next : c.next.rest = escapeAll text ++ '\n' :: rest := Cursor.rest_next_of_rest spelled
      rw [valueParts_quote quote spelled] at read
      obtain ⟨⟨part, mid⟩, front, read⟩ := bind_eq_ok.mp read
      obtain ⟨x, beyond, mem, mark, other, inner, longer⟩ :=
        exists_beyond follows quote closed next front
      obtain ⟨more, rfl⟩ := longer
      obtain ⟨others, rfl⟩ := isPrefix_of_valueParts read
      refine ⟨text.map reread ++ beyond ++ (more ++ others), by simp only [List.append_assoc], ?_⟩
      exact .unclosed quote inner mem mark other

def fallsAway (x : Char) : Bool := isBlank x && !isLineEnd x

theorem exists_dropWhile_escapeAll (text rest : List Char) :
    ∃ blanks tail, (∀ x ∈ blanks, isBlank x) ∧ text = blanks ++ tail ∧
      (escapeAll text ++ '\n' :: rest).dropWhile fallsAway = escapeAll tail ++ '\n' :: rest := by
  induction text with
  | nil => exact ⟨[], [], by simp, rfl, List.dropWhile_cons_of_neg (by decide)⟩
  | cons x text ih =>
    have spelled :
        escapeAll (x :: text) ++ '\n' :: rest = escape x ++ (escapeAll text ++ '\n' :: rest) := by
      rw [escapeAll_cons, List.append_assoc]
    by_cases away : escape x = [x] ∧ fallsAway x
    · obtain ⟨raw, away⟩ := away
      obtain ⟨blanks, tail, all, rfl, dropped⟩ := ih
      refine ⟨x :: blanks, tail, List.forall_mem_cons.mpr ⟨(Bool.and_eq_true_iff.mp away).1, all⟩,
        rfl, ?_⟩
      rw [spelled, raw, List.singleton_append, List.dropWhile_cons_of_pos away, dropped]
    · refine ⟨[], x :: text, by simp, rfl, ?_⟩
      rw [spelled]
      obtain ⟨raw, -⟩ | ⟨e, letter, -⟩ | ⟨number, -⟩ := escape_cases x
      · rw [raw]
        exact List.dropWhile_cons_of_neg fun h => away ⟨raw, h⟩
      · rw [letter]
        exact List.dropWhile_cons_of_neg (by decide)
      · rw [number]
        exact List.dropWhile_cons_of_neg (by decide)

theorem exists_readValue_eq (h : c.rest = '=' :: (escapeAll text ++ '\n' :: rest)) :
    ∃ blanks tail start, (∀ x ∈ blanks, isBlank x) ∧ text = blanks ++ tail ∧
      start.rest = escapeAll tail ++ '\n' :: rest ∧
      readValue c = valueParts (start.rest.length + 1) true [] start := by
  obtain ⟨blanks, tail, all, split, dropped⟩ := exists_dropWhile_escapeAll text rest
  refine ⟨blanks, tail, c.next.skipWhile fallsAway, all, split, ?_, rfl⟩
  rw [Cursor.rest_skipWhile, Cursor.rest_next_of_rest h]
  exact dropped

def LineReadAs (text value : List Char) : Prop :=
  ∃ blanks tail, (∀ x ∈ blanks, isBlank x) ∧ text = blanks ++ tail ∧ ReadAs tail value

theorem lineReadAs_of_readValue (follows : Follows rest)
    (h : c.rest = '=' :: (escapeAll text ++ '\n' :: rest))
    (read : readValue c = .ok (value, after)) : LineReadAs text value := by
  obtain ⟨blanks, tail, start, all, split, behind, eq⟩ := exists_readValue_eq h
  have enough : tail.length < start.rest.length + 1 := by
    have long := length_le_length_escapeAll tail
    rw [behind, List.length_append]
    omega
  obtain ⟨u, rfl, more⟩ := readAs_of_valueParts follows enough behind (eq ▸ read)
  exact ⟨blanks, tail, all, split, more⟩

end Stowage.Ini
