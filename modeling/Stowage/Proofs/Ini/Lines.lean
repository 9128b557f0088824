import Mathlib.Data.Bool.AllAny
import Stowage.Proofs.Ini.Verbatim

/-! Printed settings are read line by line: a heading in one part, an item in two, and blank lines
in passing. -/
namespace Stowage.Ini

variable {c : Cursor} {p : Progress} {name key text rest : List Char} {x : Char} {fuel : Nat}

def wordCharacters : List Char := "abcdefghijklmnopqrstuvwxyz_".toList

/-- A name that needs no escapes and is not mistaken for anything else. -/
def IsWord (name : List Char) : Prop := name ≠ [] ∧ ∀ x ∈ name, x ∈ wordCharacters

instance (name : List Char) : Decidable (IsWord name) :=
  decidable_of_iff (name ≠ [] ∧ name.all (· ∈ wordCharacters)) (and_congr_right fun _ =>
    List.all_iff_forall_prop)

theorem escape_of_mem_wordCharacters : ∀ x ∈ wordCharacters, escape x = [x] ∧ reread x = x :=
  List.all_iff_forall_prop.mp (by decide)

theorem isMark_of_mem_wordCharacters : ∀ x ∈ wordCharacters, isMark x ∧ ¬ IsQuote x ∧
    isBlank x = false :=
  List.all_iff_forall_prop.mp (by decide)

theorem mem_wordCharacters_apart :
    ∀ x ∈ wordCharacters, x ∉ ['\\', ';', '#', '[', ']', '=', ':', ' ', '\t', '\n', '\r'] :=
  List.all_iff_forall_prop.mp (by decide)

namespace IsWord

theorem escapeAll_eq (h : IsWord name) : escapeAll name = name := by
  have each : ∀ x ∈ name, escape x = [x] :=
    fun x hx => (escape_of_mem_wordCharacters x (h.2 x hx)).1
  rw [escapeAll, List.flatMap_congr each, List.flatMap_singleton']

theorem trim_eq (h : IsWord name) : trim name = name :=
  trim_of_not_isBlank fun x hx => (isMark_of_mem_wordCharacters x (h.2 x hx)).2.2

theorem readUntil_eq (h : IsWord name) {e : Char} (ends : List (Option Char)) (mem : some e ∈ ends)
    (closing : wordCharacters.all (some · ∉ ends)) (spelled : c.rest = name ++ e :: rest) :
    readUntil ends c = .ok (name, c.skip name.length) := by
  have inside : ∀ x ∈ name, (escape x).head? ∉ ends := fun x hx => by
    rw [(escape_of_mem_wordCharacters x (h.2 x hx)).1]
    exact List.all_iff_forall_prop.mp closing x (h.2 x hx)
  have same : name.map reread = name :=
    (List.map_congr_left fun x hx => (escape_of_mem_wordCharacters x (h.2 x hx)).2).trans
      (List.map_id _)
  have spelled' : c.rest = escapeAll name ++ e :: rest := by rw [h.escapeAll_eq, spelled]
  rw [readUntil_escapeAll inside spelled' mem, same, h.escapeAll_eq]

end IsWord

theorem isIndent_of_not_isBlank (h : isBlank x = false) : isIndent x = false := by
  refine Bool.eq_false_iff.mpr fun indent => ?_
  obtain rfl | rfl : x = ' ' ∨ x = '\t' := by simpa [isIndent] using indent
  · exact absurd h (by decide)
  · exact absurd h (by decide)

theorem isLineEnd_of_not_isBlank (h : isBlank x = false) : isLineEnd x = false := by
  refine Bool.eq_false_iff.mpr fun ending => ?_
  obtain rfl | rfl : x = '\n' ∨ x = '\r' := by simpa [isLineEnd] using ending
  · exact absurd h (by decide)
  · exact absurd h (by decide)

theorem fromPart_cons (h : x ≠ '\n') (rest : List Char) : fromPart (x :: rest) = x :: rest :=
  List.dropWhile_cons_of_neg (by simpa using h)

theorem fromPart_word (h : IsWord name) (rest : List Char) :
    fromPart (name ++ rest) = name ++ rest := by
  obtain ⟨x, more, rfl⟩ := List.exists_cons_of_ne_nil h.1
  have apart := mem_wordCharacters_apart x (h.2 x List.mem_cons_self)
  exact fromPart_cons (fun e => apart (by simp [e])) _

theorem rest_skipBlanks (enough : c.rest.length < fuel)
    (shown : ∀ x ∈ (fromPart c.rest).head?, isBlank x = false) :
    (skipBlanks fuel c).rest = fromPart c.rest := by
  induction fuel generalizing c with
  | zero => exact absurd enough (Nat.not_lt_zero _)
  | succ fuel ih =>
    obtain ⟨text, line, column⟩ := c
    cases text with
    | nil => rfl
    | cons x text =>
      by_cases h : x = '\n'
      · subst h
        have dropped : fromPart ('\n' :: text) = fromPart text :=
          List.dropWhile_cons_of_pos (by decide)
        rw [dropped] at shown ⊢
        have next : (Cursor.next ⟨'\n' :: text, line, column⟩).rest = text := Cursor.rest_next _
        -- No line is indented: behind a line end stands another one, or a character that shows.
        have flush : startsIndent (Cursor.next ⟨'\n' :: text, line, column⟩) = false := by
          rw [startsIndent, Cursor.head?, next]
          cases text with
          | nil => rfl
          | cons y text =>
            by_cases h : y = '\n'
            · exact h ▸ rfl
            · exact isIndent_of_not_isBlank (shown y (by rw [fromPart_cons h]; rfl))
        have step : skipBlanks (fuel + 1) ⟨'\n' :: text, line, column⟩ =
            skipBlanks fuel (Cursor.next ⟨'\n' :: text, line, column⟩) := by
          rw [skipBlanks]
          simp only [Cursor.head?, List.head?_cons, flush]
          rfl
        rw [step, ih (by rw [next]; exact Nat.lt_of_succ_lt_succ enough) (by rwa [next]), next]
      · rw [fromPart_cons h] at shown ⊢
        have shown := shown x rfl
        have flush := isLineEnd_of_not_isBlank shown
        rw [skipBlanks]
        simp only [Cursor.head?, List.head?_cons, flush, shown]
        rfl

theorem rest_toItem (shown : ∀ x ∈ (fromPart c.rest).head?, isBlank x = false) :
    c.toItem.rest = fromPart c.rest :=
  rest_skipBlanks (Nat.lt_succ_self _) shown

theorem readParts_succ (head : c.head? = some x) (flush : isIndent x = false) :
    readParts (fuel + 1) p c = (readPart p c x).bind fun (p, after) => readParts fuel p after := by
  rw [readParts, head]
  simp only [flush]
  rfl

theorem Follows.shown (h : Follows rest) : ∀ x ∈ (fromPart rest).head?, isBlank x = false := by
  intro x hx
  have mark := (h x hx).1
  simp only [isMark, Bool.and_eq_true, Bool.not_eq_true'] at mark
  exact mark.2

theorem fromPart_newline (rest : List Char) : fromPart ('\n' :: rest) = fromPart rest :=
  List.dropWhile_cons_of_pos (by decide)

def Progress.head (p : Progress) (name : List Char) : Progress :=
  { p with sections := ⟨some name, []⟩ :: p.sections, current := some name }

def Progress.put (p : Progress) (item : IniItem) : Progress :=
  { p with sections := addItem p.current item p.sections, key := [] }

theorem readParts_heading (word : IsWord name) (follows : Follows rest)
    (h : c.rest = '[' :: (name ++ ']' :: '\n' :: rest)) :
    ∃ after, after.rest = fromPart rest ∧
    readParts (fuel + 1) p c = readParts fuel (p.head name) after := by
  have next : c.next.rest = name ++ ']' :: ('\n' :: rest) := Cursor.rest_next_of_rest h
  have read := word.readUntil_eq [some ']'] List.mem_cons_self (by decide) next
  have behind : (c.next.skip name.length).next.rest = '\n' :: rest :=
    Cursor.rest_next_of_rest (Cursor.rest_skip_of_rest next)
  have part : readPart p c '[' = .ok (p.head name, (c.next.skip name.length).next.toItem) := by
    rw [readPart, if_neg (by decide), if_pos rfl, readHeading, read]
    simp only [bind, Except.bind, word.trim_eq]
    rfl
  refine ⟨(c.next.skip name.length).next.toItem, ?_, ?_⟩
  · rw [rest_toItem, behind, fromPart_newline]
    rw [behind, fromPart_newline]
    exact follows.shown
  · rw [readParts_succ (Cursor.head?_of_rest h) (by decide), part]
    rfl

theorem readPart_key (word : IsWord key) (h : c.rest = key ++ '=' :: rest) :
    ∃ x after, c.head? = some x ∧ isIndent x = false ∧ after.rest = '=' :: rest ∧
      readPart p c x = .ok ({ p with key }, after) := by
  obtain ⟨x, more, rfl⟩ := List.exists_cons_of_ne_nil word.1
  have letter := word.2 x List.mem_cons_self
  have apart := mem_wordCharacters_apart x letter
  simp only [List.mem_cons, List.not_mem_nil, or_false, not_or] at apart
  have read := word.readUntil_eq keyEnds List.mem_cons_self (by decide) h
  have shown := (isMark_of_mem_wordCharacters x letter).2.2
  have behind : (c.skip (x :: more).length).rest = '=' :: rest := Cursor.rest_skip_of_rest h
  have stays : fromPart ('=' :: rest) = '=' :: rest := fromPart_cons (by decide) rest
  refine ⟨x, (c.skip (x :: more).length).toItem, Cursor.head?_of_rest h,
    isIndent_of_not_isBlank shown, ?_, ?_⟩
  · rw [rest_toItem, behind, stays]
    rw [behind, stays]
    rintro _ ⟨⟩
    decide
  · have comment : (x = ';' || x = '#') = false := by simp [apart]
    have sign : (x = '=' || x = ':') = false := by simp [apart]
    simp only [readPart, comment, sign, isLineEnd_of_not_isBlank shown, if_neg apart.2.2.2.1,
      readKey, read, bind, Except.bind, word.trim_eq]
    rfl

theorem readParts_item (p : Progress) (fuel : Nat) (word : IsWord key)
    (h : c.rest = key ++ '=' :: rest) :
    ∃ sign, sign.rest = '=' :: rest ∧ readParts (fuel + 2) p c =
      (readValue sign).bind fun (value, after) =>
      readParts fuel (p.put ⟨key, value⟩) after.toItem := by
  obtain ⟨x, sign, head, flush, behind, part⟩ := readPart_key (p := p) word h
  have full : key.isEmpty = false := List.isEmpty_eq_false_iff.mpr word.1
  refine ⟨sign, behind, ?_⟩
  rw [readParts_succ head flush, part]
  change readParts (fuel + 1) { p with key } sign = _
  rw [readParts_succ (Cursor.head?_of_rest behind) (by decide), readPart, if_neg (by decide),
    if_neg (by decide), if_pos (by decide), readItem, full]
  cases readValue sign <;> rfl

theorem readParts_verbatim (word : IsWord key) (verbatim : Verbatim text) (follows : Follows rest)
    (h : c.rest = key ++ '=' :: (escapeAll text ++ '\n' :: rest)) :
    ∃ after, after.rest = fromPart rest ∧
    readParts (fuel + 2) p c = readParts fuel (p.put ⟨key, text⟩) after := by
  obtain ⟨sign, behind, step⟩ := readParts_item p fuel word h
  obtain ⟨after, rest_eq, read⟩ := verbatim.readValue_eq behind
  refine ⟨after.toItem, ?_, by rw [step, read]; rfl⟩
  rw [rest_toItem, rest_eq, fromPart_newline]
  rw [rest_eq, fromPart_newline]
  exact follows.shown

theorem exists_put_of_readParts {q : Progress} (word : IsWord key) (follows : Follows rest)
    (h : c.rest = key ++ '=' :: (escapeAll text ++ '\n' :: rest))
    (read : readParts (fuel + 2) p c = .ok q) :
    ∃ value after, LineReadAs text value ∧ readParts fuel (p.put ⟨key, value⟩) after = .ok q := by
  obtain ⟨sign, behind, step⟩ := readParts_item p fuel word h
  rw [step] at read
  obtain ⟨⟨value, after⟩, first, read⟩ := bind_eq_ok.mp read
  exact ⟨value, after.toItem, lineReadAs_of_readValue follows behind first, read⟩

inductive Line
  | blank
  | heading (name : List Char)
  | item (item : IniItem)

namespace Line

def spell : Line → List Char
  | blank => ['\n']
  | heading name => ['['] ++ escapeAll name ++ [']', '\n']
  | item i => itemLine i

def parts : Line → Nat
  | blank => 0
  | heading _ => 1
  | item _ => 2

def read (p : Progress) : Line → Progress
  | blank => p
  | heading name => p.head name
  | item i => p.put i

def Plain : Line → Prop
  | blank => True
  | heading name => IsWord name
  | item i => IsWord i.key

/-- An item whose value is read as it was written, or no item. -/
def Faithful : Line → Prop
  | item i => Verbatim i.value
  | _ => True

end Line

variable {lines more : List Line}

def textOf (lines : List Line) : List Char := lines.flatMap Line.spell

theorem textOf_cons (l : Line) (lines : List Line) :
    textOf (l :: lines) = l.spell ++ textOf lines := List.flatMap_cons

theorem textOf_heading (word : IsWord name) (lines : List Line) :
    textOf (.heading name :: lines) = '[' :: (name ++ ']' :: '\n' :: textOf lines) := by
  rw [textOf_cons, Line.spell, word.escapeAll_eq]
  simp

theorem textOf_item {item : IniItem} (word : IsWord item.key) (lines : List Line) :
    textOf (.item item :: lines) =
      item.key ++ '=' :: (escapeAll item.value ++ '\n' :: textOf lines) := by
  rw [textOf_cons, Line.spell, itemLine, word.escapeAll_eq]
  simp

theorem follows_textOf (plain : ∀ l ∈ lines, l.Plain) : Follows (textOf lines) := by
  induction lines with
  | nil => exact fun x hx => absurd hx (by simp [textOf, fromPart])
  | cons l lines ih =>
    obtain ⟨first, others⟩ := List.forall_mem_cons.mp plain
    cases l with
    | blank => exact ih others
    | heading name =>
      rw [textOf_heading first]
      rintro _ ⟨⟩
      decide
    | item i =>
      obtain ⟨x, more, key⟩ := List.exists_cons_of_ne_nil first.1
      have letter := first.2 x (key ▸ List.mem_cons_self)
      have apart := mem_wordCharacters_apart x letter
      simp only [List.mem_cons, List.not_mem_nil, or_false, not_or] at apart
      obtain ⟨mark, quote, -⟩ := isMark_of_mem_wordCharacters x letter
      rw [textOf_item first, Follows, fromPart_word first, key]
      rintro _ ⟨⟩
      exact ⟨mark, quote, apart.1⟩

/-- Lines that are faithful are read as what they say, up to whatever follows. -/
theorem readParts_textOf (p : Progress) (fuel : Nat) (plain : ∀ l ∈ lines ++ more, l.Plain)
    (faithful : ∀ l ∈ lines, l.Faithful) (h : c.rest = fromPart (textOf (lines ++ more))) :
    ∃ after, after.rest = fromPart (textOf more) ∧
      readParts (fuel + (lines.map Line.parts).sum) p c =
      readParts fuel (lines.foldl Line.read p) after := by
  induction lines generalizing p c with
  | nil => exact ⟨c, h, rfl⟩
  | cons l lines ih =>
    rw [List.cons_append] at plain h
    obtain ⟨first, others⟩ := List.forall_mem_cons.mp faithful
    obtain ⟨named, plain'⟩ := List.forall_mem_cons.mp plain
    have follows := follows_textOf plain'
    rw [List.map_cons, List.sum_cons, Nat.add_comm l.parts, ← Nat.add_assoc, List.foldl_cons]
    cases l with
    | blank =>
      exact ih p plain' others h
    | heading name =>
      rw [textOf_heading named, fromPart_cons (by decide)] at h
      obtain ⟨after, behind, step⟩ := readParts_heading (p := p) named follows h
      obtain ⟨last, ending, read⟩ := ih (p.head name) plain' others behind
      exact ⟨last, ending, step.trans read⟩
    | item i =>
      rw [textOf_item named, fromPart_word named] at h
      obtain ⟨after, behind, step⟩ := readParts_verbatim (p := p) named first follows h
      obtain ⟨last, ending, read⟩ := ih (p.put i) plain' others behind
      exact ⟨last, ending, step.trans read⟩

end Stowage.Ini
