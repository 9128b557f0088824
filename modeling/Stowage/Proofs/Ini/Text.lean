import Mathlib.Data.List.Basic
import Stowage.Ini.Reader
import Stowage.Ini.Writer
import Stowage.Proofs.Outcome

/-! Escaped text is read back character by character. Two of the escapes that are written are not
among those that are read: a vertical tab and a form feed come back as the letters `v` and `f`. -/
namespace Stowage.Ini

namespace Cursor

@[simp]
theorem rest_enter (rest : List Char) (line column : Nat) :
    (enter rest line column).rest = rest := by
  unfold enter
  split <;> rfl

@[simp]
theorem rest_next (c : Cursor) : c.next.rest = c.rest.drop 1 := rest_enter ..

theorem head?_of_rest {c : Cursor} {x : Char} {rest : List Char} (h : c.rest = x :: rest) :
    c.head? = some x :=
  congrArg List.head? h

theorem head?_of_rest_nil {c : Cursor} (h : c.rest = []) : c.head? = none := congrArg List.head? h

theorem rest_next_of_rest {c : Cursor} {x : Char} {rest : List Char} (h : c.rest = x :: rest) :
    c.next.rest = rest := by
  rw [rest_next, h]
  rfl

theorem skip_succ (c : Cursor) (n : Nat) : c.skip (n + 1) = (c.skip n).next := by
  rw [skip, List.range_succ, List.foldl_append]
  rfl

theorem skip_add (c : Cursor) (m n : Nat) : c.skip (m + n) = (c.skip m).skip n := by
  induction n with
  | zero => rfl
  | succ n ih => rw [← Nat.add_assoc, skip_succ, ih, skip_succ]

@[simp]
theorem rest_skip (c : Cursor) (n : Nat) : (c.skip n).rest = c.rest.drop n := by
  induction n with
  | zero => rfl
  | succ n ih => rw [skip_succ, rest_next, ih, List.drop_drop]

theorem rest_skip_of_rest {c : Cursor} {front rest : List Char} (h : c.rest = front ++ rest) :
    (c.skip front.length).rest = rest := by
  rw [rest_skip, h, List.drop_left]

@[simp]
theorem rest_skipWhile (c : Cursor) (p : Char → Bool) : (c.skipWhile p).rest = c.rest.dropWhile p :=
  calc (c.skipWhile p).rest
    _ = (c.rest.takeWhile p ++ c.rest.dropWhile p).drop (c.rest.takeWhile p).length := by
      rw [skipWhile, rest_skip, List.takeWhile_append_dropWhile]
    _ = c.rest.dropWhile p := List.drop_left

end Cursor

variable {ends : List (Option Char)} {c last : Cursor} {x e : Char} {cs rest done : List Char}
    {fuel : Nat}

theorem textUntil_end (h : c.head? ∈ ends) :
    textUntil ends (fuel + 1) done c = .ok (done.reverse, c) := by
  rw [textUntil, if_pos (List.contains_iff_mem.mpr h)]
  rfl

theorem textUntil_plain (inside : some x ∉ ends) (plain : x ≠ '\\') (h : c.rest = x :: rest) :
    textUntil ends (fuel + 1) done c = textUntil ends fuel (x :: done) c.next := by
  rw [textUntil, present, Cursor.head?_of_rest h, if_neg (by simpa using inside)]
  simp only [bind, Except.bind, if_pos plain]

theorem textUntil_nil (h : c.rest = []) (inside : none ∉ ends) :
    textUntil ends (fuel + 1) done c = .error ⟨.unexpectedEnd ends, c⟩ := by
  rw [textUntil, present, Cursor.head?_of_rest_nil h, if_neg (by simpa using inside)]
  rfl

theorem textUntil_escaped (inside : some '\\' ∉ ends) (h : c.rest = '\\' :: e :: rest)
    (read : escaped ends c.next = .ok (cs, last)) :
    textUntil ends (fuel + 1) done c = textUntil ends fuel (cs.reverse ++ done) last.next := by
  have more : c.next.rest.isEmpty = false := by rw [Cursor.rest_next_of_rest h]; rfl
  rw [textUntil, present, Cursor.head?_of_rest h, if_neg (by simpa using inside)]
  simp only [bind, Except.bind, more, read]
  rfl

def reread (x : Char) : Char := if x = '\x0b' then 'v' else if x = '\x0c' then 'f' else x

/-- The letter that stands for a character when it is read behind a backslash. -/
def Stands (e x : Char) : Prop :=
  simpleEscape? e = some x ∨ simpleEscape? e = none ∧ e ≠ '\n' ∧ e ≠ 'x' ∧ e = x

instance (e x : Char) : Decidable (Stands e x) := inferInstanceAs (Decidable (_ ∨ _))

theorem escaped_letter (h : c.rest = e :: rest) (stands : Stands e x) :
    escaped ends c = .ok ([x], c) := by
  rw [escaped, present, Cursor.head?_of_rest h]
  obtain simple | ⟨unknown, line, hex, rfl⟩ := stands
  · simp only [bind, Except.bind, simple]
    rfl
  · simp only [bind, Except.bind, unknown, if_neg line, if_pos hex]
    rfl

theorem codeChar?_hexEscape :
    ∀ n < 128, codeChar? ['0', '0', hexDigit (n / 16), hexDigit n] = some (Char.ofNat n) := by
  decide

theorem hexDigit_ne_backslash : ∀ n < 128, hexDigit n ≠ '\\' := by decide

theorem codeChars_of_plain {xs : List Char} (plain : ∀ y ∈ xs, y ≠ '\\')
    (h : c.rest = x :: xs ++ rest) :
    codeChars ends xs.length c = .ok (xs, c.skip xs.length) := by
  induction xs generalizing c x with
  | nil => rfl
  | cons y xs ih =>
    obtain ⟨first, others⟩ := List.forall_mem_cons.mp plain
    have next : c.next.rest = y :: xs ++ rest := Cursor.rest_next_of_rest h
    have read : codeChars ends xs.length c.next = .ok (xs, c.next.skip xs.length) := ih others next
    have skipped : c.next.skip xs.length = c.skip (xs.length + 1) := by
      rw [Nat.add_comm, Cursor.skip_add]; rfl
    rw [List.length_cons, codeChars, present, Cursor.head?_of_rest next]
    simp only [bind, Except.bind, if_neg first, decide_eq_false first, Bool.false_and,
      Bool.false_eq_true, if_false, read, skipped]
    rfl

theorem escaped_hex (small : x.toNat < 128) (h : '\\' :: c.rest = hexEscape x ++ rest) :
    escaped ends c = .ok ([x], c.skip 4) := by
  obtain ⟨-, chars⟩ := List.cons.inj h
  have plain : ∀ y ∈ ['0', '0', hexDigit (x.toNat / 16), hexDigit x.toNat], y ≠ '\\' := by
    have low := hexDigit_ne_backslash x.toNat small
    have high := hexDigit_ne_backslash (x.toNat / 16) (by omega)
    simp [low, high]
  have read : codeChars ends 4 c = .ok (['0', '0', hexDigit (x.toNat / 16), hexDigit x.toNat],
      c.skip 4) :=
    codeChars_of_plain plain chars
  have code := codeChar?_hexEscape x.toNat small
  rw [escaped, present, Cursor.head?_of_rest chars]
  simp only [bind, Except.bind, read, code, Char.ofNat_toNat]
  rfl

def lettered : List Char := ['\\', '\x00', '\x07', '\x08', '\x0c', '\x0b', '\n', '\t', '\r']

theorem escape_of_lettered : ∀ x ∈ lettered, ∃ e, escape x = ['\\', e] ∧ Stands e (reread x) := by
  simp only [lettered, List.forall_mem_cons]
  exact ⟨⟨'\\', by decide⟩, ⟨'0', by decide⟩, ⟨'a', by decide⟩, ⟨'b', by decide⟩, ⟨'f', by decide⟩,
    ⟨'v', by decide⟩, ⟨'n', by decide⟩, ⟨'t', by decide⟩, ⟨'r', by decide⟩, fun x hx =>
    absurd hx List.not_mem_nil⟩

theorem escape_of_not_lettered (h : x ∉ lettered) :
    escape x = if x.toNat < 0x20 || x.toNat = 0x7f then hexEscape x else [x] := by
  simp only [lettered, List.mem_cons, List.not_mem_nil, or_false, not_or] at h
  simp only [escape, h, if_false]

theorem escape_cases (x : Char) :
    (escape x = [x] ∧ x ≠ '\\' ∧ x ≠ '\n' ∧ x ≠ '\r' ∧ reread x = x) ∨
    (∃ e, escape x = ['\\', e] ∧ Stands e (reread x)) ∨
    (escape x = hexEscape x ∧ x.toNat < 128 ∧ reread x = x) := by
  by_cases h : x ∈ lettered
  · obtain ⟨e, spelled, stands⟩ := escape_of_lettered x h
    exact .inr (.inl ⟨e, spelled, stands⟩)
  have spelled := escape_of_not_lettered h
  simp only [lettered, List.mem_cons, List.not_mem_nil, or_false, not_or] at h
  have same : reread x = x := by simp only [reread, h, if_false]
  split at spelled
  case isTrue control =>
    simp only [Bool.or_eq_true, decide_eq_true_eq] at control
    exact .inr (.inr ⟨spelled, by omega, same⟩)
  case isFalse =>
    exact .inl ⟨spelled, h.1, h.2.2.2.2.2.2.1, h.2.2.2.2.2.2.2.2, same⟩

theorem textUntil_escape (inside : (escape x).head? ∉ ends) (h : c.rest = escape x ++ rest) :
    textUntil ends (fuel + 1) done c = textUntil ends fuel (reread x :: done)
    (c.skip (escape x).length) := by
  obtain ⟨spelled, plain, -, -, same⟩ | ⟨e, spelled, stands⟩ | ⟨spelled, small, same⟩ :=
    escape_cases x
  · rw [spelled] at inside h ⊢
    rw [same]
    exact textUntil_plain inside plain h
  · rw [spelled] at inside h ⊢
    exact textUntil_escaped inside h (escaped_letter (Cursor.rest_next_of_rest h) stands)
  · rw [spelled] at inside h ⊢
    have next : '\\' :: c.next.rest = hexEscape x ++ rest := by rw [Cursor.rest_next_of_rest h]; rfl
    rw [same]
    exact textUntil_escaped inside h (escaped_hex small next)

theorem escapeAll_cons (x : Char) (cs : List Char) :
    escapeAll (x :: cs) = escape x ++ escapeAll cs := List.flatMap_cons

theorem escapeAll_append (front back : List Char) :
    escapeAll (front ++ back) = escapeAll front ++ escapeAll back :=
  List.flatMap_append

theorem textUntil_escapeAll (inside : ∀ x ∈ cs, (escape x).head? ∉ ends)
    (h : c.rest = escapeAll cs ++ rest) :
    textUntil ends (fuel + cs.length) done c =
      textUntil ends fuel ((cs.map reread).reverse ++ done) (c.skip (escapeAll cs).length) := by
  induction cs generalizing c done with
  | nil => rfl
  | cons x cs ih =>
    obtain ⟨first, others⟩ := List.forall_mem_cons.mp inside
    rw [escapeAll_cons, List.append_assoc] at h
    rw [List.length_cons, ← Nat.add_assoc, textUntil_escape first h,
      ih others (Cursor.rest_skip_of_rest h), escapeAll_cons, List.length_append,
      Cursor.skip_add, List.map_cons, List.reverse_cons, List.append_assoc]
    rfl

theorem textUntil_raw (inside : ∀ x ∈ cs, some x ∉ ends) (plain : '\\' ∉ cs)
    (h : c.rest = cs ++ rest) :
    textUntil ends (fuel + cs.length) done c = textUntil ends fuel (cs.reverse ++ done)
    (c.skip cs.length) := by
  induction cs generalizing c done with
  | nil => rfl
  | cons x cs ih =>
    obtain ⟨first, others⟩ := List.forall_mem_cons.mp inside
    obtain ⟨other, plain⟩ := not_or.mp (List.mem_cons.not.mp plain)
    have next : c.next.rest = cs ++ rest := Cursor.rest_next_of_rest h
    rw [List.length_cons, ← Nat.add_assoc, textUntil_plain first (Ne.symm other) h,
      ih others plain next, Nat.add_comm cs.length, Cursor.skip_add, List.reverse_cons,
      List.append_assoc]
    rfl

theorem length_le_length_escapeAll (cs : List Char) : cs.length ≤ (escapeAll cs).length := by
  induction cs with
  | nil => exact Nat.le_refl _
  | cons x cs ih =>
    have pos : 0 < (escape x).length := by
      obtain ⟨spelled, -⟩ | ⟨e, spelled, -⟩ | ⟨spelled, -⟩ :=
        escape_cases x <;> rw [spelled] <;> exact Nat.succ_pos _
    rw [escapeAll_cons, List.length_append, List.length_cons]
    exact Nat.add_comm _ 1 ▸ Nat.add_le_add pos ih

theorem readUntil_escapeAll (inside : ∀ x ∈ cs, (escape x).head? ∉ ends)
    (h : c.rest = escapeAll cs ++ rest) (ending : rest.head? ∈ ends) :
    readUntil ends c = .ok (cs.map reread, c.skip (escapeAll cs).length) := by
  have long := length_le_length_escapeAll cs
  obtain ⟨fuel, enough⟩ : ∃ fuel, c.rest.length + 1 = fuel + 1 + cs.length := by
    rw [h, List.length_append]
    exact ⟨(escapeAll cs).length + rest.length - cs.length, by omega⟩
  have stop : (c.skip (escapeAll cs).length).head? ∈ ends := by
    rwa [Cursor.head?, Cursor.rest_skip_of_rest h]
  rw [readUntil, enough, textUntil_escapeAll inside h, textUntil_end stop, List.append_nil,
    List.reverse_reverse]

theorem isPrefix_of_textUntil {text : List Char} {after : Cursor}
    (h : textUntil ends fuel done c = .ok (text, after)) :
    done.reverse <+: text := by
  induction fuel generalizing done c with
  | zero =>
    cases h
    exact List.prefix_rfl
  | succ fuel ih =>
    have longer (front : List Char) {last : Cursor} (h : textUntil ends fuel (front ++ done) last =
        .ok (text, after)) :
        done.reverse <+: text := by
      have more := ih h
      rw [List.reverse_append] at more
      exact (List.prefix_append _ _).trans more
    rw [textUntil] at h
    split at h
    · cases h
      exact List.prefix_rfl
    obtain ⟨x, -, h⟩ := bind_eq_ok.mp h
    split at h
    · exact longer [x] h
    split at h
    · exact longer ['\\'] h
    · obtain ⟨⟨cs, last⟩, -, h⟩ := bind_eq_ok.mp h
      exact longer cs.reverse h

/-- An end that does not come within the escaped text is looked for in what follows it. -/
theorem isPrefix_of_readUntil {ws text : List Char} {after : Cursor}
    (inside : ∀ x ∈ cs, (escape x).head? ∉ ends) (inside' : ∀ x ∈ ws, some x ∉ ends)
    (plain : '\\' ∉ ws) (h : c.rest = escapeAll cs ++ (ws ++ rest))
    (read : readUntil ends c = .ok (text, after)) :
    cs.map reread ++ ws <+: text ∧ (none ∉ ends → rest ≠ []) := by
  have long := length_le_length_escapeAll cs
  obtain ⟨fuel, enough⟩ : ∃ fuel, c.rest.length + 1 = fuel + 1 + ws.length + cs.length := by
    rw [h, List.length_append, List.length_append]
    exact ⟨(escapeAll cs).length + rest.length - cs.length, by omega⟩
  have next : (c.skip (escapeAll cs).length).rest = ws ++ rest := Cursor.rest_skip_of_rest h
  rw [readUntil, enough, textUntil_escapeAll inside h, textUntil_raw inside' plain next] at read
  refine ⟨?_, fun inner empty => ?_⟩
  · have more := isPrefix_of_textUntil read
    rwa [List.append_nil, List.reverse_append, List.reverse_reverse, List.reverse_reverse] at more
  · have last : ((c.skip (escapeAll cs).length).skip ws.length).rest = [] := by
      rw [Cursor.rest_skip, next, empty, List.append_nil, List.drop_length]
    rw [textUntil_nil last inner] at read
    cases read

end Stowage.Ini
