import Stowage.Proofs.Ini.Value
import Stowage.Proofs.Path.Text

/-! Which values are read as they were written. -/
namespace Stowage.Ini

open Stowage.Path

variable {c : Cursor} {text rest value : List Char}

/-- No blank at either end, no quote in front, and neither of the controls that come back as
letters. -/
structure Verbatim (text : List Char) : Prop where
  start : ∀ x ∈ text.head?, isBlank x = false ∧ ¬ IsQuote x
  ending : ∀ x ∈ text.getLast?, isBlank x = false
  tab : '\x0b' ∉ text
  feed : '\x0c' ∉ text

instance (text : List Char) : Decidable (Verbatim text) :=
  decidable_of_iff (text.head?.all (fun x => isBlank x = false ∧ ¬ IsQuote x) ∧
      text.getLast?.all (isBlank · = false) ∧ '\x0b' ∉ text ∧ '\x0c' ∉ text) <| by
    simp only [Option.all_eq_true, decide_eq_true_eq]
    exact ⟨fun h => ⟨h.1, h.2.1, h.2.2.1, h.2.2.2⟩, fun h => ⟨h.start, h.ending, h.tab, h.feed⟩⟩

theorem map_reread_eq_self (tab : '\x0b' ∉ text) (feed : '\x0c' ∉ text) :
    text.map reread = text := by
  have same : ∀ x ∈ text, reread x = id x := fun x hx => by
    have tabless : x ≠ '\x0b' := fun e => tab (e ▸ hx)
    have feedless : x ≠ '\x0c' := fun e => feed (e ▸ hx)
    rw [reread, if_neg tabless, if_neg feedless]
    rfl
  exact (List.map_congr_left same).trans (List.map_id _)

theorem Verbatim.trim_eq (h : Verbatim text) : trim text = text :=
  trim_eq_self (fun x hx => (h.start x hx).1) h.ending

theorem Verbatim.readValue_eq (h : Verbatim text)
    (spelled : c.rest = '=' :: (escapeAll text ++ '\n' :: rest)) :
    ∃ after, after.rest = '\n' :: rest ∧ readValue c = .ok (text, after) := by
  obtain ⟨blanks, tail, start, all, rfl, behind, eq⟩ := exists_readValue_eq spelled
  have empty : blanks = [] := by
    cases blanks with
    | nil => rfl
    | cons x blanks =>
      have shown := (h.start x rfl).1
      rw [all x List.mem_cons_self] at shown
      cases shown
  subst empty
  refine ⟨start.skip (escapeAll tail).length, Cursor.rest_skip_of_rest behind, ?_⟩
  rw [eq, valueParts_unquoted (fun x hx => (h.start x hx).2) behind, if_pos rfl,
    map_reread_eq_self h.tab h.feed]
  exact congrArg (fun v => Except.ok (v, _)) h.trim_eq

theorem reread_cases (x : Char) : (x = '\x0b' ∧ reread x = 'v') ∨ (x = '\x0c' ∧ reread x = 'f') ∨
    reread x = x := by
  unfold reread
  split_ifs with tab feed
  · exact .inl ⟨tab, rfl⟩
  · exact .inr (.inl ⟨feed, rfl⟩)
  · exact .inr (.inr rfl)

theorem reread_eq_quote {q x : Char} (quote : IsQuote q) (h : reread x = q) : x = q := by
  obtain ⟨-, letter⟩ | ⟨-, letter⟩ | same := reread_cases x
  · obtain rfl | rfl := quote <;> exact absurd (letter.symm.trans h) (by decide)
  · obtain rfl | rfl := quote <;> exact absurd (letter.symm.trans h) (by decide)
  · exact same.symm.trans h

theorem isQuote_reread (x : Char) : IsQuote (reread x) ↔ IsQuote x := by
  obtain ⟨rfl, -⟩ | ⟨rfl, -⟩ | same := reread_cases x
  · decide
  · decide
  · rw [same]

theorem reread_of_isMark {x : Char} (h : isMark x) : reread x = x := by
  obtain ⟨rfl, -⟩ | ⟨rfl, -⟩ | same := reread_cases x
  · exact absurd h (by decide)
  · exact absurd h (by decide)
  · exact same

def marks (text : List Char) : List Char := text.filter isMark

theorem marks_eq_filter_bare (text : List Char) : marks text = (bare text).filter fun x =>
    !isBlank x := by
  rw [bare, List.filter_filter]
  exact List.filter_congr fun x _ => Bool.and_comm ..

theorem bare_append (front back : List Char) : bare (front ++ back) = bare front ++ bare back :=
  List.filter_append ..

theorem marks_append (front back : List Char) : marks (front ++ back) = marks front ++ marks back :=
  List.filter_append ..

theorem bare_of_isBlank (h : ∀ x ∈ text, isBlank x) : bare text = text := by
  refine List.filter_eq_self.mpr fun x hx => ?_
  have blank := h x hx
  by_contra other
  obtain rfl | rfl : x = '/' ∨ x = '.' := by simpa [or_iff_not_imp_left] using other
  · exact absurd blank (by decide)
  · exact absurd blank (by decide)

theorem marks_of_isBlank (h : ∀ x ∈ text, isBlank x) : marks text = [] :=
  List.filter_eq_nil_iff.mpr fun x hx => by simp [isMark, h x hx]

theorem marks_trim (text : List Char) : marks (trim text) = marks text := by
  obtain ⟨front, back, blank, blank', eq⟩ := exists_trim text
  conv_rhs => rw [eq, marks_append, marks_append, marks_of_isBlank blank, marks_of_isBlank blank']
  rw [List.nil_append, List.append_nil]

theorem bare_map_reread (text : List Char) : bare (text.map reread) = (bare text).map reread := by
  rw [bare, List.filter_map]
  refine congrArg _ (List.filter_congr fun x _ => ?_)
  obtain ⟨rfl, -⟩ | ⟨rfl, -⟩ | same := reread_cases x
  · decide
  · decide
  · rw [Function.comp_apply, same]

def quoteCount (text : List Char) : Nat := text.countP fun x => IsQuote x

theorem quoteCount_append (front back : List Char) :
    quoteCount (front ++ back) = quoteCount front + quoteCount back :=
  List.countP_append ..

theorem quoteCount_marks (text : List Char) : quoteCount (marks text) = quoteCount text := by
  rw [quoteCount, marks, List.countP_filter]
  refine List.countP_congr fun x _ => ?_
  rw [Bool.and_eq_true_iff, and_iff_left_iff_imp, decide_eq_true_eq]
  rintro (rfl | rfl) <;> decide

theorem quoteCount_of_isBlank (h : ∀ x ∈ text, isBlank x) : quoteCount text = 0 := by
  rw [← quoteCount_marks, marks_of_isBlank h]
  rfl

theorem quoteCount_map_reread (text : List Char) :
    quoteCount (text.map reread) = quoteCount text := by
  rw [quoteCount, List.countP_map]
  exact List.countP_congr fun x _ => by simpa using isQuote_reread x

theorem exists_trimmed (h : value = trim text ∨ value = trimEnd text) :
    ∃ front back, (∀ x ∈ front, isBlank x) ∧ (∀ x ∈ back, isBlank x) ∧
    text = front ++ value ++ back := by
  obtain rfl | rfl := h
  · exact exists_trim text
  · obtain ⟨back, blank, eq⟩ := exists_trimEnd text
    exact ⟨[], back, by simp, blank, eq⟩

theorem exists_of_append_eq {q : Char} {front back lag tail : List Char}
    (h : front ++ back = lag ++ q :: tail) (outside : q ∉ front) :
    ∃ more, lag = front ++ more ∧ back = more ++ q :: tail := by
  obtain ⟨more, eq, rest⟩ | ⟨more, eq, rest⟩ := List.append_eq_append_iff.mp h
  · exact ⟨more, eq, rest⟩
  · cases more with
    | nil => exact ⟨[], by simpa using eq.symm, rest.symm⟩
    | cons x more =>
      obtain ⟨rfl, -⟩ := List.cons.inj rest
      exact absurd (eq ▸ List.mem_append_right _ List.mem_cons_self) outside

theorem marks_quote {q : Char} (quote : IsQuote q) (text : List Char) :
    marks (q :: text) = q :: marks text :=
  List.filter_cons_of_pos (by obtain rfl | rfl := quote <;> decide)

theorem quote_not_mem_marks {q : Char} (quote : IsQuote q) (inner : q ∉ text) :
    q ∉ marks (text.map reread) := by
  intro mem
  obtain ⟨x, hx, eq⟩ := List.mem_map.mp (List.mem_filter.mp mem).1
  exact inner (reread_eq_quote quote eq ▸ hx)

/-- Each quoted part is read as less than it is, so that what is read falls behind by more and more
quotes. It never catches up: hence a text that is read with the same marks has no quote in front. -/
theorem ReadAs.unquoted_of_marks {lag : List Char} (h : ReadAs text value)
    (quotes : ∀ x ∈ lag, IsQuote x) (same : marks value = lag ++ marks text) :
    lag = [] ∧ (∀ x ∈ text.head?, ¬ IsQuote x) ∧
    (value = trim (text.map reread) ∨ value = trimEnd (text.map reread)) := by
  induction h generalizing lag with
  | @unquoted text value unquoted trimmed =>
    refine ⟨?_, unquoted, trimmed⟩
    obtain ⟨front, back, blank, blank', eq⟩ := exists_trimmed trimmed
    have counted : quoteCount text = quoteCount value := by
      rw [← quoteCount_map_reread, eq, quoteCount_append, quoteCount_append,
        quoteCount_of_isBlank blank, quoteCount_of_isBlank blank', Nat.zero_add, Nat.add_zero]
    have unquoted : quoteCount lag = 0 := by
      have all := congrArg quoteCount same
      rw [quoteCount_append, quoteCount_marks, quoteCount_marks, counted] at all
      omega
    cases lag with
    | nil => rfl
    | cons x lag =>
      exact absurd (List.countP_eq_zero.mp unquoted x List.mem_cons_self)
        (by simpa using quotes x List.mem_cons_self)
  | @quoted q part text value quote inner more ih =>
    rw [marks_append, List.cons_append, marks_quote quote, marks_append, marks_quote quote] at same
    obtain ⟨ahead, rfl, behind⟩ := exists_of_append_eq same (quote_not_mem_marks quote inner)
    -- The marks of the part stand in the lag, hence are quotes; they and the two around them are
    -- what lags from now on.
    have quotes' : ∀ x ∈ ahead ++ q :: marks part ++ [q], IsQuote x := by
      intro x hx
      simp only [List.mem_append, List.mem_cons, List.not_mem_nil, or_false] at hx
      obtain (hx | hx | hx) | hx := hx
      · exact quotes x (List.mem_append_right _ hx)
      · exact hx ▸ quote
      · have mark := (List.mem_filter.mp hx).2
        refine quotes x (List.mem_append_left _ (List.mem_filter.mpr ⟨?_, mark⟩))
        exact List.mem_map.mpr ⟨x, (List.mem_filter.mp hx).1, reread_of_isMark mark⟩
      · exact hx ▸ quote
    have unquoted := (ih quotes' (by rw [behind]; simp)).1
    simp at unquoted
  | @unclosed q x text beyond value quote inner mem mark other =>
    obtain ⟨inner, inner'⟩ := not_or.mp (List.mem_append.not.mp inner)
    rw [marks_append, marks_append, marks_quote quote] at same
    -- The mark beyond the line is read before the quote, and so would stand among quotes.
    have outside : q ∉ marks (text.map reread) ++ marks beyond := List.mem_append.not.mpr
      (not_or.mpr ⟨quote_not_mem_marks quote inner, fun h => inner' (List.mem_filter.mp h).1⟩)
    obtain ⟨ahead, rfl, -⟩ := exists_of_append_eq same outside
    refine absurd (quotes x (List.mem_append_left _ (List.mem_append_right _ ?_))) other
    exact List.mem_filter.mpr ⟨mem, mark⟩

theorem LineReadAs.verbatim (h : LineReadAs text value) (same : bare (trim value) = bare text) :
    Verbatim text ∧ trim value = text := by
  obtain ⟨blanks, text, blank, rfl, h⟩ := h
  have marked : marks value = [] ++ marks text := by
    rw [← marks_trim, marks_eq_filter_bare, same, ← marks_eq_filter_bare, marks_append,
      marks_of_isBlank blank]
  obtain ⟨-, unquoted, trimmed⟩ := h.unquoted_of_marks (by simp) marked
  obtain ⟨front, back, front_blank, back_blank, eq⟩ := exists_trimmed trimmed
  obtain ⟨front', back', front_blank', back_blank', eq'⟩ := exists_trim value
  have lengths : (bare text).length = (bare (text.map reread)).length := by
    rw [bare_map_reread, List.length_map]
  rw [eq, eq'] at lengths
  simp only [bare_append, same, bare_of_isBlank blank, bare_of_isBlank front_blank,
    bare_of_isBlank back_blank, bare_of_isBlank front_blank', bare_of_isBlank back_blank',
    List.length_append] at lengths
  -- Nothing has been trimmed, since each blank would count.
  obtain rfl : blanks = [] := List.length_eq_zero_iff.mp (by omega)
  obtain rfl : front = [] := List.length_eq_zero_iff.mp (by omega)
  obtain rfl : back = [] := List.length_eq_zero_iff.mp (by omega)
  obtain rfl : front' = [] := List.length_eq_zero_iff.mp (by omega)
  obtain rfl : back' = [] := List.length_eq_zero_iff.mp (by omega)
  have whole : text.map reread = trim value := by
    rw [eq]
    conv_lhs => rw [eq']
    simp only [List.nil_append, List.append_nil]
  have fixed : ∀ x ∈ bare text, reread x = id x := by
    rw [← List.map_inj_left, ← bare_map_reread, whole, same, List.map_id]
    rfl
  have tab : '\x0b' ∉ text :=
    fun mem => absurd (fixed _ (List.mem_filter.mpr ⟨mem, by decide⟩)) (by decide)
  have feed : '\x0c' ∉ text :=
    fun mem => absurd (fixed _ (List.mem_filter.mpr ⟨mem, by decide⟩)) (by decide)
  rw [map_reread_eq_self tab feed] at whole
  refine ⟨⟨fun x hx => ⟨?_, unquoted x hx⟩, ?_, tab, feed⟩, whole.symm⟩
  · exact isBlank_head?_trim value x (whole ▸ hx)
  · exact whole ▸ isBlank_getLast?_trim value

theorem ReadAs.blank_or_quote (h : ReadAs text value) (blank : ∀ x ∈ value, isBlank x) :
    ∀ x ∈ text, isBlank x ∨ IsQuote x := by
  have written {x : Char} (h : isBlank (reread x)) : isBlank x := by
    obtain ⟨rfl, -⟩ | ⟨rfl, -⟩ | same := reread_cases x
    · decide
    · decide
    · exact same ▸ h
  induction h with
  | @unquoted text value unquoted trimmed =>
    obtain ⟨front, back, front_blank, back_blank, eq⟩ := exists_trimmed trimmed
    intro x hx
    have mem : reread x ∈ front ++ value ++ back := eq ▸ List.mem_map_of_mem hx
    obtain (mem | mem) | mem := by simpa only [List.mem_append] using mem
    · exact .inl (written (front_blank _ mem))
    · exact .inl (written (blank _ mem))
    · exact .inl (written (back_blank _ mem))
  | @quoted q part text value quote inner more ih =>
    obtain ⟨here, later⟩ := List.forall_mem_append.mp blank
    intro x hx
    obtain (rfl | hx) | rfl | hx := by simpa only [List.mem_append, List.mem_cons] using hx
    · exact .inr quote
    · exact .inl (written (here _ (List.mem_map_of_mem hx)))
    · exact .inr quote
    · exact ih later x hx
  | @unclosed q x text beyond value quote inner mem mark other =>
    have shown := blank x (List.mem_append_left _ (List.mem_append_right _ mem))
    simp [isMark, shown] at mark

theorem LineReadAs.blank_or_quote (h : LineReadAs text value) (empty : trim value = []) :
    ∀ x ∈ text, isBlank x ∨ IsQuote x := by
  obtain ⟨blanks, text, blank, rfl, h⟩ := h
  obtain ⟨front, back, front_blank, back_blank, eq⟩ := exists_trim value
  rw [empty, List.append_nil] at eq
  refine List.forall_mem_append.mpr ⟨fun x hx => .inl (blank x hx), h.blank_or_quote ?_⟩
  exact eq ▸ List.forall_mem_append.mpr ⟨front_blank, back_blank⟩

end Stowage.Ini
