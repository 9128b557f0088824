import Stowage.Proofs.Ini.Lines

/-! Printed settings are parsed to themselves where each value is read as it was written. Of other
settings, the values up to the first that is not are read so, and whatever comes of that one
counts. -/
namespace Stowage.Ini

open Stowage.Path

variable {ini more sections : Ini} {name : Option (List Char)} {item : IniItem}

def named? (sections : Ini) (name : Option (List Char)) : Option IniSection :=
  sections.reverse.find? fun s => s.name == name

theorem named?_cons (s : IniSection) (sections : Ini) (name : Option (List Char)) :
    named? (s :: sections) name = (named? sections name).or (if s.name = name then some s
      else none) := by
  rw [named?, List.reverse_cons, List.find?_append, ← named?]
  congr 1
  by_cases h : s.name = name
  · rw [if_pos h, List.find?_cons_of_pos (by simpa using h)]
  · rw [if_neg h, List.find?_cons_of_neg (by simpa using h)]
    rfl

/-- What is read later adds items and sections, and hides none that was there. -/
def Grown (sections more : Ini) : Prop :=
  ∀ name s, named? sections name = some s → ∃ t, named? more name = some t ∧ s.items <+: t.items

theorem Grown.refl (sections : Ini) : Grown sections sections :=
  fun _ s h => ⟨s, h, List.prefix_rfl⟩

theorem Grown.trans {last : Ini} (h : Grown sections more) (h' : Grown more last) :
    Grown sections last := by
  intro name s found
  obtain ⟨t, found, longer⟩ := h name s found
  obtain ⟨u, found, longer'⟩ := h' name t found
  exact ⟨u, found, longer.trans longer'⟩

theorem grown_cons (s : IniSection) (sections : Ini) : Grown sections (s :: sections) :=
  fun name t found =>
  ⟨t, by rw [named?_cons, found, Option.some_or], List.prefix_rfl⟩

theorem named?_addItem_of_ne {other : Option (List Char)} (h : other ≠ name) :
    named? (addItem name item sections) other = named? sections other := by
  induction sections with
  | nil => rw [addItem, named?_cons, if_neg (Ne.symm h), Option.or_none]
  | cons s sections ih =>
    rw [addItem]
    split
    case isTrue same =>
      rw [named?_cons, named?_cons, if_neg (same ▸ Ne.symm h), if_neg (same ▸ Ne.symm h)]
    case isFalse => rw [named?_cons, ih, named?_cons]

theorem grown_addItem (name : Option (List Char)) (item : IniItem) (sections : Ini) :
    Grown sections (addItem name item sections) := by
  intro other s found
  by_cases h : other = name
  · subst h
    induction sections with
    | nil => cases found
    | cons t sections ih =>
      rw [named?_cons] at found
      rw [addItem]
      -- The section that counts is one further back, or else the one that takes the item.
      cases earlier : named? sections other with
      | some u =>
        rw [earlier, Option.some_or] at found
        split
        · exact ⟨s, by rw [named?_cons, earlier, Option.some_or, found], List.prefix_rfl⟩
        · obtain ⟨v, found, longer⟩ := ih (earlier.trans found)
          exact ⟨v, by rw [named?_cons, found, Option.some_or], longer⟩
      | none =>
        rw [earlier, Option.none_or] at found
        split at found
        case isTrue same =>
          cases found
          rw [if_pos same]
          exact ⟨_, by rw [named?_cons, earlier, Option.none_or, if_pos same],
            List.prefix_append _ _⟩
        case isFalse => cases found
  · exact ⟨s, (named?_addItem_of_ne h).trans found, List.prefix_rfl⟩

theorem value?_reverse (sections : Ini) (name key : String) :
    value? sections.reverse name key =
      (named? sections (some name.toList)).bind fun s =>
      (s.items.find? fun i => i.key == key.toList).map IniItem.value := by
  rw [value?, named?]
  cases sections.reverse.find? fun s => s.name == some name.toList with
  | none => rfl
  | some s => cases h : s.items.find? fun i => i.key == key.toList <;> simp [h]

theorem Grown.value?_eq (h : Grown sections more) {name key : String} {value : List Char}
    (found : value? sections.reverse name key = some value) :
    value? more.reverse name key = some value := by
  rw [value?_reverse] at found ⊢
  obtain ⟨s, named, found⟩ := Option.bind_eq_some_iff.mp found
  obtain ⟨i, first, rfl⟩ := Option.map_eq_some_iff.mp found
  obtain ⟨t, named, longer⟩ := h _ s named
  rw [named, Option.bind_some, longer.find?_eq_some first]
  rfl

variable {p q : Progress} {c after : Cursor} {x : Char} {fuel : Nat}

theorem grown_readPart (h : readPart p c x = .ok (q, after)) : Grown p.sections q.sections := by
  obtain ⟨⟨r, last⟩, read, eq⟩ := map_eq_ok.mp h
  obtain ⟨rfl, -⟩ := Prod.mk.inj eq
  split at read
  · rw [readComment] at read
    split at read
    · cases read
    · cases read
      exact .refl _
  split at read
  · obtain ⟨⟨name, behind⟩, -, read⟩ := bind_eq_ok.mp read
    cases read
    exact grown_cons _ _
  split at read
  · rw [readItem] at read
    split at read
    · cases read
    · obtain ⟨⟨value, behind⟩, -, read⟩ := bind_eq_ok.mp read
      cases read
      exact grown_addItem _ _ _
  split at read
  · cases read
    exact .refl _
  · obtain ⟨⟨key, behind⟩, -, read⟩ := bind_eq_ok.mp read
    cases read
    exact .refl _

theorem sections_readIndented (p : Progress) (c : Cursor) :
    (readIndented p c).1.sections = p.sections := by
  unfold readIndented
  dsimp only
  split
  · rfl
  split
  · rfl
  split
  · rfl
  split
  · rename_i read
    obtain ⟨⟨key, behind⟩, -, eq⟩ := bind_eq_ok.mp read
    cases eq
    rfl
  · rfl

theorem grown_readParts (h : readParts fuel p c = .ok q) : Grown p.sections q.sections := by
  induction fuel generalizing p c with
  | zero =>
    cases h
    exact .refl _
  | succ fuel ih =>
    rw [readParts] at h
    split at h
    · cases h
      exact .refl _
    split at h
    · exact sections_readIndented p c ▸ ih h
    · obtain ⟨⟨r, last⟩, part, h⟩ := bind_eq_ok.mp h
      exact (grown_readPart part).trans (ih h)

structure Worded (s : IniSection) : Prop where
  named : ∃ name, s.name = some name ∧ IsWord name
  keys : ∀ i ∈ s.items, IsWord i.key

def sectionHeading (s : IniSection) : List Line := (s.name.map Line.heading).toList

def linesOf (ini : Ini) : List Line :=
  ini.flatMap fun s => .blank :: (sectionHeading s ++ s.items.map .item)

theorem linesOf_cons (s : IniSection) (ini : Ini) :
    linesOf (s :: ini) = .blank :: (sectionHeading s ++ s.items.map .item) ++ linesOf ini :=
  List.flatMap_cons

theorem textOf_append (front back : List Line) :
    textOf (front ++ back) = textOf front ++ textOf back := List.flatMap_append

theorem textOf_linesOf (ini : Ini) : textOf (linesOf ini) = ini.flatMap fun s =>
    '\n' :: sectionLines s := by
  induction ini with
  | nil => rfl
  | cons s ini ih =>
    have first : textOf (sectionHeading s ++ s.items.map Line.item) = sectionLines s := by
      have items : textOf (s.items.map Line.item) = s.items.flatMap itemLine := List.flatMap_map ..
      rw [textOf_append, items, sectionLines, sectionHeading]
      cases s.name with
      | none => rfl
      | some name => simp [textOf, Line.spell]
    rw [linesOf_cons, textOf_append, ih, List.flatMap_cons, ← first]
    rfl

theorem newline_print (nonempty : ini ≠ []) : '\n' :: print ini = textOf (linesOf ini) := by
  have full : ini.map sectionLines ≠ [] := List.map_eq_nil_iff.not.mpr nonempty
  rw [textOf_linesOf, print, cons_intercalate '\n' full, List.flatMap_map]

theorem print_eq_fromPart (worded : ∀ s ∈ ini, Worded s) :
    print ini = fromPart (textOf (linesOf ini)) := by
  cases ini with
  | nil => rfl
  | cons s ini =>
    obtain ⟨name, named, -⟩ := (worded s List.mem_cons_self).named
    obtain ⟨more, eq⟩ : ∃ more, print (s :: ini) = '[' :: more := by
      rw [print, List.map_cons, sectionLines, named]
      cases ini with
      | nil => exact ⟨_, rfl⟩
      | cons t ini => exact ⟨_, rfl⟩
    rw [← newline_print (List.cons_ne_nil _ _), fromPart_newline, eq, fromPart_cons (by decide)]

theorem forall_mem_linesOf {P : Line → Prop} (blank : P .blank)
    (heading : ∀ s ∈ ini, ∀ name, s.name = some name → P (.heading name))
    (item : ∀ s ∈ ini, ∀ i ∈ s.items, P (.item i)) :
    ∀ l ∈ linesOf ini, P l := by
  intro l hl
  obtain ⟨s, hs, mem⟩ := List.mem_flatMap.mp hl
  obtain rfl | mem := List.mem_cons.mp mem
  · exact blank
  obtain mem | mem := List.mem_append.mp mem
  · obtain ⟨name, named, rfl⟩ := Option.map_eq_some_iff.mp (Option.mem_toList.mp mem)
    exact heading s hs name named
  · obtain ⟨i, hi, rfl⟩ := List.mem_map.mp mem
    exact item s hs i hi

theorem plain_linesOf (worded : ∀ s ∈ ini, Worded s) : ∀ l ∈ linesOf ini, l.Plain := by
  refine forall_mem_linesOf trivial (fun s hs name named => ?_) fun s hs => (worded s hs).keys
  obtain ⟨word, named', isWord⟩ := (worded s hs).named
  exact Option.some.inj (named'.symm.trans named) ▸ isWord

theorem faithful_linesOf (verbatim : ∀ s ∈ ini, ∀ i ∈ s.items, Verbatim i.value) :
    ∀ l ∈ linesOf ini, l.Faithful :=
  forall_mem_linesOf trivial (fun _ _ _ _ => trivial) verbatim

theorem parts_le_length (lines : List Line) :
    (lines.map Line.parts).sum ≤ (textOf lines).length := by
  induction lines with
  | nil => exact Nat.le_refl _
  | cons l lines ih =>
    have each : l.parts ≤ l.spell.length := by
      cases l with
      | blank => exact Nat.zero_le _
      | heading name => simp [Line.parts, Line.spell]
      | item i =>
        simp only [Line.parts, Line.spell, itemLine, List.length_append, List.length_singleton]
        omega
    rw [List.map_cons, List.sum_cons, textOf_cons, List.length_append]
    exact Nat.add_le_add each ih

theorem foldl_read_items (name : Option (List Char)) (done items : List IniItem) (sections : Ini) :
    (items.map Line.item).foldl Line.read ⟨⟨name, done⟩ :: sections, name, []⟩ =
      ⟨⟨name, done ++ items⟩ :: sections, name, []⟩ := by
  induction items generalizing done with
  | nil => rw [List.append_nil]; rfl
  | cons i items ih =>
    have step : Line.read ⟨⟨name, done⟩ :: sections, name, []⟩ (.item i) =
        ⟨⟨name, done ++ [i]⟩ :: sections, name, []⟩ := by
      rw [Line.read, Progress.put, addItem, if_pos rfl]
    rw [List.map_cons, List.foldl_cons, step, ih, List.append_assoc]
    rfl

theorem foldl_read_section (name : List Char) (items : List IniItem) (sections : Ini)
    (current : Option (List Char)) :
    (.heading name :: items.map Line.item).foldl Line.read ⟨sections, current, []⟩ =
      ⟨⟨some name, items⟩ :: sections, some name, []⟩ :=
  foldl_read_items (some name) [] items sections

theorem foldl_read_linesOf (worded : ∀ s ∈ ini, Worded s) (sections : Ini)
    (current : Option (List Char)) :
    ∃ last, (linesOf ini).foldl Line.read ⟨sections, current, []⟩ = ⟨ini.reverse ++ sections, last,
      []⟩ := by
  induction ini generalizing sections current with
  | nil => exact ⟨current, rfl⟩
  | cons s ini ih =>
    obtain ⟨first, others⟩ := List.forall_mem_cons.mp worded
    obtain ⟨name, items⟩ := s
    obtain ⟨name, rfl, -⟩ := first.named
    obtain ⟨last, read⟩ := ih others (⟨some name, items⟩ :: sections) (some name)
    refine ⟨last, ?_⟩
    rw [linesOf_cons, List.foldl_append, List.reverse_cons, List.append_assoc,
      List.singleton_append, ← read, ← foldl_read_section name items sections current]
    rfl

theorem readParts_nil (h : c.rest = []) : readParts fuel p c = .ok p := by
  cases fuel with
  | zero => rfl
  | succ fuel => rw [readParts, Cursor.head?_of_rest_nil h]

/-- Reading comes to any line of a print, if the values on the lines before it are read as they were
written. -/
theorem exists_readParts_print (worded : ∀ s ∈ ini, Worded s) {lines more : List Line}
    (split : linesOf ini = lines ++ more) (faithful : ∀ l ∈ lines, l.Faithful) :
    ∃ fuel after, after.rest = fromPart (textOf more) ∧ (more.map Line.parts).sum ≤ fuel ∧
      readParts ((print ini).length + 1) {} (Cursor.start (print ini)) =
      readParts fuel (lines.foldl Line.read {}) after := by
  have start : (Cursor.start (print ini)).rest = fromPart (textOf (lines ++ more)) := by
    rw [Cursor.start, Cursor.rest_enter, print_eq_fromPart worded, split]
  have long : (lines.map Line.parts).sum + (more.map Line.parts).sum ≤ (print ini).length + 1 := by
    rw [← List.sum_append, ← List.map_append, ← split]
    by_cases empty : ini = []
    · subst empty
      exact Nat.zero_le _
    · have bound := parts_le_length (linesOf ini)
      rwa [← newline_print empty] at bound
  obtain ⟨fuel, enough⟩ : ∃ fuel, (print ini).length + 1 = fuel + (lines.map Line.parts).sum :=
    ⟨(print ini).length + 1 - (lines.map Line.parts).sum, by omega⟩
  have plain : ∀ l ∈ lines ++ more, l.Plain := split ▸ plain_linesOf worded
  obtain ⟨after, behind, read⟩ := readParts_textOf {} fuel plain faithful start
  exact ⟨fuel, after, behind, by omega, enough ▸ read⟩

theorem parse_print (worded : ∀ s ∈ ini, Worded s)
    (verbatim : ∀ s ∈ ini, ∀ i ∈ s.items, Verbatim i.value) :
    parse (print ini) = .ok ini := by
  obtain ⟨fuel, after, behind, -, read⟩ :=
    exists_readParts_print worded (List.append_nil _).symm (faithful_linesOf verbatim)
  obtain ⟨last, state⟩ := foldl_read_linesOf worded [] none
  rw [parse, read, state, readParts_nil behind, List.append_nil]
  exact congrArg Except.ok (List.reverse_reverse ini)

theorem value?_put {before : Ini} {pre : List IniItem} {name key : String} (value : List Char)
    (fresh : ∀ s ∈ before, s.name ≠ some name.toList) (fresh' : ∀ i ∈ pre, i.key ≠ key.toList) :
    value? (⟨some name.toList, pre ++ [⟨key.toList, value⟩]⟩ :: before.reverse).reverse name key =
      some value := by
  have unnamed : named? before.reverse (some name.toList) = none := by
    rw [named?, List.reverse_reverse, List.find?_eq_none]
    exact fun s hs => by simpa using fresh s hs
  have absent : (pre.find? fun i => i.key == key.toList) = none :=
    List.find?_eq_none.mpr fun i hi => by simpa using fresh' i hi
  rw [value?_reverse, named?_cons, unnamed, Option.none_or, if_pos rfl, Option.bind_some,
    List.find?_append, absent, Option.none_or, List.find?_cons_of_pos (by simp)]
  rfl

theorem value?_of_parse_print {before after found : Ini} {pre post : List IniItem}
    (name key : String) {text : List Char} (worded : ∀ s ∈ ini, Worded s)
    (split : ini = before ++ ⟨some name.toList, pre ++ ⟨key.toList, text⟩ :: post⟩ :: after)
    (verbatim : ∀ s ∈ before, ∀ i ∈ s.items, Verbatim i.value)
    (verbatim' : ∀ i ∈ pre, Verbatim i.value) (fresh : ∀ s ∈ before, s.name ≠ some name.toList)
    (fresh' : ∀ i ∈ pre, i.key ≠ key.toList) (parsed : parse (print ini) = .ok found) :
    ∃ value, value? found name key = some value ∧ LineReadAs text value := by
  have lines : linesOf ini = (linesOf before ++ .blank :: .heading name.toList :: pre.map .item) ++
      .item ⟨key.toList, text⟩ :: (post.map .item ++ linesOf after) := by
    simp [split, linesOf, sectionHeading]
  have faithful : ∀ l ∈ linesOf before ++ Line.blank :: .heading name.toList :: pre.map .item,
      l.Faithful := by
    refine List.forall_mem_append.mpr ⟨faithful_linesOf verbatim,
      List.forall_mem_cons.mpr ⟨trivial, ?_⟩⟩
    exact List.forall_mem_cons.mpr ⟨trivial, List.forall_mem_map.mpr verbatim'⟩
  obtain ⟨fuel, c, behind, enough, read⟩ := exists_readParts_print worded lines faithful
  obtain ⟨word, plain⟩ :=
    List.forall_mem_cons.mp (List.forall_mem_append.mp (lines ▸ plain_linesOf worded)).2
  have worded' : ∀ s ∈ before, Worded s := fun s hs => worded s (split ▸ List.mem_append_left _ hs)
  obtain ⟨last, state⟩ := foldl_read_linesOf worded' [] none
  have state :
      (linesOf before ++ Line.blank :: .heading name.toList :: pre.map .item).foldl Line.read {} =
      ⟨⟨some name.toList, pre⟩ :: before.reverse, some name.toList, []⟩ := by
    rw [List.foldl_append, state, List.append_nil]
    exact foldl_read_section name.toList pre before.reverse last
  obtain ⟨q, parts, eq⟩ := bind_eq_ok.mp parsed
  obtain rfl : q.sections.reverse = found := Except.ok.inj eq
  rw [textOf_item word, fromPart_word word] at behind
  -- The item itself takes two parts.
  obtain ⟨fuel, rfl⟩ : ∃ n, fuel = n + 2 := ⟨fuel - 2, by
    rw [List.map_cons, List.sum_cons, Line.parts] at enough
    omega⟩
  rw [read, state] at parts
  obtain ⟨value, mid, readAs, parts⟩ :=
    exists_put_of_readParts word (follows_textOf plain) behind parts
  have grown := grown_readParts parts
  rw [Progress.put, addItem, if_pos rfl] at grown
  exact ⟨value, grown.value?_eq (value?_put value fresh fresh'), readAs⟩

end Stowage.Ini
