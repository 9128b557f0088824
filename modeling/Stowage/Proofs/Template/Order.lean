import Mathlib.Data.List.Basic
import Mathlib.Data.List.Perm.Basic
import Mathlib.Data.List.Sublists
import Stowage.Proofs.Template.Replacement

/-! In which order values are put into a template. The order makes no difference where no
placeholder is made up on the way; and for keys without braces it makes none to any template exactly
where each value stands apart from the placeholders of the others. -/
namespace Stowage.Template

variable {values : List (String × String)} {x y pair : String × String} {k k' : String}
    {v cs α β : List Char}

def put (cs : List Char) (pair : String × String) : List Char :=
  substitute (placeholder pair.1) pair.2.toList 0 cs

theorem render_eq (template : String) (values : List (String × String)) :
    render template values = String.ofList (values.foldl put template.toList) := rfl

theorem render_inj {template template' : String} {values values' : List (String × String)} :
    render template values = render template' values' ↔
      values.foldl put template.toList = values'.foldl put template'.toList := by
  rw [render_eq, render_eq]
  exact String.ofList_inj

theorem placeholder_ne_nil (key : String) : placeholder key ≠ [] := List.cons_ne_nil _ _

section Parts

/-- A part of a template: text, or the place of a value. -/
inductive Part
  | text (cs : List Char)
  | place (pair : String × String)
deriving DecidableEq

variable {filled filled' : List (String × String)} {parts : List Part}

def Part.spell (filled : List (String × String)) : Part → List Char
  | .text cs => cs
  | .place pair => if pair ∈ filled then pair.2.toList else placeholder pair.1

def spell (filled : List (String × String)) (parts : List Part) : List Char :=
  parts.flatMap (Part.spell filled)

/-- The placeholder of a pair begins in no part but the places of the pair. -/
def Own (filled : List (String × String)) (pair : String × String) : List Part → Prop
  | [] => True
  | part :: rest =>
    (part ≠ .place pair → ∀ m ∈ (part.spell filled).tails, m ≠ [] →
      ¬ placeholder pair.1 <+: m ++ spell filled rest) ∧
      Own filled pair rest

instance (filled : List (String × String)) (pair : String × String) :
    (parts : List Part) → Decidable (Own filled pair parts)
  | [] => .isTrue trivial
  | _ :: rest => @instDecidableAnd _ _ inferInstance (instDecidableOwn filled pair rest)

/-- Whichever pairs were put in, the placeholder of any other one begins at its own places alone. -/
def Undisturbed (values : List (String × String)) (parts : List Part) : Prop :=
  ∀ filled ∈ values.sublists, ∀ pair ∈ values, pair ∉ filled → Own filled pair parts

instance (values : List (String × String)) (parts : List Part) :
    Decidable (Undisturbed values parts) :=
  inferInstanceAs (Decidable (∀ filled ∈ values.sublists, ∀ pair ∈ values, pair ∉ filled →
    Own filled pair parts))

theorem spell_congr (same : ∀ pair, pair ∈ filled ↔ pair ∈ filled') (parts : List Part) :
    spell filled parts = spell filled' parts := by
  have each : Part.spell filled = Part.spell filled' := by
    funext part
    cases part with
    | text cs => rfl
    | place pair => simp only [Part.spell, same]
  rw [spell, each, spell]

theorem Own.congr (same : ∀ pair, pair ∈ filled ↔ pair ∈ filled') (own : Own filled pair parts) :
    Own filled' pair parts := by
  induction parts with
  | nil => trivial
  | cons part rest ih =>
    refine ⟨?_, ih own.2⟩
    have one := spell_congr same [part]
    rw [spell, spell, List.flatMap_singleton, List.flatMap_singleton] at one
    rw [← one, ← spell_congr same rest]
    exact own.1

/-- One step: the value of a pair goes to its places and nowhere else. -/
theorem put_spell (own : Own filled pair parts) (absent : pair ∉ filled) :
    put (spell filled parts) pair = spell (pair :: filled) parts := by
  induction parts with
  | nil => rfl
  | cons part rest ih =>
    have later := ih own.2
    rw [put] at later
    rw [put, spell, spell, List.flatMap_cons, List.flatMap_cons, ← spell, ← spell]
    by_cases place : part = .place pair
    · subst place
      rw [Part.spell, if_neg absent, substitute_match (placeholder_ne_nil _), later, Part.spell,
        if_pos List.mem_cons_self]
    · have clear := own.1 place
      have kept : part.spell filled = part.spell (pair :: filled) := by
        cases part with
        | text cs => rfl
        | place other =>
          have apart : other ≠ pair := fun same => place (same ▸ rfl)
          simp only [Part.spell, List.mem_cons, apart, false_or]
      rw [substitute_append fun m nonempty suffix =>
        clear m ((List.mem_tails ..).mpr suffix) nonempty, later, kept]

/-- A whole run: each pair that is put in goes to its places, whatever was put in before. -/
theorem foldl_put_spell (undisturbed : Undisturbed values parts) {todo : List (String × String)}
    (done : filled ⊆ values) (rest : todo ⊆ values) (once : (filled ++ todo).Nodup) :
    todo.foldl put (spell filled parts) = spell (filled ++ todo) parts := by
  induction todo generalizing filled with
  | nil => rw [List.append_nil, List.foldl_nil]
  | cons pair todo ih =>
    rw [List.cons_subset] at rest
    have absent : pair ∉ filled :=
      fun mem => (List.nodup_append.mp once).2.2 pair mem pair List.mem_cons_self rfl
    have order : (pair :: (filled ++ todo)).Perm (filled ++ pair :: todo) := List.perm_middle.symm
    -- The pairs that were put in, in the order of all pairs.
    have same (other : String × String) : other ∈ values.filter (· ∈ filled) ↔ other ∈ filled := by
      rw [List.mem_filter, decide_eq_true_eq]
      exact ⟨And.right, fun mem => ⟨done mem, mem⟩⟩
    have own :=
      undisturbed (values.filter (· ∈ filled)) ((List.mem_sublists).mpr List.filter_sublist) pair
        rest.1
      fun mem => absent ((same pair).mp mem)
    rw [List.foldl_cons, put_spell (own.congr same) absent,
      ih (List.cons_subset.mpr ⟨rest.1, done⟩) rest.2 (order.nodup_iff.mpr once)]
    exact spell_congr (fun _ => order.mem_iff) parts

end Parts

section Braces

/-- A key that no brace of its own can make look like a placeholder, or part of one. -/
def Braceless (key : String) : Prop := '\x7b' ∉ key.toList ∧ '\x7d' ∉ key.toList

instance (key : String) : Decidable (Braceless key) := inferInstanceAs (Decidable (_ ∧ _))

theorem placeholder_eq (key : String) :
    placeholder key = '\x7b' :: '\x7b' :: '.' :: (key.toList ++ '\x7d' :: ['\x7d']) := rfl

theorem takeWhile_key (plain : Braceless k) (rest : List Char) :
    (k.toList ++ '\x7d' :: rest).takeWhile (· != '\x7d') = k.toList := by
  have all : ∀ c ∈ k.toList, (c != '\x7d') = true :=
    fun c mem => bne_iff_ne.mpr (ne_of_mem_of_not_mem mem plain.2)
  rw [List.takeWhile_append_of_pos all, List.takeWhile_cons_of_neg (by decide), List.append_nil]

theorem eq_of_isPrefix_placeholder (plain : Braceless k) (plain' : Braceless k')
    (h : placeholder k <+: placeholder k') :
    k = k' := by
  obtain ⟨w, eq⟩ := h
  rw [placeholder_eq, placeholder_eq] at eq
  simp only [List.cons_append, List.append_assoc, List.cons.injEq, true_and] at eq
  have keys := congrArg (List.takeWhile (· != '\x7d')) eq
  rw [takeWhile_key plain, takeWhile_key plain'] at keys
  exact String.toList_inj.mp keys

theorem eq_placeholder_of_isSuffix (plain : Braceless k)
    (h : '\x7b' :: '\x7b' :: cs <:+ placeholder k) :
    '\x7b' :: '\x7b' :: cs = placeholder k := by
  obtain ⟨front, eq⟩ := h
  match front, eq with
  | [], eq => exact eq
  | [c], eq =>
    rw [placeholder_eq] at eq
    cases (List.cons.inj (List.cons.inj (List.cons.inj eq).2).2).1
  | c :: d :: front, eq =>
    rw [placeholder_eq] at eq
    have tail := (List.cons.inj (List.cons.inj eq).2).2
    have mem : '\x7b' ∈ '.' :: (k.toList ++ '\x7d' :: ['\x7d']) :=
      tail ▸ List.mem_append_right _ List.mem_cons_self
    simp only [List.mem_cons, List.mem_append, List.not_mem_nil, or_false] at mem
    rcases mem with dot | key | close | close
    · cases dot
    · exact absurd key plain.1
    · cases close
    · cases close

theorem close_mem_of_isSuffix (nonempty : cs ≠ []) (h : cs <:+ placeholder k) : '\x7d' ∈ cs := by
  obtain ⟨front, eq⟩ := h
  have ends : placeholder k = '\x7b' :: '\x7b' :: '.' :: (k.toList ++ ['\x7d']) ++ ['\x7d'] := by
    simp [placeholder_eq]
  obtain ⟨init, c, rfl⟩ := (List.eq_nil_or_concat' cs).resolve_left nonempty
  rw [ends, ← List.append_assoc] at eq
  rw [← (List.cons.inj (List.append_inj' eq rfl).2).1]
  exact List.mem_append_right _ List.mem_cons_self

theorem eq_of_border (plain : Braceless k) (plain' : Braceless k') (nonempty : cs ≠ [])
    (suffix : cs <:+ placeholder k) (start : cs <+: placeholder k') :
    cs = placeholder k ∧ k = k' := by
  have close := close_mem_of_isSuffix nonempty suffix
  obtain ⟨w, eq⟩ := start
  rw [placeholder_eq] at eq
  match cs, close, suffix, eq with
  | [c], close, _, eq =>
    cases (List.cons.inj eq).1
    cases List.mem_singleton.mp close
  | c :: d :: rest, _, suffix, eq =>
    obtain ⟨rfl, tail⟩ := List.cons.inj eq
    obtain ⟨rfl, -⟩ := List.cons.inj tail
    have whole := eq_placeholder_of_isSuffix plain suffix
    refine ⟨whole, eq_of_isPrefix_placeholder plain plain' ⟨w, ?_⟩⟩
    rw [← whole, eq, placeholder_eq]

theorem eq_of_isInfix_placeholder (plain : Braceless k) (plain' : Braceless k')
    (h : placeholder k <:+: placeholder k') :
    k = k' := by
  obtain ⟨t, start, suffix⟩ := List.infix_iff_prefix_suffix.mp h
  obtain ⟨w, rfl⟩ := start
  have whole : placeholder k ++ w = placeholder k' := eq_placeholder_of_isSuffix plain' suffix
  exact eq_of_isPrefix_placeholder plain plain' ⟨w, whole⟩

theorem not_isInfix_of_part (plain : Braceless k) (plain' : Braceless k')
    (part : cs <:+: placeholder k') (less : cs ≠ placeholder k') : ¬ placeholder k <:+: cs := by
  intro there
  have same := eq_of_isInfix_placeholder plain plain' (there.trans part)
  exact less (part.eq_of_length_le (same ▸ there.length_le))

theorem apart_placeholder (plain : Braceless k) (plain' : Braceless k') (other : k ≠ k') :
    Apart (placeholder k) (placeholder k') where
  outside h := other (eq_of_isInfix_placeholder plain' plain h).symm
  inside h := other (eq_of_isInfix_placeholder plain plain' h)
  before _ nonempty suffix start := other (eq_of_border plain plain' nonempty suffix start).2
  behind _ nonempty start suffix := other (eq_of_border plain' plain nonempty suffix start).2.symm

/-- The value of one pair cannot take part in the placeholder of another, or the other is put in for
itself. -/
def Clear (x y : String × String) : Prop :=
  y.2.toList = placeholder y.1 ∨ Apart x.2.toList (placeholder y.1)

instance (x y : String × String) : Decidable (Clear x y) := inferInstanceAs (Decidable (_ ∨ _))

theorem put_comm (plain : Braceless x.1) (plain' : Braceless y.1) (other : x.1 ≠ y.1)
    (clear : Clear x y) (clear' : Clear y x) (cs : List Char) :
    put (put cs x) y = put (put cs y) x := by
  have fixed (z : String × String) (h : z.2.toList = placeholder z.1) (cs : List Char) :
      put cs z = cs := by
    rw [put, h, substitute_self (placeholder_ne_nil _)]
  rcases clear with same | first
  · rw [fixed y same, fixed y same]
  · rcases clear' with same | second
    · rw [fixed x same, fixed x same]
    · exact substitute_comm (placeholder_ne_nil _) (placeholder_ne_nil _)
        (apart_placeholder plain plain' other) first second cs

/-- A placeholder and a text that overlap do so in a text that has nothing else of the placeholder
in it. -/
theorem exists_context (h : ¬ Apart cs (placeholder k)) :
    ∃ α β, α <+: placeholder k ∧ α ≠ placeholder k ∧ β <:+ placeholder k ∧ β ≠ placeholder k ∧
      placeholder k <:+: α ++ cs ++ β := by
  have empty : [] ≠ placeholder k := (placeholder_ne_nil k).symm
  by_contra noContext
  refine h ⟨?outside, ?inside, ?before, ?behind⟩
  case outside =>
    intro part
    exact noContext ⟨[], [], List.nil_prefix, empty, List.nil_suffix, empty,
      by rwa [List.nil_append, List.append_nil]⟩
  case inside =>
    rintro ⟨α, β, eq⟩
    by_cases void : cs = []
    · -- Without a text between them, the first brace and the rest are neither of them the whole.
      have cut : ['\x7b'] ++ [] ++ (placeholder k).tail = placeholder k := rfl
      refine noContext ⟨['\x7b'], (placeholder k).tail, ⟨_, rfl⟩, fun same => ?_,
        List.tail_suffix _, fun same => ?_, ?_⟩
      · exact List.cons_ne_nil _ _ (List.append_right_eq_self.mp (cut.trans same.symm))
      · exact List.cons_ne_nil _ _ (List.append_left_eq_self.mp (cut.trans same.symm))
      · rw [void, cut]
    · have start : α <+: placeholder k := ⟨cs ++ β, by rw [← List.append_assoc, eq]⟩
      refine noContext ⟨α, β, start, fun same => void ?_, ⟨α ++ cs, eq⟩, fun same => void ?_,
        eq ▸ List.infix_rfl⟩
      · rw [← same, List.append_assoc, List.append_right_eq_self] at eq
        exact (List.append_eq_nil_iff.mp eq).1
      · rw [← same, List.append_left_eq_self] at eq
        exact (List.append_eq_nil_iff.mp eq).2
  case before =>
    rintro m nonempty ⟨front, rfl⟩ ⟨β, eq⟩
    refine noContext ⟨[], β, List.nil_prefix, empty, ⟨m, eq⟩, fun same => nonempty ?_,
      ⟨front, [], ?_⟩⟩
    · exact List.append_left_eq_self.mp (eq.trans same.symm)
    · rw [← eq]
      simp only [List.append_assoc, List.nil_append, List.append_nil]
  case behind =>
    rintro m nonempty ⟨back, rfl⟩ ⟨α, eq⟩
    refine noContext ⟨α, [], ⟨m, eq⟩, fun same => nonempty ?_, List.nil_suffix, empty,
      ⟨[], back, ?_⟩⟩
    · exact List.append_right_eq_self.mp (eq.trans same.symm)
    · rw [← eq]
      simp only [List.append_assoc, List.nil_append, List.append_nil]

theorem put_front (plain : Braceless x.1) (plain' : Braceless k) (absent : ¬ placeholder x.1 <:+: α)
    (β : List Char) :
    put (α ++ (placeholder k ++ β)) x = α ++ put (placeholder k ++ β) x := by
  refine substitute_append fun m nonempty suffix found => ?_
  rcases List.prefix_or_prefix_of_prefix found (List.prefix_append m _) with part | ⟨r, eq⟩
  · exact absent (part.isInfix.trans suffix.isInfix)
  · have later : r <+: placeholder k ++ β := (List.prefix_append_right_inj m).mp (eq ▸ found)
    have behind : r <:+ placeholder x.1 := ⟨m, eq⟩
    -- What runs on behind the text ends a placeholder and meets the next one, so that it would be a
    -- whole one.
    by_cases void : r = []
    · rw [void, List.append_nil] at eq
      exact absent (eq ▸ suffix.isInfix)
    · have whole : r = placeholder x.1 := by
        rcases List.prefix_or_prefix_of_prefix later (List.prefix_append _ β) with start | wide
        · exact (eq_of_border plain plain' void behind start).1
        · have same := eq_of_isInfix_placeholder plain' plain (wide.isInfix.trans behind.isInfix)
          exact ((same ▸ wide).eq_of_length_le behind.length_le).symm
      exact nonempty (List.append_left_eq_self.mp (eq.trans whole.symm))

theorem put_context (plain : Braceless x.1) (plain' : Braceless k) (other : k ≠ x.1)
    (front : ¬ placeholder x.1 <:+: α) (back : ¬ placeholder x.1 <:+: β) :
    put (α ++ (placeholder k ++ β)) x = α ++ (placeholder k ++ β) := by
  rw [put_front plain plain' front, put, (apart_placeholder plain' plain other).substitute_append,
    substitute_of_not_isInfix back]

theorem put_context_self (plain : Braceless x.1) (front : ¬ placeholder x.1 <:+: α)
    (back : ¬ placeholder x.1 <:+: β) :
    put (α ++ (placeholder x.1 ++ β)) x = α ++ (x.2.toList ++ β) := by
  rw [put_front plain plain front, put, substitute_match (placeholder_ne_nil _),
    substitute_of_not_isInfix back]

theorem foldl_put_of_idle {todo : List (String × String)} (idle : ∀ pair ∈ todo, put cs pair = cs) :
    todo.foldl put cs = cs := by
  induction todo with
  | nil => rfl
  | cons pair todo ih =>
    rw [List.foldl_cons, idle pair List.mem_cons_self, ih fun other mem =>
      idle other (List.mem_cons_of_mem _ mem)]

theorem foldl_put_perm (distinct : (values.map Prod.fst).Nodup)
    (plain : ∀ pair ∈ values, Braceless pair.1) (clear : ∀ x ∈ values, ∀ y ∈ values, x ≠ y →
      Clear x y) {values' : List (String × String)} (perm : values.Perm values')
    (cs : List Char) : values.foldl put cs = values'.foldl put cs := by
  refine perm.foldl_eq' (fun x hx y hy cs => ?_) cs
  by_cases same : x = y
  · rw [same]
  · have other : x.1 ≠ y.1 := fun level => same (List.inj_on_of_nodup_map distinct hx hy level)
    exact put_comm (plain x hx) (plain y hy) other (clear x hx y hy same)
      (clear y hy x hx (Ne.symm same)) cs

/-- Where a value can take part in a placeholder, there is a template that tells the orders of the
two pairs apart. -/
theorem clear_of_foldl_put_perm (distinct : (values.map Prod.fst).Nodup)
    (plain : ∀ pair ∈ values, Braceless pair.1)
      (order : ∀ (cs : List Char) (values' : List (String × String)), values'.Perm values →
        values'.foldl put cs = values.foldl put cs) (hx : x ∈ values) (hy : y ∈ values) (other : x ≠
          y) : Clear x y := by
  by_cases apart : Apart x.2.toList (placeholder y.1)
  · exact .inr apart
  obtain ⟨α, β, start, short, suffix, short', there⟩ := exists_context apart
  have front {k : String} (plain' : Braceless k) : ¬ placeholder k <:+: α :=
    not_isInfix_of_part plain' (plain y hy) start.isInfix short
  have back {k : String} (plain' : Braceless k) : ¬ placeholder k <:+: β :=
    not_isInfix_of_part plain' (plain y hy) suffix.isInfix short'
  -- All other pairs are put in first, and find nothing in the text.
  let rest := (values.erase x).erase y
  let cs := α ++ (placeholder x.1 ++ β)
  have perm : values.Perm (x :: y :: rest) := (List.perm_cons_erase hx).trans
    ((List.perm_cons_erase ((List.mem_erase_of_ne (Ne.symm other)).mpr hy)).cons x)
  have keys := (perm.map Prod.fst).nodup_iff.mp distinct
  have idle : ∀ z ∈ y :: rest, put cs z = cs := fun z hz => by
    have plain' := plain z (perm.mem_iff.mpr (List.mem_cons_of_mem x hz))
    have apart' : x.1 ≠ z.1 :=
      fun same => (List.nodup_cons.mp keys).1 (same ▸ List.mem_map_of_mem hz)
    exact put_context plain' (plain x hx) apart' (front plain') (back plain')
  have still := foldl_put_of_idle fun z hz => idle z (List.mem_cons_of_mem y hz)
  have behind (a b : String × String) : (rest ++ [a, b]).Perm (a :: b :: rest) :=
    List.perm_append_comm
  have one := order cs (rest ++ [x, y]) ((behind x y).trans perm.symm)
  have two :=
    order cs (rest ++ [y, x]) ((behind y x).trans ((List.Perm.swap x y rest).trans perm.symm))
  rw [← two, List.foldl_append, List.foldl_append, still] at one
  have last : put (put cs x) y = put cs x :=
    one.trans (congrArg (put · x) (idle y List.mem_cons_self))
  rw [put_context_self (plain x hx) (front (plain x hx)) (back (plain x hx)), ← List.append_assoc]
    at last
  exact .inl (eq_of_substitute_eq_self (placeholder_ne_nil _) there last)

end Braces

/-- The pairs are put in one after another, so that their order may show. It does not where no
placeholder of a pair begins but at its own places, whichever others were put in before: each value
is then at its places at once. Keys without braces are safe in every template exactly where no value
can take part in the placeholder of another pair. -/
theorem render_perm_iff (distinct : (values.map Prod.fst).Nodup) :
    (∀ parts, Undisturbed values parts → ∀ values', values'.Perm values →
        render (String.ofList (spell [] parts)) values' = String.ofList (spell values parts)) ∧
      ((∀ pair ∈ values, Braceless pair.1) →
        ((∀ template values', values'.Perm values →
          render template values' = render template values) ↔ ∀ x ∈ values, ∀ y ∈ values, x ≠ y →
          Clear x y)) := by
  refine ⟨fun parts undisturbed values' perm => ?_, fun plain =>
    ⟨fun order x hx y hy other => ?_, ?_⟩⟩
  · have once := perm.nodup_iff.mpr (List.Nodup.of_map _ distinct)
    have run := foldl_put_spell undisturbed (List.nil_subset values) perm.subset once
    rw [render_eq, String.toList_ofList, run, List.nil_append, spell_congr (fun _ => perm.mem_iff)]
  · refine clear_of_foldl_put_perm distinct plain (fun cs values' perm => ?_) hx hy other
    have level := render_inj.mp (order (String.ofList cs) values' perm)
    rwa [String.toList_ofList] at level
  · intro clear template values' perm
    exact render_inj.mpr (foldl_put_perm distinct plain clear perm.symm _).symm

/-- A value without text is harmless in one template and closes the gap in a placeholder of
another. -/
theorem render_perm_iff_empty :
    ([("A", ""), ("B", "x")].map Prod.fst).Nodup ∧
      (∀ values', values'.Perm [("A", ""), ("B", "x")] →
        render "\x7b\x7b.B\x7d\x7d-\x7b\x7b.A\x7d\x7d" values' = "x-") ∧
      ¬ ∀ template values', values'.Perm [("A", ""), ("B", "x")] →
        render template values' = render template [("A", ""), ("B", "x")] := by
  have distinct : ([("A", ""), ("B", "x")].map Prod.fst).Nodup := by decide
  obtain ⟨simultaneous, harmless⟩ := render_perm_iff distinct
  refine ⟨distinct, fun values' perm => ?_, fun order => ?_⟩
  · have undisturbed : Undisturbed [("A", ""), ("B", "x")] [.place ("B", "x"), .text ['-'],
        .place ("A", "")] := by decide
    have template : String.ofList (spell [] [.place ("B", "x"), .text ['-'], .place ("A", "")]) =
        "\x7b\x7b.B\x7d\x7d-\x7b\x7b.A\x7d\x7d" := by decide
    have text : String.ofList (spell [("A", ""), ("B", "x")] [.place ("B", "x"), .text ['-'],
        .place ("A", "")]) = "x-" := by
      decide
    rw [← template, simultaneous _ undisturbed values' perm, text]
  · have clear :=
      (harmless (by decide)).mp order ("A", "") (by decide) ("B", "x") (by decide) (by decide)
    exact absurd clear (by decide)

/-- A value that is the placeholder of another pair is put in for good only where the other came
before. -/
theorem not_render_perm :
    ¬ ∀ (template : String) (values values' : List (String × String)), (values.map Prod.fst).Nodup →
    values'.Perm values →
      render template values' = render template values := by
  intro same
  have first : render "\x7b\x7b.A\x7d\x7d" [("A", "\x7b\x7b.B\x7d\x7d"), ("B", "x")] = "x" := by
    decide
  have second : render "\x7b\x7b.A\x7d\x7d" [("B", "x"), ("A", "\x7b\x7b.B\x7d\x7d")] =
      "\x7b\x7b.B\x7d\x7d" := by decide
  have level :=
    same "\x7b\x7b.A\x7d\x7d" [("A", "\x7b\x7b.B\x7d\x7d"),
      ("B", "x")] _ (by decide) (List.Perm.swap _ _ _)
  rw [first, second] at level
  exact absurd level (by decide)

end Stowage.Template
