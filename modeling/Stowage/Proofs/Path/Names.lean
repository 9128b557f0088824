import Stowage.Proofs.Path.Components

/-! Paths made of names, and what text at the end of a path does to its last name. -/
namespace Stowage
namespace Path

def IsName (s : Bytes) : Prop := s ≠ [] ∧ s ≠ [dot] ∧ s ≠ [dot, dot] ∧ slash ∉ s

/-- Made of names alone, without a root and without dots. -/
def Plain (p : Path) : Prop := ∀ c ∈ p.components, c.isName

instance (s : Bytes) : Decidable (IsName s) := inferInstanceAs (Decidable (_ ∧ _))

instance (p : Path) : Decidable p.Plain :=
  inferInstanceAs (Decidable (∀ c ∈ p.components, c.isName))

theorem exists_of_mem_inside {c : Component} {bs : Bytes} (h : c ∈ inside bs) :
    ∃ s ∈ split bs, c = .ofOctets s ∧ s ≠ [] ∧ s ≠ [dot] := by
  obtain ⟨t, ht, rfl⟩ := List.mem_map.mp h
  obtain ⟨ht, solid⟩ := List.mem_filter.mp ht
  obtain ⟨s, hs, rfl⟩ := List.mem_map.mp ht
  exact ⟨s, hs, rfl, inner_solid_iff.mp solid⟩

theorem isName_of_mem_inside {s : Bytes} {bs : Bytes} (h : .name s ∈ inside bs) : IsName s := by
  obtain ⟨t, ht, eq, nonempty, other⟩ := exists_of_mem_inside h
  unfold Component.ofOctets at eq
  split_ifs at eq with here up
  cases eq
  exact ⟨nonempty, here, up, slash_not_mem_of_mem_split ht⟩

theorem name_mem_inside {s : Bytes} {p : Path} (h : .name s ∈ p.components) :
    .name s ∈ inside p.spelling := by
  rw [components_eq_head] at h
  rcases List.mem_append.mp h with first | h
  · unfold head at first
    split_ifs at first
    · cases List.mem_singleton.mp first
    · cases List.mem_singleton.mp first
    · exact absurd first List.not_mem_nil
  · exact h

theorem isName_of_mem {s : Bytes} {p : Path} (h : .name s ∈ p.components) : IsName s :=
  isName_of_mem_inside (name_mem_inside h)

theorem mem_of_name_mem {s : Bytes} {p : Path} {b : UInt8} (h : .name s ∈ p.components)
    (mem : b ∈ s) : b ∈ p.spelling := by
  obtain ⟨t, part, eq, -⟩ := exists_of_mem_inside (name_mem_inside h)
  have octets := congrArg Component.octets eq
  rw [octets_ofOctets] at octets
  exact mem_of_mem_split part (octets ▸ mem)

theorem ofOctets_of_isName {s : Bytes} (h : IsName s) : Component.ofOctets s = .name s := by
  rw [Component.ofOctets, if_neg h.2.1, if_neg h.2.2.1]

theorem inner_solid_of_isName {s : Bytes} (h : IsName s) : (inner s).solid :=
  inner_solid_iff.mpr ⟨h.1, h.2.1⟩

theorem not_isRooted_of_here_root {p : Path} (h : .root ∉ p.components) : ¬ p.isRooted :=
  fun rooted =>
  h (by rw [components_eq, if_pos rooted]; exact List.mem_cons_self)

theorem not_isRooted_of_slash_not_mem {bs : Bytes} (h : slash ∉ bs) : ¬ isRooted ⟨bs⟩ := by
  intro rooted
  obtain ⟨rest, spelling⟩ := isRooted_iff.mp rooted
  exact h (by rw [show bs = slash :: rest from spelling]; exact List.mem_cons_self)

theorem components_eq_inside {p : Path} (relative : ¬ p.isRooted) (h : .here ∉ p.components) :
    p.components = inside p.spelling := by
  have eq := components_unrooted relative
  split at eq
  · exact absurd (eq ▸ List.mem_cons_self) h
  · exact eq

theorem Plain.not_mem {p : Path} (h : p.Plain) : .root ∉ p.components ∧ .here ∉ p.components ∧
    .up ∉ p.components :=
  ⟨fun e => Bool.false_ne_true (h _ e), fun e => Bool.false_ne_true (h _ e), fun e =>
    Bool.false_ne_true (h _ e)⟩

theorem Plain.not_isRooted {p : Path} (h : p.Plain) : ¬ p.isRooted :=
  not_isRooted_of_here_root h.not_mem.1

theorem Plain.components_eq {p : Path} (h : p.Plain) : p.components = inside p.spelling :=
  components_eq_inside h.not_isRooted h.not_mem.2.1

theorem components_join_of_plain {base q : Path} (h : q.Plain) :
    (base.join q).components = base.components ++ q.components := by
  by_cases empty : base.spelling = []
  · have flat : base.components = [] := by
      obtain ⟨spelling⟩ := base
      cases empty
      rfl
    rw [join_of_empty empty, flat, List.nil_append]
  · rw [components_join empty h.not_isRooted, h.components_eq]

theorem exists_map_name {cs : List Component} (h : ∀ c ∈ cs, c.isName) :
    ∃ names : List Bytes, cs = names.map .name := by
  induction cs with
  | nil => exact ⟨[], rfl⟩
  | cons c cs ih =>
    obtain ⟨names, rfl⟩ := ih fun d hd => h d (List.mem_cons_of_mem _ hd)
    cases c with
    | name s => exact ⟨s :: names, rfl⟩
    | _ => exact absurd (h _ List.mem_cons_self) Bool.false_ne_true

theorem Plain.exists_names {p : Path} (h : p.Plain) :
    ∃ names : List Bytes, p.components = names.map .name ∧ ∀ s ∈ names, IsName s := by
  obtain ⟨names, eq⟩ := exists_map_name h
  exact ⟨names, eq, fun s hs => isName_of_mem (p := p) (eq ▸ List.mem_map_of_mem hs)⟩

theorem exists_split_head {p : Path} (relative : ¬ p.isRooted) (nonempty : p.spelling ≠ []) :
    ∃ s rest, split p.spelling = s :: rest ∧ s ≠ [] := by
  obtain ⟨s, rest, eq⟩ := List.exists_cons_of_ne_nil (split_ne_nil p.spelling)
  refine ⟨s, rest, eq, ?_⟩
  rintro rfl
  cases rest with
  | nil =>
    have length := sum_length_split p.spelling
    rw [eq] at length
    exact nonempty (List.eq_nil_of_length_eq_zero (Nat.succ.inj length.symm))
  | cons t rest => exact relative (isRooted_iff_split.mpr ⟨t, rest, eq⟩)

theorem components_ne_nil {p : Path} (nonempty : p.spelling ≠ []) : p.components ≠ [] := by
  by_cases rooted : p.isRooted
  · rw [components_eq, if_pos rooted]
    exact List.cons_ne_nil _ _
  · obtain ⟨s, rest, eq, full⟩ := exists_split_head rooted nonempty
    obtain ⟨s', rest', eq', segments⟩ := segments_unrooted rooted
    rw [eq] at eq'
    obtain ⟨rfl, rfl⟩ := List.cons.inj eq'
    rw [components_eq, if_neg rooted, segments, solids_cons_of_solid (by simpa using full)]
    exact List.cons_ne_nil _ _

theorem Plain.split_head {p : Path} (h : p.Plain) (nonempty : p.spelling ≠ []) :
    ∃ s rest, split p.spelling = s :: rest ∧ s ≠ [] ∧ s ≠ [dot] := by
  obtain ⟨s, rest, eq, full⟩ := exists_split_head h.not_isRooted nonempty
  refine ⟨s, rest, eq, full, ?_⟩
  rintro rfl
  have first := components_unrooted h.not_isRooted
  rw [eq, List.head?_cons, if_pos rfl] at first
  exact h.not_mem.2.1 (first ▸ List.mem_cons_self)

theorem here_not_mem_inside (bs : Bytes) : .here ∉ inside bs := by
  intro h
  obtain ⟨s, -, eq, -, apart⟩ := exists_of_mem_inside h
  have octets := congrArg Component.octets eq
  rw [octets_ofOctets] at octets
  exact apart octets.symm

theorem here_not_mem_of_append {p base : Path} {rest : List Component}
    (nonempty : base.spelling ≠ []) (h : p.components = base.components ++ rest) :
    .here ∉ rest := by
  obtain ⟨c, cs, first⟩ := List.exists_cons_of_ne_nil (components_ne_nil nonempty)
  rw [first, components_eq_head] at h
  have body := here_not_mem_inside p.spelling
  have short : p.head.length ≤ 1 := by
    unfold head
    split
    · exact Nat.le_refl _
    · split
      · exact Nat.le_refl _
      · exact Nat.zero_le _
  match head : p.head, short with
  | [], _ =>
    rw [head, List.nil_append] at h
    exact fun here => body (h ▸ List.mem_append_right _ here)
  | [_], _ =>
    rw [head] at h
    have tail : inside p.spelling = cs ++ rest := (List.cons.inj h).2
    exact fun here => body (tail ▸ List.mem_append_right _ here)

theorem isRooted_of_components {p : Path} {rest : List Component}
    (h : p.components = .root :: rest) : p.isRooted := by
  by_contra relative
  rw [components_eq, if_neg relative, List.nil_append] at h
  exact root_not_mem_solids p.segments (h ▸ List.mem_cons_self)

/-- A path that has a root, or begins as the base does, is joined again from what is told of it from
the base. -/
theorem join_below? {base p : Path} (h : p.isRooted ∨ base.components <+: p.components) :
    (base.join ((p.below? base).getD p)).same p := by
  rw [same_iff]
  by_cases front : base.components <+: p.components
  · obtain ⟨rest, eq⟩ := front
    obtain ⟨q, below, left⟩ := below?_of_append eq.symm
    rw [below, Option.getD_some, ← eq, ← left]
    by_cases empty : base.spelling = []
    · obtain ⟨spelling⟩ := base
      cases empty
      rw [join_of_empty rfl]
      rfl
    · have down : .root ∉ rest := by
        have tail := root_not_mem_tail p
        rw [← eq, List.tail_append_of_ne_nil (components_ne_nil empty)] at tail
        exact fun mem => tail (List.mem_append_right _ mem)
      have relative : ¬ q.isRooted := not_isRooted_of_here_root (left ▸ down)
      rw [components_join empty relative,
        components_eq_inside relative (left ▸ here_not_mem_of_append empty eq.symm)]
  · have apart : p.below? base = none := if_neg (List.isPrefixOf_iff_prefix.not.mpr front)
    rw [apart, Option.getD_none, join, if_pos (h.resolve_right front)]

theorem solids_map_inner {names : List Bytes} (h : ∀ s ∈ names, IsName s) :
    solids (names.map inner) = names.map .name := by
  induction names with
  | nil => rfl
  | cons s names ih =>
    have first := h s List.mem_cons_self
    rw [List.map_cons, List.map_cons, solids_cons_of_solid (inner_solid_of_isName first),
      ih fun t ht => h t (List.mem_cons_of_mem _ ht)]
    exact congrArg (· :: _) (ofOctets_of_isName first)

theorem components_intercalate {names : List Bytes} (h : ∀ s ∈ names, IsName s) :
    components ⟨[slash].intercalate names⟩ = names.map .name := by
  have clean : ∀ s ∈ names, slash ∉ s := fun s hs => (h s hs).2.2.2
  have first : ∀ s ∈ names.head?, (inner s).solid :=
    fun s hs => inner_solid_of_isName (h s (List.mem_of_mem_head? hs))
  have spelled := components_spell_parts clean first
  rw [spellSegments, map_octets_inner, solids_map_inner h] at spelled
  exact spelled

theorem components_of_isName {s : Bytes} (h : IsName s) : components ⟨s⟩ = [.name s] := by
  have alone : ∀ t ∈ [s], IsName t := by simpa using h
  have spelled := components_intercalate alone
  rwa [List.intercalate_singleton] at spelled

theorem components_joinText {name : String} (h : IsName (Utf8.ofString name)) (base : Path) :
    (base.joinText name).components = base.components ++ [.name (Utf8.ofString name)] := by
  have own : (ofString name).components = [.name (Utf8.ofString name)] := components_of_isName h
  have plain : (ofString name).Plain := by
    intro c hc
    rw [own] at hc
    rw [List.mem_singleton.mp hc]
    rfl
  rw [joinText, components_join_of_plain plain, own]

theorem split_append {tail : Bytes} (h : slash ∉ tail) (front : Bytes) :
    ∃ whole part, split front = whole ++ [part] ∧
    split (front ++ tail) = whole ++ [part ++ tail] := by
  induction front with
  | nil => exact ⟨[], [], rfl, split_of_slash_not_mem h⟩
  | cons b front ih =>
    obtain ⟨whole, part, eq, joined⟩ := ih
    by_cases first : b = slash
    · subst first
      exact ⟨[] :: whole, part, by rw [split_slash, eq]; rfl,
        by rw [List.cons_append, split_slash, joined]; rfl⟩
    · obtain ⟨s, rest, head, cons⟩ := exists_split_cons first front
      obtain ⟨t, others, head', cons'⟩ := exists_split_cons first (front ++ tail)
      rw [head] at eq
      rw [head'] at joined
      rw [List.cons_append, cons, cons']
      cases whole with
      | nil =>
        cases eq
        cases joined
        exact ⟨[], b :: part, rfl, rfl⟩
      | cons u whole =>
        cases eq
        cases joined
        exact ⟨(b :: s) :: whole, part, rfl, rfl⟩

theorem isName_append {part tail : Bytes} (h : slash ∉ part) (clean : slash ∉ tail)
    (long : 2 < tail.length) :
    IsName (part ++ tail) := by
  have apart {s : Bytes} (short : s.length ≤ 2) : part ++ tail ≠ s := by
    rintro rfl
    rw [List.length_append] at short
    omega
  refine ⟨apart (by decide), apart (by decide), apart (by decide), ?_⟩
  rw [List.mem_append, not_or]
  exact ⟨h, clean⟩

theorem inside_append {tail : Bytes} (h : slash ∉ tail) (long : 2 < tail.length) (front : Bytes) :
    ∃ whole part, split front = whole ++ [part] ∧
      inside (front ++ tail) = solids (whole.map inner) ++ [.name (part ++ tail)] := by
  obtain ⟨whole, part, eq, joined⟩ := split_append h front
  have mem : part ∈ split front := eq ▸ List.mem_append_right _ List.mem_cons_self
  have clean : slash ∉ part := slash_not_mem_of_mem_split mem
  have named := isName_append clean h long
  refine ⟨whole, part, eq, ?_⟩
  rw [inside, joined, List.map_append, solids_append, List.map_singleton,
    solids_cons_of_solid (inner_solid_of_isName named)]
  exact congrArg (fun c => _ ++ [c]) (ofOctets_of_isName named)

theorem fileName?_append {tail : Bytes} (h : slash ∉ tail) (long : 2 < tail.length)
    (front : Bytes) :
    ∃ part, fileName? ⟨front ++ tail⟩ = some (part ++ tail) := by
  obtain ⟨whole, part, -, eq⟩ := inside_append h long front
  refine ⟨part, ?_⟩
  have last : (components ⟨front ++ tail⟩).getLast? = some (.name (part ++ tail)) := by
    rw [components_eq_head, eq, ← List.append_assoc, List.getLast?_concat]
  rw [fileName?, last]

end Path
end Stowage
