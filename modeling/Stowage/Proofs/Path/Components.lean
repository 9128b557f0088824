import Mathlib.Algebra.GroupWithZero.Nat
import Mathlib.Data.List.Basic
import Mathlib.Tactic.Common
import Stowage.Path

/-! The components of paths that are put together or cut: what stands behind a slash adds its own
components, the parent lacks the last one, and the path below another one has those that are
left. -/
namespace Stowage

def Component.isName : Component → Bool
  | .name _ => true
  | _ => false

namespace Path

theorem same_congr_right {p q : Path} (h : p.same q) (r : Path) : r.same p = r.same q := by
  rw [same_comm, same_congr h, same_comm]

@[simp]
theorem split_nil : split [] = [[]] := rfl

@[simp]
theorem split_slash (bs : Bytes) : split (slash :: bs) = [] :: split bs := if_pos rfl

theorem split_ne_nil (bs : Bytes) : split bs ≠ [] := by
  cases bs with
  | nil => exact List.cons_ne_nil _ _
  | cons b bs =>
    rw [split]
    split
    · exact List.cons_ne_nil _ _
    · split <;> exact List.cons_ne_nil _ _

theorem exists_split_cons {b : UInt8} (h : b ≠ slash) (bs : Bytes) :
    ∃ s rest, split bs = s :: rest ∧ split (b :: bs) = (b :: s) :: rest := by
  obtain ⟨s, rest, eq⟩ := List.exists_cons_of_ne_nil (split_ne_nil bs)
  exact ⟨s, rest, eq, by rw [split, if_neg h, eq]⟩

theorem split_append_slash (front bs : Bytes) :
    split (front ++ slash :: bs) = split front ++ split bs := by
  induction front with
  | nil => simp
  | cons b front ih =>
    by_cases h : b = slash
    · rw [h, List.cons_append, split_slash, split_slash, ih, List.cons_append]
    · obtain ⟨s, rest, eq, cons⟩ := exists_split_cons h front
      rw [cons, List.cons_append, split, if_neg h, ih, eq]
      rfl

theorem slash_not_mem_of_mem_split {s bs : Bytes} (h : s ∈ split bs) : slash ∉ s := by
  induction bs generalizing s with
  | nil => simp_all
  | cons b bs ih =>
    by_cases first : b = slash
    · rw [first, split_slash] at h
      rcases List.mem_cons.mp h with rfl | h
      · exact List.not_mem_nil
      · exact ih h
    · obtain ⟨t, rest, eq, cons⟩ := exists_split_cons first bs
      rw [cons] at h
      rcases List.mem_cons.mp h with rfl | h
      · rw [List.mem_cons]
        rintro (same | behind)
        · exact first same.symm
        · exact ih (eq ▸ List.mem_cons_self) behind
      · exact ih (eq ▸ List.mem_cons_of_mem _ h)

theorem split_of_slash_not_mem {s : Bytes} (h : slash ∉ s) : split s = [s] := by
  induction s with
  | nil => rfl
  | cons b s ih =>
    obtain ⟨t, rest, eq, cons⟩ := exists_split_cons (fun e => h (e ▸ List.mem_cons_self)) s
    rw [ih fun e => h (List.mem_cons_of_mem _ e)] at eq
    rw [cons, (List.cons.inj eq).1, (List.cons.inj eq).2]

theorem split_intercalate {parts : List Bytes} (nonempty : parts ≠ [])
    (h : ∀ s ∈ parts, slash ∉ s) :
    split ([slash].intercalate parts) = parts := by
  induction parts with
  | nil => exact absurd rfl nonempty
  | cons s rest ih =>
    cases rest with
    | nil => rw [List.intercalate_singleton, split_of_slash_not_mem (h s List.mem_cons_self)]
    | cons t rest =>
      rw [List.intercalate_cons_cons, List.append_assoc, List.singleton_append, split_append_slash,
        split_of_slash_not_mem (h s List.mem_cons_self),
        ih (List.cons_ne_nil _ _) fun u hu => h u (List.mem_cons_of_mem _ hu)]
      rfl

theorem mem_of_mem_split {b : UInt8} {s bs : Bytes} (h : s ∈ split bs) (mem : b ∈ s) : b ∈ bs := by
  induction bs generalizing s with
  | nil => exact absurd mem (List.mem_singleton.mp h ▸ List.not_mem_nil)
  | cons c bs ih =>
    by_cases first : c = slash
    · rw [first, split_slash] at h
      rcases List.mem_cons.mp h with rfl | h
      · exact absurd mem List.not_mem_nil
      · exact List.mem_cons_of_mem _ (ih h mem)
    · obtain ⟨t, rest, eq, cons⟩ := exists_split_cons first bs
      rw [cons] at h
      rcases List.mem_cons.mp h with rfl | h
      · rcases List.mem_cons.mp mem with rfl | mem
        · exact List.mem_cons_self
        · exact List.mem_cons_of_mem _ (ih (eq ▸ List.mem_cons_self) mem)
      · exact List.mem_cons_of_mem _ (ih (eq ▸ List.mem_cons_of_mem _ h) mem)

theorem sum_length_split (bs : Bytes) :
    ((split bs).map fun s => s.length + 1).sum = bs.length + 1 := by
  induction bs with
  | nil => rfl
  | cons b bs ih =>
    by_cases h : b = slash
    · rw [h, split_slash, List.map_cons, List.sum_cons, ih, List.length_cons, List.length_nil]
      omega
    · obtain ⟨s, rest, eq, cons⟩ := exists_split_cons h bs
      rw [eq, List.map_cons, List.sum_cons] at ih
      rw [cons, List.map_cons, List.sum_cons, List.length_cons, List.length_cons]
      omega

theorem split_take (bs : Bytes) (n : Nat) :
    ∃ whole part more rest, split (bs.take n) = whole ++ [part] ∧
    split bs = whole ++ (part ++ more) :: rest := by
  induction bs generalizing n with
  | nil => exact ⟨[], [], [], [], by rw [List.take_nil]; rfl, rfl⟩
  | cons b bs ih =>
    cases n with
    | zero =>
      obtain ⟨s, rest, eq⟩ := List.exists_cons_of_ne_nil (split_ne_nil (b :: bs))
      exact ⟨[], [], s, rest, rfl, eq⟩
    | succ n =>
      obtain ⟨whole, part, more, rest, cut, eq⟩ := ih n
      rw [List.take_succ_cons]
      by_cases h : b = slash
      · subst h
        exact ⟨[] :: whole, part, more, rest, by rw [split_slash, cut]; rfl,
          by rw [split_slash, eq]; rfl⟩
      · obtain ⟨s, others, first, cons⟩ := exists_split_cons h bs
        obtain ⟨t, behind, head, joined⟩ := exists_split_cons h (bs.take n)
        cases whole with
        | nil =>
          refine ⟨[], b :: part, more, rest, ?_, ?_⟩
          · rw [joined]
            rw [head] at cut
            cases cut
            rfl
          · rw [cons]
            rw [first] at eq
            cases eq
            rfl
        | cons u whole =>
          refine ⟨(b :: u) :: whole, part, more, rest, ?_, ?_⟩
          · rw [joined]
            rw [head] at cut
            cases cut
            rfl
          · rw [cons]
            rw [first] at eq
            cases eq
            rfl

theorem inner_solid_iff {s : Bytes} : (inner s).solid ↔ s ≠ [] ∧ s ≠ [dot] := by
  simp [inner]

def solids (segments : List Segment) : List Component :=
  (segments.filter Segment.solid).map fun s => Component.ofOctets s.octets

@[simp]
theorem octets_ofOctets (s : Bytes) : (Component.ofOctets s).octets = s := by
  unfold Component.ofOctets
  split_ifs with here up
  · exact here.symm
  · exact up.symm
  · rfl

theorem solids_append (s t : List Segment) : solids (s ++ t) = solids s ++ solids t := by
  rw [solids, List.filter_append, List.map_append]
  rfl

theorem solids_cons_of_solid {s : Segment} (h : s.solid) (rest : List Segment) :
    solids (s :: rest) = .ofOctets s.octets :: solids rest := by
  rw [solids, List.filter_cons_of_pos h]
  rfl

theorem solids_cons_of_hollow {s : Segment} (h : ¬ s.solid) (rest : List Segment) :
    solids (s :: rest) = solids rest := by
  rw [solids, List.filter_cons_of_neg h]
  rfl

theorem solids_dropHollow (segments : List Segment) :
    solids (dropHollow segments) = solids segments := by
  induction segments with
  | nil => rfl
  | cons s rest ih =>
    by_cases h : s.solid
    · rw [dropHollow, List.dropWhile_cons_of_neg (by simp [h])]
    · rw [dropHollow, List.dropWhile_cons_of_pos (by simp [h]), solids_cons_of_hollow h]
      exact ih

theorem solids_reverse (segments : List Segment) :
    solids segments.reverse = (solids segments).reverse := by
  rw [solids, List.filter_reverse, List.map_reverse]
  rfl

theorem solids_trimHollow (segments : List Segment) :
    solids (trimHollow segments) = solids segments := by
  rw [trimHollow, solids_reverse, solids_dropHollow, solids_reverse, List.reverse_reverse]

/-- The components of octets that do not stand at the head of a path. -/
def inside (bs : Bytes) : List Component := solids ((split bs).map inner)

@[simp]
theorem inside_nil : inside [] = [] := rfl

theorem inside_append_slash (front bs : Bytes) :
    inside (front ++ slash :: bs) = inside front ++ inside bs := by
  rw [inside, split_append_slash, List.map_append, solids_append]
  rfl

theorem isRooted_iff {p : Path} : p.isRooted ↔ ∃ bs, p.spelling = slash :: bs := by
  cases h : p.spelling <;> simp [isRooted, h]

theorem isRooted_cons {b : UInt8} {bs : Bytes} : isRooted ⟨b :: bs⟩ ↔ b = slash := by
  simp [isRooted]

theorem components_eq (p : Path) :
    p.components = (if p.isRooted then [.root] else []) ++ solids p.segments := by
  rw [components]
  split <;> rfl

@[simp]
theorem components_rooted (bs : Bytes) : components ⟨slash :: bs⟩ = .root :: inside bs := rfl

theorem segments_unrooted {p : Path} (h : ¬ p.isRooted) :
    ∃ s rest, split p.spelling = s :: rest ∧ p.segments = ⟨s, s ≠ []⟩ :: rest.map inner := by
  obtain ⟨s, rest, eq⟩ := List.exists_cons_of_ne_nil (split_ne_nil p.spelling)
  exact ⟨s, rest, eq, by rw [segments, if_neg h, eq]⟩

theorem components_unrooted {p : Path} (h : ¬ p.isRooted) :
    p.components = (if (split p.spelling).head? = some [dot] then [.here] else []) ++
      inside p.spelling := by
  obtain ⟨s, rest, eq, segments⟩ := segments_unrooted h
  rw [components_eq, if_neg h, segments, inside, eq, List.head?_cons, List.map_cons]
  by_cases dotted : s = [dot]
  · subst dotted
    rfl
  · rw [if_neg (fun e => dotted (Option.some.inj e))]
    by_cases empty : s = []
    · subst empty
      rfl
    · rw [solids_cons_of_solid (by simpa using empty),
        solids_cons_of_solid (inner_solid_iff.mpr ⟨empty, dotted⟩)]
      rfl

theorem components_of_split {bs s : Bytes} {others : List Bytes} (first : split bs = s :: others)
    (full : s ≠ []) (other : s ≠ [dot]) : components ⟨bs⟩ = inside bs := by
  have relative : ¬ isRooted ⟨bs⟩ := fun rooted => by
    obtain ⟨rest, spelling⟩ := isRooted_iff.mp rooted
    rw [show bs = slash :: rest from spelling, split_slash] at first
    exact full (List.cons.inj first).1.symm
  rw [components_unrooted relative, first, List.head?_cons, if_neg fun e =>
    other (Option.some.inj e), List.nil_append]

/-- What a path has before the components that do not depend on where it stands. -/
def head (p : Path) : List Component :=
  if p.isRooted then [.root] else if (split p.spelling).head? = some [dot] then [.here] else []

theorem components_eq_head (p : Path) : p.components = p.head ++ inside p.spelling := by
  by_cases h : p.isRooted
  · obtain ⟨spelling⟩ := p
    obtain ⟨bs, rfl⟩ := isRooted_iff.mp h
    rw [head, if_pos h, components_rooted]
    exact congrArg (.root :: ·) (inside_append_slash [] bs).symm
  · rw [head, if_neg h, components_unrooted h]

theorem components_append_slash {front : Bytes} (h : front ≠ []) (bs : Bytes) :
    components ⟨front ++ slash :: bs⟩ = components ⟨front⟩ ++ inside bs := by
  obtain ⟨b, front, rfl⟩ := List.exists_cons_of_ne_nil h
  by_cases first : b = slash
  · subst first
    rw [List.cons_append, components_rooted, components_rooted, inside_append_slash,
      List.cons_append]
  · obtain ⟨s, rest, _, eq⟩ := exists_split_cons first front
    have whole := split_append_slash (b :: front) bs
    rw [List.cons_append, components_unrooted (isRooted_cons.not.mpr first),
      components_unrooted (isRooted_cons.not.mpr first), ← List.cons_append, whole, eq,
      inside_append_slash,
      List.append_assoc]
    rfl

/-- A path without root adds its components to those of a base, less a dot at its head. -/
theorem components_join {base p : Path} (h : base.spelling ≠ []) (relative : ¬ p.isRooted) :
    (base.join p).components = base.components ++ inside p.spelling := by
  have full : base.isEmpty = false := by simpa [isEmpty] using h
  rw [join, if_neg relative, full, Bool.false_or]
  split
  · rename_i ends
    have last : base.spelling.getLast? = some slash := by simpa using ends
    obtain ⟨front, eq⟩ := List.getLast?_eq_some_iff.mp last
    rw [eq, List.append_assoc, List.singleton_append]
    have whole : base.components = components ⟨front ++ slash :: []⟩ := by rw [← eq]
    rw [whole]
    by_cases empty : front = []
    · subst empty
      rfl
    · rw [components_append_slash empty, components_append_slash empty, inside_nil, List.append_nil]
  · exact components_append_slash h _

theorem join_of_empty {base p : Path} (h : base.spelling = []) : base.join p = p := by
  rw [join]
  split
  · rfl
  · rw [isEmpty, h]
    rfl

theorem isRooted_iff_split {p : Path} :
    p.isRooted ↔ ∃ s rest, split p.spelling = [] :: s :: rest := by
  constructor
  · intro h
    obtain ⟨bs, eq⟩ := isRooted_iff.mp h
    obtain ⟨s, rest, cut⟩ := List.exists_cons_of_ne_nil (split_ne_nil bs)
    exact ⟨s, rest, by rw [eq, split_slash, cut]⟩
  · rintro ⟨s, rest, eq⟩
    cases spelling : p.spelling with
    | nil => simp [spelling] at eq
    | cons b bs =>
      by_contra h
      have apart : b ≠ slash := fun same => h (isRooted_iff.mpr ⟨bs, same ▸ spelling⟩)
      obtain ⟨t, more, _, cons⟩ := exists_split_cons apart bs
      rw [spelling, cons] at eq
      exact List.cons_ne_nil _ _ (List.cons.inj eq).1

theorem map_octets_inner (parts : List Bytes) : (parts.map inner).map Segment.octets = parts := by
  simp [inner, Function.comp_def]

theorem inside_intercalate {parts : List Bytes} (nonempty : parts ≠ [])
    (h : ∀ s ∈ parts, slash ∉ s) :
    inside ([slash].intercalate parts) = solids (parts.map inner) := by
  rw [inside, split_intercalate nonempty h]

theorem components_spellSegments {p : Path} {front : List Segment} (h : front <+: p.segments) :
    (spellSegments p.isRooted front).components = (if p.isRooted then [.root] else []) ++
      solids front := by
  by_cases empty : front = []
  · subst empty
    unfold spellSegments
    split <;> rfl
  by_cases rooted : p.isRooted
  · have parts : front = ((split (p.spelling.drop 1)).take front.length).map inner := by
      rw [List.map_take]
      rw [segments, if_pos rooted] at h
      exact List.prefix_iff_eq_take.mp h
    have nonempty : (split (p.spelling.drop 1)).take front.length ≠ [] :=
      fun e => empty (by rw [parts, e, List.map_nil])
    rw [spellSegments, if_pos rooted, if_pos rooted, components_rooted, parts, map_octets_inner,
      inside_intercalate nonempty]
    · rfl
    · exact fun s hs => slash_not_mem_of_mem_split (List.mem_of_mem_take hs)
  · obtain ⟨s, rest, eq, segments⟩ := segments_unrooted rooted
    obtain ⟨n, size⟩ : ∃ n, front.length = n + 1 :=
      Nat.exists_eq_succ_of_ne_zero (by simpa using empty)
    have parts : front = ⟨s, s ≠ []⟩ :: (rest.take n).map inner := by
      rw [List.map_take, ← List.take_succ_cons, ← segments, ← size]
      exact List.prefix_iff_eq_take.mp h
    have again : split ([slash].intercalate (s :: rest.take n)) = s :: rest.take n := by
      refine split_intercalate (List.cons_ne_nil _ _) fun t ht => ?_
      have own : t ∈ split p.spelling := by
        rw [eq, List.mem_cons]
        exact (List.mem_cons.mp ht).imp_right List.mem_of_mem_take
      exact slash_not_mem_of_mem_split own
    -- An empty first segment is the only one where there is no root, so that no slash follows it.
    have relative : ¬ isRooted ⟨[slash].intercalate (s :: rest.take n)⟩ := by
      intro h
      obtain ⟨t, more, cons⟩ := isRooted_iff_split.mp h
      obtain ⟨rfl, tail⟩ := List.cons.inj (again.symm.trans cons)
      obtain ⟨u, others, rfl⟩ := List.exists_cons_of_ne_nil (l := rest) fun e => by simp [e] at tail
      exact rooted (isRooted_iff_split.mpr ⟨u, others, eq⟩)
    obtain ⟨t, more, cons, same⟩ := segments_unrooted relative
    obtain ⟨rfl, rfl⟩ := List.cons.inj (again.symm.trans cons)
    rw [spellSegments, if_neg rooted, if_neg rooted, parts, List.map_cons, map_octets_inner,
      components_eq, if_neg relative, same]

theorem components_spell_parts {parts : List Bytes} (h : ∀ s ∈ parts, slash ∉ s)
    (solid : ∀ s ∈ parts.head?, (inner s).solid) :
    (spellSegments false (parts.map inner)).components = solids (parts.map inner) := by
  rw [spellSegments, map_octets_inner]
  cases parts with
  | nil => rfl
  | cons s rest =>
    have again := split_intercalate (List.cons_ne_nil s rest) h
    have full := inner_solid_iff.mp (solid s rfl)
    have relative : ¬ isRooted ⟨[slash].intercalate (s :: rest)⟩ := by
      intro h
      obtain ⟨t, more, cons⟩ := isRooted_iff_split.mp h
      exact full.1 (List.cons.inj (again.symm.trans cons)).1
    rw [if_neg (by decide), components_unrooted relative, again, List.head?_cons,
      if_neg fun e => full.2 (Option.some.inj e), inside_intercalate (List.cons_ne_nil s rest) h]
    rfl

theorem exists_of_parentSegments {segments rest : List Segment}
    (h : parentSegments segments = some rest) :
    ∃ hollow s tail, segments = hollow ++ s :: tail ∧ solids hollow = [] ∧ s.solid ∧
    rest = dropHollow tail := by
  induction segments with
  | nil => exact absurd h (by simp [parentSegments])
  | cons s tail ih =>
    rw [parentSegments] at h
    split at h
    · rename_i solid
      exact ⟨[], s, tail, rfl, rfl, solid, (Option.some.inj h).symm⟩
    · rename_i hollow
      obtain ⟨front, t, rest, rfl, hollow', solid, eq⟩ := ih h
      exact ⟨s :: front, t, rest, rfl, by rw [solids_cons_of_hollow hollow, hollow'], solid, eq⟩

theorem parentSegments_eq_none_iff {segments : List Segment} : parentSegments segments = none ↔
    solids segments = [] := by
  induction segments with
  | nil => exact ⟨fun _ => rfl, fun _ => rfl⟩
  | cons s rest ih =>
    rw [parentSegments]
    by_cases solid : s.solid
    · simp [solid, solids_cons_of_solid]
    · rw [if_neg solid, ih, solids_cons_of_hollow solid]

theorem ofOctets_ne_root (s : Bytes) : Component.ofOctets s ≠ .root := by
  unfold Component.ofOctets
  split_ifs <;> exact fun h => Component.noConfusion h

theorem root_not_mem_solids (segments : List Segment) : .root ∉ solids segments := by
  intro mem
  obtain ⟨s, -, eq⟩ := List.mem_map.mp mem
  exact ofOctets_ne_root s.octets eq

theorem root_not_mem_tail (p : Path) : .root ∉ p.components.tail := by
  rw [components_eq]
  split
  · exact root_not_mem_solids _
  · exact fun mem => root_not_mem_solids _ (List.mem_of_mem_tail mem)

theorem components_of_parent? {p q : Path} (h : p.parent? = some q) :
    ∃ c, c ≠ .root ∧ p.components = q.components ++ [c] := by
  obtain ⟨rest, found, rfl⟩ := Option.map_eq_some_iff.mp h
  obtain ⟨hollow, s, tail, eq, nothing, solid, rfl⟩ := exists_of_parentSegments found
  have segments : p.segments = tail.reverse ++ (s :: hollow.reverse) := by
    rw [← List.reverse_reverse p.segments, eq]
    simp
  have front : (dropHollow tail).reverse <+: p.segments := by
    obtain ⟨lead, whole⟩ : dropHollow tail <:+ tail := List.dropWhile_suffix _
    refine ⟨lead.reverse ++ (s :: hollow.reverse), ?_⟩
    rw [segments, ← List.append_assoc, ← List.reverse_append, whole]
  refine ⟨.ofOctets s.octets, ofOctets_ne_root _, ?_⟩
  rw [components_spellSegments front, components_eq, segments, solids_append,
    solids_cons_of_solid solid, solids_reverse hollow, nothing, solids_reverse (dropHollow tail),
    solids_dropHollow, ← solids_reverse, List.append_assoc]
  rfl

theorem parent?_isSome_iff {p : Path} : p.parent?.isSome ↔ solids p.segments ≠ [] := by
  rw [parent?, Option.isSome_map, ← Option.ne_none_iff_isSome, ne_eq, parentSegments_eq_none_iff,
    solids_reverse]
  simp

theorem parent?_same_iff {p base : Path} :
    (p.parent?.map fun q => q.same base).getD false ↔
      ∃ c, c ≠ .root ∧ p.components = base.components ++ [c] := by
  constructor
  · intro h
    cases found : p.parent? with
    | none => rw [found] at h; cases h
    | some q =>
      rw [found, Option.map_some, Option.getD_some, same_iff] at h
      rw [← h]
      exact components_of_parent? found
  · rintro ⟨c, apart, eq⟩
    have body : solids p.segments ≠ [] := by
      intro empty
      rw [components_eq, empty, List.append_nil] at eq
      split at eq
      · obtain ⟨_, same⟩ | ⟨_, same⟩ := List.append_eq_singleton_iff.mp eq.symm
        · exact apart (List.cons.inj same).1
        · exact List.cons_ne_nil _ _ same
      · exact List.append_ne_nil_of_right_ne_nil _ (List.cons_ne_nil _ _) eq.symm
    obtain ⟨q, found⟩ := Option.isSome_iff_exists.mp (parent?_isSome_iff.mpr body)
    obtain ⟨d, _, same⟩ := components_of_parent? found
    rw [found, Option.map_some, Option.getD_some, same_iff]
    exact (List.append_inj' (same.symm.trans eq) rfl).1

theorem solids_dropSolid (n : Nat) (segments : List Segment) :
    solids (dropSolid n segments) = (solids segments).drop n := by
  induction segments generalizing n with
  | nil => cases n <;> rfl
  | cons s rest ih =>
    cases n with
    | zero => rfl
    | succ n =>
      rw [dropSolid]
      by_cases solid : s.solid
      · rw [if_pos solid, ih, solids_cons_of_solid solid, List.drop_succ_cons]
      · rw [if_neg solid, ih, solids_cons_of_hollow solid]

theorem dropSolid_suffix (n : Nat) (segments : List Segment) :
    dropSolid n segments <:+ segments := by
  induction segments generalizing n with
  | nil => cases n <;> exact List.suffix_rfl
  | cons s rest ih =>
    cases n with
    | zero => exact List.suffix_rfl
    | succ n =>
      rw [dropSolid]
      split <;> exact (ih _).trans (List.suffix_cons _ _)

theorem trimHollow_isPrefix (segments : List Segment) : trimHollow segments <+: segments := by
  have h : dropHollow segments.reverse <:+ segments.reverse := List.dropWhile_suffix _
  rwa [← List.reverse_prefix, List.reverse_reverse] at h

theorem exists_inner_of_mem {p : Path} {s : Segment}
    (h : s ∈ if p.isRooted then p.segments else p.segments.tail) :
    ∃ t, s = inner t ∧ slash ∉ t := by
  have mem {parts : List Bytes} {bs : Bytes} (sub : parts ⊆ split bs) (h : s ∈ parts.map inner) :
      ∃ t, s = inner t ∧ slash ∉ t := by
    obtain ⟨t, ht, rfl⟩ := List.mem_map.mp h
    exact ⟨t, rfl, slash_not_mem_of_mem_split (sub ht)⟩
  split at h
  · rename_i rooted
    rw [segments, if_pos rooted] at h
    exact mem (List.Subset.refl _) h
  · rename_i relative
    obtain ⟨t, rest, eq, segments⟩ := segments_unrooted relative
    rw [segments, List.tail_cons] at h
    exact mem (eq ▸ List.subset_cons_self _ _) h

theorem dropSolid_tail {n : Nat} (h : 0 < n) (segments : List Segment) :
    dropSolid n segments <:+ segments.tail := by
  obtain ⟨n, rfl⟩ := Nat.exists_eq_succ_of_ne_zero (Nat.ne_of_gt h)
  cases segments with
  | nil => exact List.suffix_rfl
  | cons s rest =>
    rw [dropSolid]
    split <;> exact dropSolid_suffix _ _

theorem head?_trimHollow {segments : List Segment} {s : Segment}
    (h : s ∈ (trimHollow (dropHollow segments)).head?) :
    s.solid := by
  obtain ⟨rest, eq⟩ := List.head?_eq_some_iff.mp h
  obtain ⟨more, whole⟩ := trimHollow_isPrefix (dropHollow segments)
  have first := List.head?_dropWhile_not (fun s : Segment => !s.solid) segments
  rw [show segments.dropWhile _ = dropHollow segments from rfl, ← whole, eq] at first
  simpa using first

theorem components_spell_inner {segments : List Segment}
    (each : ∀ s ∈ segments, ∃ t, s = inner t ∧ slash ∉ t) (first : ∀ s ∈ segments.head?, s.solid) :
    (spellSegments false segments).components = solids segments := by
  have parts : (segments.map Segment.octets).map inner = segments := by
    rw [List.map_map]
    refine (List.map_congr_left fun s hs => ?_).trans (List.map_id segments)
    obtain ⟨t, rfl, _⟩ := each s hs
    rfl
  rw [← parts, components_spell_parts]
  · intro s hs
    obtain ⟨t, ht, rfl⟩ := List.mem_map.mp hs
    obtain ⟨u, rfl, clean⟩ := each t ht
    exact clean
  · intro s hs
    rw [List.head?_map] at hs
    obtain ⟨t, ht, rfl⟩ := Option.map_eq_some_iff.mp hs
    obtain ⟨u, rfl, _⟩ := each t (List.mem_of_mem_head? ht)
    exact first _ ht

def taken (p base : Path) : Nat :=
  if p.isRooted then base.components.length - 1 else base.components.length

theorem solids_dropSolid_taken {p base : Path} {rest : List Component}
    (nonempty : base.components ≠ []) (h : p.components = base.components ++ rest) :
    solids (dropSolid (taken p base) p.segments) = rest := by
  have body := p.components_eq.symm.trans h
  rw [solids_dropSolid, taken]
  split
  · -- The root of the path is no segment, but it is the first component of the base.
    rename_i rooted
    rw [if_pos rooted] at body
    obtain ⟨c, more, eq⟩ := List.exists_cons_of_ne_nil nonempty
    rw [eq, List.singleton_append] at body
    rw [eq, (List.cons.inj body).2]
    exact List.drop_left
  · rename_i relative
    rw [if_neg relative, List.nil_append] at body
    rw [body]
    exact List.drop_left

theorem dropSolid_taken_suffix {p base : Path} (nonempty : base.components ≠ []) :
    dropSolid (taken p base) p.segments <:+ if p.isRooted then p.segments else p.segments.tail := by
  have long : 0 < base.components.length := List.length_pos_iff.mpr nonempty
  unfold taken
  split
  · exact dropSolid_suffix _ _
  · exact dropSolid_tail long _

/-- The path below another one is spelled by the segments that are left, less what is hollow at the
end. -/
theorem exists_spell_of_append {p base : Path} {rest : List Component}
    (h : p.components = base.components ++ rest) :
    ∃ rooted segments, p.below? base = some (spellSegments rooted (trimHollow segments)) ∧
      (spellSegments rooted (trimHollow segments)).components = rest ∧
      rest = (if rooted then [.root] else []) ++ solids segments := by
  have front : base.components.isPrefixOf p.components := by
    rw [List.isPrefixOf_iff_prefix, h]
    exact List.prefix_append _ _
  rw [below?, if_pos front]
  -- Only below a base that has no components can the rest begin with a root or with a dot.
  by_cases empty : base.components = []
  · rw [if_pos (by rw [empty]; rfl)]
    rw [empty, List.nil_append] at h
    refine ⟨p.isRooted, p.segments, rfl, ?_, by rw [← components_eq, h]⟩
    rw [components_spellSegments (trimHollow_isPrefix _), solids_trimHollow, ← components_eq, h]
  · rw [if_neg (by simpa using empty)]
    have left : solids (dropHollow (dropSolid (taken p base) p.segments)) = rest := by
      rw [solids_dropHollow, solids_dropSolid_taken empty h]
    have within : dropHollow (dropSolid (taken p base) p.segments) <:+ if p.isRooted then p.segments
        else p.segments.tail :=
      (List.dropWhile_suffix _).trans (dropSolid_taken_suffix empty)
    refine ⟨false, _, rfl, ?_, left.symm⟩
    refine (components_spell_inner (fun s hs => ?_) fun s hs => head?_trimHollow hs).trans ?_
    · exact exists_inner_of_mem (within.subset ((trimHollow_isPrefix _).subset hs))
    · rw [solids_trimHollow]
      exact left

theorem below?_of_append {p base : Path} {rest : List Component}
    (h : p.components = base.components ++ rest) :
    ∃ q, p.below? base = some q ∧ q.components = rest := by
  obtain ⟨rooted, segments, below, eq, -⟩ := exists_spell_of_append h
  exact ⟨_, below, eq⟩

theorem components_of_below? {p base q : Path} (h : p.below? base = some q) :
    p.components = base.components ++ q.components := by
  have front : base.components.isPrefixOf p.components := by
    by_contra apart
    rw [below?, if_neg apart] at h
    cases h
  obtain ⟨rest, eq⟩ := List.isPrefixOf_iff_prefix.mp front
  obtain ⟨r, below, same⟩ := below?_of_append eq.symm
  obtain rfl : q = r := Option.some.inj (h.symm.trans below)
  rw [same, eq]

theorem exists_concat_of_trimHollow {segments : List Segment} (nonempty : solids segments ≠ []) :
    ∃ front s, trimHollow segments = front ++ [s] ∧ s.solid := by
  have first := List.head?_dropWhile_not (fun s : Segment => !s.solid) segments.reverse
  rw [show segments.reverse.dropWhile _ = dropHollow segments.reverse from rfl] at first
  cases eq : dropHollow segments.reverse with
  | nil =>
    refine absurd ?_ nonempty
    rw [← solids_trimHollow, trimHollow, eq]
    rfl
  | cons s rest =>
    rw [eq] at first
    exact ⟨rest.reverse, s, by rw [trimHollow, eq, List.reverse_cons], by simpa using first⟩

theorem exists_intercalate_concat (parts : List Bytes) (last : Bytes) :
    ∃ front, [slash].intercalate (parts ++ [last]) = front ++ last := by
  induction parts with
  | nil => exact ⟨[], List.intercalate_singleton⟩
  | cons s parts ih =>
    obtain ⟨front, eq⟩ := ih
    obtain ⟨t, rest, cons⟩ := List.exists_cons_of_ne_nil (List.concat_ne_nil last parts)
    refine ⟨s ++ [slash] ++ front, ?_⟩
    rw [List.cons_append, cons, List.intercalate_cons_cons, ← cons, eq, List.append_assoc _ _ last]

theorem getLast?_of_below? {p base q : Path} {rest : List Component} {s : Bytes}
    (h : p.components = base.components ++ rest) (below : p.below? base = some q)
    (last : rest.getLast? = some (.name s)) (full : s ≠ []) : q.spelling.getLast? = s.getLast? := by
  obtain ⟨rooted, segments, eq, -, whole⟩ := exists_spell_of_append h
  obtain rfl : spellSegments rooted (trimHollow segments) = q :=
    Option.some.inj (eq.symm.trans below)
  have solid : solids segments ≠ [] := by
    intro empty
    rw [whole, empty, List.append_nil] at last
    split at last <;> simp at last
  obtain ⟨front, t, trimmed, there⟩ := exists_concat_of_trimHollow solid
  have own : t.octets = s := by
    rw [whole, List.getLast?_append_of_ne_nil _ solid, ← solids_trimHollow, trimmed, solids_append,
      solids_cons_of_solid there, List.getLast?_append_of_ne_nil _ (List.cons_ne_nil _ _)] at last
    exact (octets_ofOctets _).symm.trans (congrArg Component.octets (Option.some.inj last))
  obtain ⟨pre, spelled⟩ := exists_intercalate_concat (front.map Segment.octets) s
  rw [trimmed, spellSegments, List.map_append, List.map_singleton, own, spelled]
  split
  · rw [← List.cons_append, List.getLast?_append_of_ne_nil _ full]
  · rw [List.getLast?_append_of_ne_nil _ full]

end Path
end Stowage
