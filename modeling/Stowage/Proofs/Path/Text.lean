import Stowage.Proofs.Path.Names
import Stowage.Proofs.Text.Lossy

/-! Paths that are texts: so is each of their components, and so is what is spelled with them. -/
namespace Stowage.Path

theorem split_append_left {front : Bytes} (h : slash ∉ front) (bs : Bytes) :
    ∃ s rest, split bs = s :: rest ∧ split (front ++ bs) = (front ++ s) :: rest := by
  induction front with
  | nil =>
    obtain ⟨s, rest, eq⟩ := List.exists_cons_of_ne_nil (split_ne_nil bs)
    exact ⟨s, rest, eq, eq⟩
  | cons b front ih =>
    rw [List.mem_cons, not_or] at h
    obtain ⟨s, rest, eq, joined⟩ := ih h.2
    obtain ⟨t, others, first, cons⟩ := exists_split_cons (Ne.symm h.1) (front ++ bs)
    rw [joined] at first
    obtain ⟨rfl, rfl⟩ := List.cons.inj first
    exact ⟨s, rest, eq, cons⟩

theorem not_mem_encodeChar {c d : Char} (small : d.toNat < 0x80) (other : c ≠ d) :
    UInt8.ofNat d.toNat ∉ String.utf8EncodeChar c := by
  intro mem
  have single : UInt8.ofNat d.toNat ∈ Utf8.encode [c] := by
    rwa [Utf8.encode_cons, Utf8.encode_nil, List.append_nil]
  exact other (List.mem_singleton.mp (Utf8.mem_of_mem_encode small single)).symm

theorem exists_encode_of_mem_split {s : Bytes} {cs : List Char} (h : s ∈ split (Utf8.encode cs)) :
    ∃ ds, s = Utf8.encode ds := by
  induction cs generalizing s with
  | nil => exact ⟨[], List.mem_singleton.mp h⟩
  | cons c cs ih =>
    rw [Utf8.encode_cons] at h
    by_cases same : c = '/'
    · subst same
      rcases List.mem_cons.mp h with rfl | h
      · exact ⟨[], rfl⟩
      · exact ih h
    · have clean : slash ∉ String.utf8EncodeChar c :=
        not_mem_encodeChar (by decide : ('/' : Char).toNat < 0x80) same
      obtain ⟨t, rest, eq, joined⟩ := split_append_left clean (Utf8.encode cs)
      rw [joined] at h
      rcases List.mem_cons.mp h with rfl | h
      · obtain ⟨ds, rfl⟩ := ih (eq ▸ List.mem_cons_self)
        exact ⟨c :: ds, (Utf8.encode_cons c ds).symm⟩
      · exact ih (eq ▸ List.mem_cons_of_mem _ h)

theorem encode_decodeLossy_octets {p : Path} {cs : List Char} (text : p.spelling = Utf8.encode cs)
    (h : p.Plain) {c : Component} (mem : c ∈ p.components) :
    Utf8.encode (Utf8.decodeLossy c.octets) = c.octets := by
  rw [h.components_eq] at mem
  obtain ⟨s, part, rfl, -⟩ := exists_of_mem_inside mem
  obtain ⟨ds, rfl⟩ := exists_encode_of_mem_split (text ▸ part)
  rw [octets_ofOctets, Utf8.decodeLossy_encode]

theorem encode_intercalate (texts : List (List Char)) :
    Utf8.encode (['/'].intercalate texts) = [slash].intercalate (texts.map Utf8.encode) := by
  induction texts with
  | nil => rfl
  | cons t texts ih =>
    cases texts with
    | nil => simp
    | cons u texts =>
      rw [List.map_cons, List.map_cons, List.intercalate_cons_cons, List.intercalate_cons_cons,
        Utf8.encode_append, Utf8.encode_append, ih, List.map_cons]
      rfl

theorem cons_intercalate {α : Type} (separator : α) {parts : List (List α)}
    (nonempty : parts ≠ []) :
    separator :: [separator].intercalate parts = parts.flatMap (separator :: ·) := by
  induction parts with
  | nil => exact absurd rfl nonempty
  | cons part parts ih =>
    cases parts with
    | nil => simp
    | cons next parts =>
      rw [List.intercalate_cons_cons, List.flatMap_cons, ← ih (List.cons_ne_nil _ _),
        List.append_assoc]
      rfl

theorem mem_intercalate {b : UInt8} {parts : List Bytes} (h : b ∈ [slash].intercalate parts) :
    b = slash ∨ ∃ s ∈ parts, b ∈ s := by
  induction parts with
  | nil => exact absurd h List.not_mem_nil
  | cons s parts ih =>
    cases parts with
    | nil => exact .inr ⟨s, List.mem_cons_self, by rwa [List.intercalate_singleton] at h⟩
    | cons t parts =>
      rw [List.intercalate_cons_cons, List.mem_append, List.mem_append] at h
      rcases h with (own | between) | later
      · exact .inr ⟨s, List.mem_cons_self, own⟩
      · exact .inl (List.mem_singleton.mp between)
      · rcases ih later with between | ⟨u, hu, mem⟩
        · exact .inl between
        · exact .inr ⟨u, List.mem_cons_of_mem _ hu, mem⟩

/-- A text without slashes and dots: what paths of the same components are sure to share. -/
def bare (cs : List Char) : List Char := cs.filter fun c => c != '/' && c != '.'

def bareOctets (bs : Bytes) : Bytes := bs.filter fun b => b != slash && b != dot

theorem bareOctets_append (front back : Bytes) :
    bareOctets (front ++ back) = bareOctets front ++ bareOctets back :=
  List.filter_append ..

theorem bareOctets_encode (cs : List Char) :
    bareOctets (Utf8.encode cs) = Utf8.encode (bare cs) := by
  induction cs with
  | nil => rfl
  | cons c cs ih =>
    rw [Utf8.encode_cons, bareOctets_append, ih]
    by_cases dropped : c = '/' ∨ c = '.'
    · obtain rfl | rfl := dropped <;> rfl
    · obtain ⟨slashless, dotless⟩ := not_or.mp dropped
      have noSlash : slash ∉ String.utf8EncodeChar c :=
        not_mem_encodeChar (by decide : ('/' : Char).toNat < 0x80) slashless
      have noDot : dot ∉ String.utf8EncodeChar c :=
        not_mem_encodeChar (by decide : ('.' : Char).toNat < 0x80) dotless
      have whole : bareOctets (String.utf8EncodeChar c) = String.utf8EncodeChar c :=
        List.filter_eq_self.mpr fun b hb => by
        simp [ne_of_mem_of_not_mem hb noSlash, ne_of_mem_of_not_mem hb noDot]
      have kept : bare (c :: cs) = c :: bare cs :=
        List.filter_cons_of_pos (by simp [slashless, dotless])
      rw [whole, kept, Utf8.encode_cons]

theorem flatMap_bareOctets_split (bs : Bytes) : (split bs).flatMap bareOctets = bareOctets bs := by
  induction bs with
  | nil => rfl
  | cons b bs ih =>
    by_cases h : b = slash
    · subst h
      rw [split_slash]
      exact ih
    · obtain ⟨s, rest, first, joined⟩ := exists_split_cons h bs
      rw [joined, List.flatMap_cons, bareOctets, bareOctets, List.filter_cons, List.filter_cons,
        ← bareOctets, ← bareOctets, ← ih, first, List.flatMap_cons]
      split <;> rfl

theorem bareOctets_inside (bs : Bytes) :
    (inside bs).flatMap (fun c => bareOctets c.octets) = bareOctets bs := by
  have solid (parts : List Bytes) :
      (solids (parts.map inner)).flatMap (fun c => bareOctets c.octets) =
      parts.flatMap bareOctets := by
    induction parts with
    | nil => rfl
    | cons s parts ih =>
      rw [List.map_cons, List.flatMap_cons]
      by_cases h : (inner s).solid
      · rw [solids_cons_of_solid h, List.flatMap_cons, octets_ofOctets, ih]
        rfl
      · rw [solids_cons_of_hollow h, ih]
        rw [inner_solid_iff, not_and_or, not_not, not_not] at h
        obtain rfl | rfl := h <;> rfl
  rw [inside, solid, flatMap_bareOctets_split]

theorem bareOctets_components (p : Path) :
    p.components.flatMap (fun c => bareOctets c.octets) = bareOctets p.spelling := by
  have head : p.head.flatMap (fun c => bareOctets c.octets) = [] := by
    unfold Path.head
    split_ifs <;> rfl
  rw [components_eq_head, List.flatMap_append, head, bareOctets_inside, List.nil_append]

theorem intercalate_split (bs : Bytes) : [slash].intercalate (split bs) = bs := by
  induction bs with
  | nil => rfl
  | cons b bs ih =>
    by_cases h : b = slash
    · subst h
      obtain ⟨s, rest, first⟩ := List.exists_cons_of_ne_nil (split_ne_nil bs)
      rw [split_slash, first, List.intercalate_cons_cons, ← first, ih]
      rfl
    · obtain ⟨s, rest, first, joined⟩ := exists_split_cons h bs
      rw [first] at ih
      rw [joined, ← ih]
      cases rest with
      | nil => simp
      | cons t rest =>
        rw [List.intercalate_cons_cons, List.intercalate_cons_cons]
        rfl

theorem exists_encode_octets {cs : List Char} {c : Component}
    (mem : c ∈ components ⟨Utf8.encode cs⟩) :
    ∃ ds, c.octets = Utf8.encode ds := by
  rw [components_eq_head, List.mem_append] at mem
  obtain first | later := mem
  · unfold Path.head at first
    split_ifs at first
    · exact ⟨['/'], List.mem_singleton.mp first ▸ rfl⟩
    · exact ⟨['.'], List.mem_singleton.mp first ▸ rfl⟩
    · exact absurd first List.not_mem_nil
  · obtain ⟨s, part, rfl, -⟩ := exists_of_mem_inside later
    rw [octets_ofOctets]
    exact exists_encode_of_mem_split part

theorem exists_encode_of_same {p : Path} {cs : List Char} (h : p.same ⟨Utf8.encode cs⟩) :
    ∃ ds, p.spelling = Utf8.encode ds ∧ bare ds = bare cs := by
  have same := same_iff.mp h
  have parts : ∀ s ∈ split p.spelling, ∃ ds, s = Utf8.encode ds := by
    intro s part
    by_cases solid : (inner s).solid
    · have mem : Component.ofOctets s ∈ p.components := by
        rw [components_eq_head]
        refine List.mem_append_right _ (List.mem_map.mpr ⟨inner s, List.mem_filter.mpr ⟨?_, solid⟩,
          rfl⟩)
        exact List.mem_map_of_mem part
      obtain ⟨ds, eq⟩ := exists_encode_octets (same ▸ mem)
      exact ⟨ds, by rwa [octets_ofOctets] at eq⟩
    · rw [inner_solid_iff, not_and_or, not_not, not_not] at solid
      obtain rfl | rfl := solid
      · exact ⟨[], rfl⟩
      · exact ⟨['.'], rfl⟩
  obtain ⟨texts, eq⟩ : ∃ texts : List (List Char), split p.spelling = texts.map Utf8.encode := by
    refine ⟨(split p.spelling).map Utf8.decodeLossy, ?_⟩
    rw [List.map_map]
    refine ((List.map_congr_left fun s part => ?_).trans (List.map_id _)).symm
    obtain ⟨ds, rfl⟩ := parts s part
    exact congrArg Utf8.encode (Utf8.decodeLossy_encode ds)
  have whole : p.spelling = Utf8.encode (['/'].intercalate texts) := by
    rw [encode_intercalate, ← eq, intercalate_split]
  refine ⟨['/'].intercalate texts, whole, Utf8.encode_injective ?_⟩
  rw [← bareOctets_encode, ← bareOctets_encode, ← whole, ← bareOctets_components, same,
    bareOctets_components]

end Stowage.Path
