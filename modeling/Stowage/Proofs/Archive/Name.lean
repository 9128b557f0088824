import Stowage.Proofs.Archive.Header
import Stowage.Proofs.Outcome
import Stowage.Proofs.Path.Names
import Stowage.Archive.Writer

/-! The name of a member. One that has room in the header is found there with the components it was
given; any name of ordinary components can be stored, since what is left of one that is cut has
room. -/
namespace Stowage.Archive

open Stowage.Path

/-- Components that can be put into the room of a name: two dots are, at the end of one that is
cut. -/
def Storable (cut : Bool) : List Component → Prop
  | [] => True
  | .name _ :: rest => Storable cut rest
  | .up :: rest => cut ∧ rest = []
  | _ :: _ => False

def spellRest (slashed : Bool) (cs : List Component) : Bytes :=
  (cs.flatMap fun c => slash :: c.octets) ++ if slashed then [slash] else []

variable {sole cut started slashed : Bool} {cs : List Component}

theorem nameParts_started (sole slashed : Bool) (h : Storable cut cs) :
    ∃ texts : List Bytes, nameParts sole cut true slashed cs = texts.map .ok ∧
    texts.flatten = spellRest slashed cs := by
  induction cs with
  | nil =>
    cases slashed
    · exact ⟨[], rfl, rfl⟩
    · exact ⟨[[slash]], rfl, rfl⟩
  | cons c cs ih =>
    cases c with
    | root => exact h.elim
    | here => exact h.elim
    | up =>
      -- Two dots are the last component, and nothing but a slash can follow them.
      obtain ⟨rfl, rfl⟩ := h
      cases slashed
      · exact ⟨[[slash], [dot, dot]], rfl, rfl⟩
      · exact ⟨[[slash], [dot, dot], [slash]], rfl, rfl⟩
    | name s =>
      obtain ⟨texts, parts, flat⟩ := ih h
      refine ⟨[slash] :: s :: texts, ?_, ?_⟩
      · rw [nameParts, parts]
        rfl
      · rw [List.flatten_cons, List.flatten_cons, flat, spellRest, spellRest, List.flatMap_cons]
        simp [Component.octets]

theorem nameParts_first (sole slashed : Bool) {c : Component} (h : Storable cut (c :: cs)) :
    ∃ texts : List Bytes, nameParts sole cut false slashed (c :: cs) = texts.map .ok ∧
      texts.flatten = c.octets ++ spellRest slashed cs := by
  cases c with
  | root => exact h.elim
  | here => exact h.elim
  | up =>
    obtain ⟨rfl, rfl⟩ := h
    cases slashed
    · exact ⟨[[dot, dot]], rfl, rfl⟩
    · exact ⟨[[dot, dot], [slash]], rfl, rfl⟩
  | name s =>
    have rest : Storable cut cs := h
    obtain ⟨texts, parts, flat⟩ := nameParts_started sole slashed rest
    refine ⟨s :: texts, ?_, ?_⟩
    · rw [nameParts, parts]
      rfl
    · rw [List.flatten_cons, flat]
      rfl

def AllText (parts : List (Except NameFault Bytes)) : Prop :=
  ∃ texts : List Bytes, parts = texts.map .ok

theorem AllText.tail {x : Except NameFault Bytes} {parts : List (Except NameFault Bytes)}
    (h : AllText (x :: parts)) :
    AllText parts := by
  obtain ⟨_ | ⟨t, texts⟩, eq⟩ := h
  · exact absurd eq (List.cons_ne_nil _ _)
  · exact ⟨texts, (List.cons.inj eq).2⟩

theorem not_allText_error (fault : NameFault) (parts : List (Except NameFault Bytes)) :
    ¬ AllText (.error fault :: parts) := by
  rintro ⟨_ | ⟨t, texts⟩, eq⟩
  · exact List.cons_ne_nil _ _ eq
  · cases (List.cons.inj eq).1

theorem storable_of_allText (h : AllText (nameParts sole cut started slashed cs))
    (dotless : .here ∉ cs) :
    Storable cut cs := by
  induction cs generalizing started with
  | nil => trivial
  | cons c cs ih =>
    have later : .here ∉ cs := fun e => dotless (List.mem_cons_of_mem _ e)
    cases c with
    | root => exact absurd h (not_allText_error _ _)
    | here => exact absurd List.mem_cons_self dotless
    | up =>
      rw [nameParts] at h
      split at h
      · rename_i last
        simpa [Storable] using last
      · exact absurd h (not_allText_error _ _)
    | name s =>
      have rest : AllText (nameParts sole cut true slashed cs) := by
        cases started
        · exact h.tail
        · exact h.tail.tail
      exact ih rest later

theorem storeParts_text {texts : List Bytes} (written : Bytes)
    (fits : (written ++ texts.flatten).length ≤ nameSize) (clean : 0 ∉ texts.flatten) :
    storeParts written (texts.map .ok) = (written ++ texts.flatten, none) := by
  induction texts generalizing written with
  | nil => rw [List.flatten_nil, List.append_nil]; rfl
  | cons t texts ih =>
    rw [List.flatten_cons, List.mem_append, not_or] at clean
    have small : ¬ nameSize < written.length + t.length := by
      rw [List.flatten_cons, List.length_append, List.length_append] at fits
      omega
    have zeroless : ¬ t.contains 0 := by simpa using clean.1
    rw [List.map_cons, storeParts, if_neg small, if_neg zeroless,
      ih (written ++ t) (by simpa using fits) clean.2, List.flatten_cons, List.append_assoc]

theorem of_storeParts {written result : Bytes} {parts : List (Except NameFault Bytes)}
    (h : storeParts written parts = (result, none)) (room : written.length ≤ nameSize)
    (clean : 0 ∉ written) :
    ∃ texts : List Bytes, parts = texts.map .ok ∧ result = written ++ texts.flatten ∧
    result.length ≤ nameSize ∧
      0 ∉ result := by
  induction parts generalizing written with
  | nil =>
    cases h
    exact ⟨[], rfl, (List.append_nil _).symm, room, clean⟩
  | cons part parts ih =>
    cases part with
    | error fault => cases h
    | ok t =>
      rw [storeParts] at h
      split at h
      · cases h
      rename_i small
      split at h
      · cases h
      rename_i zero
      have zeroless : 0 ∉ written ++ t := by
        rw [List.mem_append, not_or]
        exact ⟨clean, by simpa using zero⟩
      obtain ⟨texts, rfl, eq, most⟩ := ih h (by rw [List.length_append]; omega) zeroless
      exact ⟨t :: texts, rfl, by rw [eq, List.flatten_cons, List.append_assoc], most⟩

theorem length_overwrite {room written : Bytes} (size : room.length = nameSize)
    (fits : written.length ≤ nameSize) :
    (overwrite room written).length = nameSize := by
  unfold overwrite
  split
  · exact size
  · simp only [List.length_take, List.length_append, List.length_cons, List.length_drop, size]
    omega

theorem untilZero_overwrite {room written : Bytes} (nonempty : written ≠ [])
    (fits : written.length ≤ nameSize) (clean : 0 ∉ written) :
    untilZero (overwrite room written) = written := by
  have full : written.isEmpty = false := by simpa using nonempty
  have keep : ∀ b ∈ written, (b != 0) = true := fun b hb => by
    simpa using fun e : b = 0 => clean (e ▸ hb)
  rw [overwrite, full, if_neg Bool.false_ne_true, untilZero, List.take_append,
    List.take_of_length_le fits, List.takeWhile_append_of_pos keep]
  cases nameSize - written.length with
  | zero => rw [List.take_zero, List.takeWhile_nil, List.append_nil]
  | succ n => rw [List.take_succ_cons, List.takeWhile_cons_of_neg (by decide), List.append_nil]

theorem spellRest_eq (s : Bytes) (names : List Bytes) :
    s ++ spellRest slashed (names.map .name) = [slash].intercalate (s :: names) ++ if slashed
      then [slash] else [] := by
  induction names generalizing s with
  | nil => rw [List.intercalate_singleton]; rfl
  | cons t names ih =>
    rw [List.intercalate_cons_cons, List.append_assoc, ← ih t]
    simp [spellRest, Component.octets]

theorem components_spellRest {s : Bytes} {names : List Bytes} (h : ∀ t ∈ s :: names, IsName t) :
    components ⟨s ++ spellRest slashed (names.map .name)⟩ = (s :: names).map .name := by
  rw [spellRest_eq]
  cases slashed
  · exact (congrArg (fun bs => components ⟨bs⟩) (List.append_nil _)).trans
      (components_intercalate h)
  · have nonempty : [slash].intercalate (s :: names) ≠ [] := fun empty => by
      have components := components_intercalate h
      rw [empty] at components
      cases components
    rw [if_pos rfl, components_append_slash nonempty, inside_nil, List.append_nil,
      components_intercalate h]

theorem Storable.exists_names (h : Storable false cs) :
    ∃ names : List Bytes, cs = names.map .name := by
  induction cs with
  | nil => exact ⟨[], rfl⟩
  | cons c cs ih =>
    cases c with
    | root => exact h.elim
    | here => exact h.elim
    | up => exact absurd h.1 Bool.false_ne_true
    | name s =>
      obtain ⟨names, rfl⟩ := ih h
      exact ⟨s :: names, rfl⟩

theorem storeName_eq_none {room result : Bytes} {p : Path}
    (h : storeName room cut p = (result, none)) :
    ∃ written, storeParts []
    (nameParts (p.components.length == 1) cut false (endsInSlash p) p.components) =
      (written, none) ∧ result = overwrite room written := by
  obtain ⟨eq, fine⟩ := Prod.mk.inj h
  exact ⟨_, Prod.ext rfl fine, eq.symm⟩

theorem length_storeParts {written : Bytes} (h : written.length ≤ nameSize)
    (parts : List (Except NameFault Bytes)) :
    (storeParts written parts).1.length ≤ nameSize := by
  induction parts generalizing written with
  | nil => exact h
  | cons part parts ih =>
    cases part with
    | error fault => exact h
    | ok t =>
      rw [storeParts]
      split
      · exact h
      · split
        · exact h
        · exact ih (by rw [List.length_append]; omega)

theorem length_storeName {room : Bytes} (size : room.length = nameSize) (cut : Bool) (p : Path) :
    (storeName room cut p).1.length = nameSize :=
  length_overwrite size (length_storeParts (Nat.zero_le _) _)

theorem components_storeName {room : Bytes} {p : Path} {result : Bytes}
    (h : storeName room false p = (result, none)) (dotless : .here ∉ p.components) :
    components ⟨untilZero result⟩ = p.components := by
  obtain ⟨written, fine, rfl⟩ := storeName_eq_none h
  obtain ⟨texts, parts, rfl, fits, clean⟩ := of_storeParts fine (Nat.zero_le _) List.not_mem_nil
  have storable := storable_of_allText ⟨texts, parts⟩ dotless
  obtain ⟨names, named⟩ := storable.exists_names
  cases names with
  | nil =>
    rw [named] at parts
    obtain _ | ⟨t, texts⟩ := texts
    · cases parts
    · cases (List.cons.inj parts).1
  | cons s names =>
    rw [named] at parts storable
    obtain ⟨spelled, same, whole⟩ :=
      nameParts_first (p.components.length == 1) (endsInSlash p) storable
    have ok_injective : Function.Injective (Except.ok : Bytes → Except NameFault Bytes) :=
      fun _ _ => Except.ok.inj
    have texts_eq : texts = spelled :=
      List.map_injective_iff.mpr ok_injective (by rw [← parts, ← same, named]; rfl)
    have isName : ∀ t ∈ s :: names, IsName t :=
      fun t ht => isName_of_mem (p := p) (named ▸ List.mem_map_of_mem ht)
    rw [List.nil_append, texts_eq, whole] at fits clean
    have nonempty : (Component.name s).octets ++ spellRest (endsInSlash p) (names.map .name) ≠ [] :=
      List.append_ne_nil_of_left_ne_nil (isName s List.mem_cons_self).1 _
    rw [List.nil_append, texts_eq, whole, untilZero_overwrite nonempty fits clean, named]
    exact components_spellRest isName

theorem member_eq_ok {modified : Nat} {p : Path} {data bytes : Bytes}
    (h : member modified p data = .ok bytes) (dotless : .here ∉ p.components) :
    ∃ room : Bytes, room.length = nameSize ∧
      (bytes = content room modified data ∧ components ⟨untilZero room⟩ = p.components ∨
        bytes = longName p.spelling ++ content room modified data) := by
  have empty : (zeros nameSize).length = nameSize := List.length_replicate
  have whole := length_storeName empty false p
  unfold member at h
  split at h
  · rename_i room stored
    rw [stored] at whole
    cases h
    exact ⟨room, whole, .inl ⟨rfl, components_storeName stored dotless⟩⟩
  · rename_i room fault stored
    rw [stored] at whole
    split at h
    · cases h
    · have part := length_storeName whole true (cutName p.spelling)
      split at h
      · rename_i behind cut
        rw [cut] at part
        cases h
        exact ⟨behind, part, .inr rfl⟩
      · cases h

/-! A name is spelled in no more octets than it had. -/

theorem sum_length_solids (parts : List Bytes) :
    ((solids (parts.map inner)).map fun c => c.octets.length + 1).sum ≤
      (parts.map fun s => s.length + 1).sum := by
  induction parts with
  | nil => exact Nat.le_refl _
  | cons s parts ih =>
    rw [List.map_cons, List.map_cons, List.sum_cons]
    by_cases h : (inner s).solid
    · rw [solids_cons_of_solid h, List.map_cons, List.sum_cons, octets_ofOctets]
      exact Nat.add_le_add_left ih _
    · rw [solids_cons_of_hollow h]
      exact Nat.le_trans ih (Nat.le_add_left _ _)

theorem sum_length_inside (bs : Bytes) :
    ((inside bs).map fun c => c.octets.length + 1).sum ≤ bs.length + 1 :=
  sum_length_split bs ▸ sum_length_solids (split bs)

theorem length_spellRest (slashed : Bool) (cs : List Component) :
    (spellRest slashed cs).length = (cs.map fun c => c.octets.length + 1).sum + if slashed then 1
      else 0 := by
  induction cs with
  | nil => cases slashed <;> rfl
  | cons c cs ih =>
    rw [spellRest] at ih ⊢
    rw [List.flatMap_cons, List.append_assoc, List.length_append, ih, List.length_cons,
      List.map_cons, List.sum_cons]
    omega

theorem length_spell {p : Path} {c : Component} (eq : c :: cs = inside p.spelling) :
    (c.octets ++ spellRest (endsInSlash p) cs).length ≤ p.spelling.length := by
  rw [List.length_append, length_spellRest]
  by_cases h : p.spelling.getLast? = some slash
  · obtain ⟨front, spelling⟩ := List.getLast?_eq_some_iff.mp h
    have bound := sum_length_inside front
    rw [spelling, inside_append_slash, inside_nil, List.append_nil] at eq
    rw [← eq, List.map_cons, List.sum_cons] at bound
    rw [spelling, List.length_append, List.length_singleton]
    split <;> omega
  · have bound := sum_length_inside p.spelling
    rw [← eq, List.map_cons, List.sum_cons] at bound
    rw [endsInSlash, beq_false_of_ne h, if_neg Bool.false_ne_true]
    omega

theorem zero_not_mem_spell {c : Component} (h : ∀ d ∈ c :: cs, 0 ∉ d.octets) :
    0 ∉ c.octets ++ spellRest slashed cs := by
  rw [List.mem_append, not_or]
  refine ⟨h c List.mem_cons_self, ?_⟩
  rw [spellRest, List.mem_append, List.mem_flatMap]
  rintro (⟨d, hd, zero⟩ | zero)
  · rcases List.mem_cons.mp zero with zero | zero
    · exact absurd zero (by decide)
    · exact h d (List.mem_cons_of_mem _ hd) zero
  · cases slashed
    · exact absurd zero List.not_mem_nil
    · exact absurd zero (by decide)

theorem Storable.not_mem (h : Storable cut cs) : .root ∉ cs ∧ .here ∉ cs := by
  induction cs with
  | nil => exact ⟨List.not_mem_nil, List.not_mem_nil⟩
  | cons c cs ih =>
    cases c with
    | root => exact h.elim
    | here => exact h.elim
    | up =>
      obtain ⟨-, rfl⟩ := h
      simp
    | name s =>
      have rest : Storable cut cs := h
      simpa using ih rest

theorem exists_storeName {p : Path} (room : Bytes) (h : Storable cut p.components)
    (nonempty : p.components ≠ []) (fits : p.spelling.length ≤ nameSize) (clean : 0 ∉ p.spelling) :
    ∃ result, storeName room cut p = (result, none) := by
  obtain ⟨c, cs, eq⟩ := List.exists_cons_of_ne_nil nonempty
  have inner := components_eq_inside (not_isRooted_of_here_root h.not_mem.1) h.not_mem.2
  rw [eq] at h inner
  obtain ⟨texts, parts, flat⟩ := nameParts_first (p.components.length == 1) (endsInSlash p) h
  have zeroless : 0 ∉ texts.flatten := by
    rw [flat]
    refine zero_not_mem_spell fun d hd zero => ?_
    obtain ⟨s, hs, rfl, -⟩ := exists_of_mem_inside (inner ▸ hd)
    exact clean (mem_of_mem_split hs (octets_ofOctets s ▸ zero))
  have short : texts.flatten.length ≤ nameSize := by
    rw [flat]
    exact Nat.le_trans (length_spell inner) fits
  refine ⟨overwrite room texts.flatten, ?_⟩
  rw [storeName, eq] at *
  simp only [parts, storeParts_text [] short zeroless]
  rfl

theorem storable_map_name_append {names : List Bytes} (h : Storable cut cs) :
    Storable cut (names.map .name ++ cs) := by
  induction names with
  | nil => exact h
  | cons s names ih => exact ih

theorem storable_of_plain {p : Path} (h : p.Plain) : Storable false p.components := by
  obtain ⟨names, eq, -⟩ := h.exists_names
  rw [eq, ← List.append_nil (names.map _)]
  exact storable_map_name_append trivial

theorem exists_split_take {p : Path} (h : p.Plain) {n : Nat} (large : 2 < n)
    (fits : n ≤ p.spelling.length) :
    ∃ s others, split (p.spelling.take n) = s :: others ∧ s ≠ [] ∧ s ≠ [dot] := by
  have length : (p.spelling.take n).length = n := List.length_take_of_le fits
  have nonempty : p.spelling ≠ [] := List.ne_nil_of_length_pos (by omega)
  obtain ⟨whole, part, more, rest, cut, eq⟩ := split_take p.spelling n
  cases whole with
  | nil =>
    have sum := sum_length_split (p.spelling.take n)
    rw [cut, length] at sum
    refine ⟨part, [], cut, ?_, ?_⟩
    · rintro rfl
      simp at sum
      omega
    · rintro rfl
      simp at sum
      omega
  | cons s whole =>
    obtain ⟨t, others, first, full, other⟩ := h.split_head nonempty
    rw [eq] at first
    obtain ⟨rfl, -⟩ := List.cons.inj first
    exact ⟨s, _, cut, full, other⟩

theorem storable_part {part : Bytes} : Storable true (solids [inner part]) := by
  by_cases solid : (inner part).solid
  · have apart : part ≠ [dot] := by
      rintro rfl
      exact absurd solid (by decide)
    rw [solids_cons_of_solid solid, Component.ofOctets, show (inner part).octets = part from rfl,
      if_neg apart]
    split
    · exact ⟨rfl, rfl⟩
    · trivial
  · rw [solids_cons_of_hollow solid]
    trivial

theorem storable_take {p : Path} (h : p.Plain) {n : Nat} (large : 2 < n)
    (fits : n ≤ p.spelling.length) :
    Storable true (components ⟨p.spelling.take n⟩) ∧ components ⟨p.spelling.take n⟩ ≠ [] := by
  obtain ⟨s, others, first, full, other⟩ := exists_split_take h large fits
  obtain ⟨whole, part, more, rest, cut, eq⟩ := split_take p.spelling n
  have named : ∀ c ∈ solids (whole.map inner), c.isName := by
    intro c hc
    refine h c ?_
    rw [h.components_eq, inside, eq, List.map_append, solids_append]
    exact List.mem_append_left _ hc
  obtain ⟨names, front⟩ := exists_map_name named
  rw [components_of_split first full other]
  constructor
  · rw [inside, cut, List.map_append, solids_append, front]
    exact storable_map_name_append storable_part
  · rw [inside, first, List.map_cons, solids_cons_of_solid (inner_solid_iff.mpr ⟨full, other⟩)]
    exact List.cons_ne_nil _ _

theorem exists_cutName (cs : List Char) (long : nameSize ≤ (Utf8.encode cs).length) :
    ∃ n, cutName (Utf8.encode cs) = ⟨(Utf8.encode cs).take n⟩ ∧ nameSize ≤ n + 3 ∧
    n ≤ nameSize := by
  rcases Utf8.fault?_take_encode cs nameSize long with sound | ⟨n, fault, less, more⟩
  · exact ⟨nameSize, by simp only [cutName, sound], Nat.le_add_right _ _, Nat.le_refl _⟩
  · refine ⟨n, ?_, more, less⟩
    simp only [cutName, fault]
    rw [List.take_take, Nat.min_eq_left less]

theorem exists_member {p : Path} {cs : List Char} (text : p.spelling = Utf8.encode cs)
    (nonempty : p.spelling ≠ []) (h : p.Plain) (clean : 0 ∉ p.spelling) (modified : Nat)
    (data : Bytes) :
    ∃ bytes, member modified p data = .ok bytes := by
  unfold member
  split
  · exact ⟨_, rfl⟩
  · rename_i room fault stored
    -- A fault comes from a name that has no room, and so much is left of it that the cut one has no
    -- other fault.
    have long : nameSize ≤ p.spelling.length := by
      by_contra short
      obtain ⟨_, fine⟩ :=
        exists_storeName (zeros nameSize) (storable_of_plain h) (components_ne_nil nonempty)
        (Nat.le_of_not_le short) clean
      rw [fine] at stored
      cases stored
    obtain ⟨n, cut, most, least⟩ := exists_cutName cs (text ▸ long)
    rw [← text] at cut
    have room' : nameSize = 100 := rfl
    obtain ⟨storable, full⟩ := storable_take h (n := n) (by omega) (by omega)
    obtain ⟨behind, fine⟩ := exists_storeName room storable full
      (by rw [List.length_take]; omega) fun zero => clean (List.mem_of_mem_take zero)
    rw [if_neg (Nat.not_lt_of_le long), cut, fine]
    exact ⟨_, rfl⟩

end Stowage.Archive
