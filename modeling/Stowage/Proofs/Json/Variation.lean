import Mathlib.Data.List.Nodup
import Mathlib.Data.List.Pairwise
import Stowage.Proofs.Json.Acceptance

/-! Documents that say the same to readers of today: members stand in another order, and there are
members of other names. A layout says which fields of a record there are and how their values may
vary in turn. -/
namespace Stowage.Json

abbrev Variation := Value → Value → Prop

abbrev Layout := List (String × Variation)

section Variations

inductive ListVaries (vary : Variation) : Variation
  | kept (v : Value) : ListVaries vary v v
  | items {items others : List Value} (each : List.Forall₂ vary items others) :
      ListVaries vary (.list items) (.list others)

/-- A value varies as the field that its name is; one of another name stays as it is. -/
inductive MemberVaries (layout : Layout) : Member → Member → Prop
  | kept (m : Member) : MemberVaries layout m m
  | field {key : Quoted} {v w : Value} {name : String} {vary : Variation} (named : key.chars? =
    some name.toList)
      (known : (name, vary) ∈ layout) (varies : vary v w) : MemberVaries layout (key, v) (key, w)

def Foreign (layout : Layout) (m : Member) : Prop :=
  ∃ name : String, m.1.chars? = some name.toList ∧ name ∉ layout.map Prod.fst

inductive ItemsVary : Layout → List Value → List Value → Prop
  | done (layout : Layout) : ItemsVary layout [] []
  | item {layout : Layout} {name : String} {vary : Variation} {v w : Value}
  {items others : List Value} (varies : vary v w)
      (rest : ItemsVary layout items others) :
      ItemsVary ((name, vary) :: layout) (v :: items) (w :: others)

/-- The members of a record in any order, with any foreign ones among them; a record that is a list
has none. -/
inductive RecordVaries (layout : Layout) : Variation
  | kept (v : Value) : RecordVaries layout v v
  | object {members varied foreign others : List Member}
  (each : List.Forall₂ (MemberVaries layout) members varied)
      (unknown : ∀ m ∈ foreign, Foreign layout m) (order : others.Perm (varied ++ foreign)) :
      RecordVaries layout (.object members) (.object others)
  | list {items others : List Value} (each : ItemsVary layout items others) :
    RecordVaries layout (.list items) (.list others)

end Variations

variable {α β δ : Type} {v w : Value} {vary : Variation} {read : Bytes → Scanned α} {a : α}

def Respects (vary : Variation) (read : Bytes → Scanned α) : Prop :=
  ∀ v w a, vary v w → Denotes read v a → Denotes read w a

/-- Finds the same in every text of a value, and in those of its variations. -/
structure Follows (vary : Variation) (read : Bytes → Scanned α) : Prop where
  faithful : Faithful read
  respects : Respects vary read

section Readers

theorem Faithful.follows (h : Faithful read) : Follows Eq read where
  faithful := h
  respects := by
    rintro v _ a rfl denotes
    exact denotes

theorem denotes_map (settled : Settled read) (f : α → β) {b : β} :
    Denotes (fun bs => (read bs).map fun (a, rest) => (f a, rest)) v b ↔
      ∃ a, Denotes read v a ∧ f a = b := by
  obtain ⟨bs, spread⟩ := exists_spread v
  rw [(settled.map f).denotes_iff spread bounds_nil, map_eq_ok]
  constructor
  · rintro ⟨⟨a, rest⟩, found, eq⟩
    cases eq
    exact ⟨a, (settled.denotes_iff spread bounds_nil).mpr found, rfl⟩
  · rintro ⟨a, denotes, rfl⟩
    exact ⟨_, (settled.denotes_iff spread bounds_nil).mp denotes, rfl⟩

theorem Follows.map (h : Follows vary read) (f : α → β) :
    Follows vary fun bs => (read bs).map fun (a, rest) => (f a, rest) where
  faithful := h.faithful.map f
  respects := by
    intro v w b varies
    rw [denotes_map h.faithful.settled, denotes_map h.faithful.settled]
    rintro ⟨a, denotes, same⟩
    exact ⟨a, h.respects v w a varies denotes, same⟩

theorem denotes_optional (settled : Settled read) {o : Option α} :
    Denotes (optional read) v o ↔ (v = .word .null ∧ o = none) ∨
    (v ≠ .word .null ∧ ∃ a, Denotes read v a ∧ o = some a) := by
  obtain ⟨bs, spread⟩ := exists_spread v
  rw [settled.optional.denotes_iff spread bounds_nil]
  by_cases null : v = .word .null
  · subst null
    rw [optional_null spread]
    simp [eq_comm]
  · rw [optional_value null spread, map_eq_ok]
    simp only [null, false_and, ne_eq, not_false_eq_true, true_and, false_or]
    constructor
    · rintro ⟨⟨a, rest⟩, found, eq⟩
      cases eq
      exact ⟨a, (settled.denotes_iff (Value.skipped spread) bounds_nil).mpr found, rfl⟩
    · rintro ⟨a, denotes, rfl⟩
      exact ⟨_, (settled.denotes_iff (Value.skipped spread) bounds_nil).mp denotes, rfl⟩

theorem null_of_varies {layout : Layout} (h : RecordVaries layout v w) :
    v = .word .null ↔ w = .word .null := by
  cases h with
  | kept => exact Iff.rfl
  | object => exact ⟨nofun, nofun⟩
  | list => exact ⟨nofun, nofun⟩

theorem Follows.optional {layout : Layout} (h : Follows (RecordVaries layout) read) :
    Follows (RecordVaries layout) (optional read) where
  faithful := h.faithful.optional
  respects := by
    intro v w o varies
    have null := null_of_varies varies
    rw [denotes_optional h.faithful.settled, denotes_optional h.faithful.settled]
    rintro (⟨same, rfl⟩ | ⟨other, a, denotes, rfl⟩)
    · exact .inl ⟨null.mp same, rfl⟩
    · exact .inr ⟨fun same => other (null.mpr same), a, h.respects v w a varies denotes, rfl⟩

theorem denotes_list (settled : Settled read) {items : List Value} {all : List α} :
    Denotes (list read) (.list items) all ↔ List.Forall₂ (Denotes read) items all := by
  obtain ⟨bs, spread⟩ := exists_spread (.list items)
  rw [settled.list.denotes_iff spread bounds_nil, list_eq_ok settled spread]
  exact and_iff_left rfl

theorem Follows.list (h : Follows vary read) : Follows (ListVaries vary) (list read) where
  faithful := h.faithful.list
  respects := by
    rintro _ _ all (v | each) denotes
    · exact denotes
    · rw [denotes_list h.faithful.settled] at denotes ⊢
      induction each generalizing all with
      | nil => exact denotes
      | cons varies _ ih =>
        obtain _ | ⟨own, others⟩ := denotes
        exact .cons (h.respects _ _ _ varies own) (ih _ others)

end Readers

section Records

variable {s : Shape δ} {layout : Layout} {empty draft drafted filled : δ}

def FieldRule.Gives (field : FieldRule δ) (set : δ → δ) : Prop :=
  ∃ bs rest, field.read bs = .ok (set, rest)

def FieldRule.Owns (field : FieldRule δ) : Prop :=
  ∀ set, field.Gives set → ∀ draft, field.isSet (set draft) = true

structure Apart (field other : FieldRule δ) : Prop where
  commute {set reset : δ → δ} : field.Gives set → other.Gives reset →
    ∀ draft, set (reset draft) = reset (set draft)
  keeps {set : δ → δ} : field.Gives set → ∀ draft, other.isSet (set draft) = other.isSet draft
  kept {reset : δ → δ} : other.Gives reset → ∀ draft, field.isSet (reset draft) = field.isSet draft

instance : Std.Symm (Apart (δ := δ)) where
  symm _ _ h := ⟨fun gives gives' draft => (h.commute gives' gives draft).symm, h.kept, h.keeps⟩

structure Matches (entry : String × Variation) (field : FieldRule δ) : Prop where
  named : entry.1 = field.name
  follows : Follows entry.2 field.read
  owns : field.Owns

structure Fits (layout : Layout) (s : Shape δ) : Prop where
  each : List.Forall₂ Matches layout s.fields
  distinct : (s.fields.map FieldRule.name).Nodup
  apart : s.fields.Pairwise Apart

theorem gives_of_denotes {field : FieldRule δ} {set : δ → δ} (h : Denotes field.read v set) :
    field.Gives set := by
  obtain ⟨bs, spread⟩ := exists_spread v
  exact ⟨bs, [], h bs [] spread bounds_nil⟩

section Matching

variable {fields : List (FieldRule δ)} {field : FieldRule δ}

theorem names_of_matches (each : List.Forall₂ Matches layout fields) :
    layout.map Prod.fst = fields.map FieldRule.name := by
  induction each with
  | nil => rfl
  | cons own _ ih => rw [List.map_cons, List.map_cons, own.named, ih]

theorem exists_of_matches (each : List.Forall₂ Matches layout fields) :
    (∀ entry ∈ layout, ∃ field ∈ fields, Matches entry field) ∧ ∀ field ∈ fields, ∃ entry ∈ layout,
    Matches entry field := by
  induction each with
  | nil => exact ⟨nofun, nofun⟩
  | cons own _ ih =>
    obtain ⟨forth, back⟩ := ih
    simp only [List.mem_cons, forall_eq_or_imp, exists_eq_or_imp]
    exact ⟨⟨.inl own, fun entry mem => .inr (forth entry mem)⟩, .inl own, fun field mem =>
      .inr (back field mem)⟩

theorem name_of_named? {name : List Char} (known : s.named? name = some field) :
    field.name.toList = name := by
  rw [Shape.named?] at known
  exact beq_iff_eq.mp (List.find?_some (p := fun f : FieldRule δ => f.name.toList == name) known)

theorem lined_varies (each : List.Forall₂ Matches layout fields) {items others : List Value}
    (vary : ItemsVary layout items others) (lined : Lined fields draft items filled) :
    Lined fields draft others filled := by
  induction vary generalizing fields draft with
  | done => exact lined
  | item varies _ ih =>
    obtain _ | ⟨own, rest⟩ := each
    obtain _ | _ | ⟨denotes, lined⟩ := lined
    exact .item (own.follows.respects _ _ _ varies denotes) (ih rest lined)

end Matching

namespace Fits

variable {m n : Member} {members others : List Member} {field : FieldRule δ}

theorem faithful (h : Fits layout s) : ∀ field ∈ s.fields, Faithful field.read := by
  intro field mem
  obtain ⟨entry, -, own⟩ := (exists_of_matches h.each).2 field mem
  exact own.follows.faithful

theorem settled (h : Fits layout s) : ∀ field ∈ s.fields, Settled field.read :=
  fun field mem => (h.faithful field mem).settled

theorem owns (h : Fits layout s) (mem : field ∈ s.fields) : field.Owns := by
  obtain ⟨entry, -, own⟩ := (exists_of_matches h.each).2 field mem
  exact own.owns

theorem respects (h : Fits layout s) {name : String} (entry : (name, vary) ∈ layout)
    (known : s.named? name.toList = some field) : Respects vary field.read := by
  obtain ⟨other, mem, own⟩ := (exists_of_matches h.each).1 _ entry
  have same : field.name = other.name :=
    (String.toList_inj.mp (name_of_named? known)).trans own.named
  rw [List.inj_on_of_nodup_map h.distinct (List.mem_of_find?_eq_some known) mem same]
  exact own.follows.respects

theorem sets_varies (h : Fits layout s) (varies : MemberVaries layout m n)
    (own : Sets s draft m drafted) :
    Sets s draft n drafted := by
  cases varies with
  | kept => exact own
  | field named entry varies =>
    cases own with
    | foreign named unknown => exact .foreign named unknown
    | field named' known unset denotes =>
      rw [Option.some.inj (named'.symm.trans named)] at known
      exact .field named known unset (h.respects entry known _ _ _ varies denotes)

theorem gathers_varies (h : Fits layout s)
    (each : List.Forall₂ (MemberVaries layout) members others)
    (gathers : Gathers s draft members filled) : Gathers s draft others filled := by
  induction each generalizing draft with
  | nil => exact gathers
  | cons varies _ ih =>
    obtain _ | ⟨own, rest⟩ := gathers
    exact .next (h.sets_varies varies own) (ih rest)

theorem sets_foreign (h : Fits layout s) (foreign : Foreign layout m) (draft : δ) :
    Sets s draft m draft := by
  obtain ⟨key, v⟩ := m
  obtain ⟨name, named, unknown⟩ := foreign
  refine .foreign named (List.find?_eq_none.mpr fun field mem same => unknown ?_)
  rw [names_of_matches h.each, ← String.toList_inj.mp (beq_iff_eq.mp same)]
  exact List.mem_map_of_mem mem

theorem gathers_foreign (h : Fits layout s) {foreign : List Member}
    (unknown : ∀ m ∈ foreign, Foreign layout m) (gathers : Gathers s draft members filled) :
    Gathers s draft (members ++ foreign) filled := by
  induction gathers with
  | next own _ ih => exact .next own ih
  | done full =>
    induction foreign with
    | nil => exact .done full
    | cons m foreign ih =>
      obtain ⟨own, others⟩ := List.forall_mem_cons.mp unknown
      exact .next (h.sets_foreign own _) (ih others)

/-- Two members in a row may change places: they set different fields, since none is set twice. -/
theorem sets_swap (h : Fits layout s) {middle : δ} (own : Sets s draft m middle)
    (other : Sets s middle n drafted) :
    ∃ middle, Sets s draft n middle ∧ Sets s middle m drafted := by
  cases own with
  | foreign named unknown => exact ⟨drafted, other, .foreign named unknown⟩
  | @field _ _ _ field set named known unset denotes =>
    cases other with
    | foreign named' unknown =>
      exact ⟨draft, .foreign named' unknown, .field named known unset denotes⟩
    | @field _ _ _ field' set' named' known' unset' denotes' =>
      have mem := List.mem_of_find?_eq_some known
      have mem' := List.mem_of_find?_eq_some known'
      have gives := gives_of_denotes denotes
      have gives' := gives_of_denotes denotes'
      have different : field ≠ field' := by
        rintro rfl
        rw [h.owns mem set gives] at unset'
        cases unset'
      have apart := h.apart.forall mem mem' different
      rw [apart.keeps gives] at unset'
      rw [← apart.commute gives gives']
      exact ⟨_, .field named' known' unset' denotes',
        .field named known (by rw [apart.kept gives', unset]) denotes⟩

theorem gathers_perm (h : Fits layout s) (order : members.Perm others)
    (gathers : Gathers s draft members filled) :
    Gathers s draft others filled := by
  induction order generalizing draft with
  | nil => exact gathers
  | cons m _ ih =>
    obtain _ | ⟨own, rest⟩ := gathers
    exact .next own (ih rest)
  | swap m n members =>
    obtain _ | ⟨own, _ | ⟨other, rest⟩⟩ := gathers
    obtain ⟨middle, first, second⟩ := h.sets_swap own other
    exact .next first (.next second rest)
  | trans _ _ ih ih' => exact ih' (ih gathers)

theorem respects_read (h : Fits layout s) (empty : δ) : Respects (RecordVaries layout)
    (s.read empty) := by
  rintro _ _ filled (v | ⟨each, unknown, order⟩ | each) denotes
  · exact denotes
  · obtain ⟨bs, spread⟩ := exists_spread (.object _)
    obtain ⟨gathers, -⟩ := (read_object_eq_ok h.settled spread).mp (denotes bs [] spread bounds_nil)
    have varied :=
      h.gathers_perm order.symm (h.gathers_foreign unknown (h.gathers_varies each gathers))
    exact fun bs rest spread _ => (read_object_eq_ok h.settled spread).mpr ⟨varied, rfl⟩
  · obtain ⟨bs, spread⟩ := exists_spread (.list _)
    obtain ⟨lined, -⟩ := (read_list_eq_ok h.settled spread).mp (denotes bs [] spread bounds_nil)
    exact fun bs rest spread _ =>
      (read_list_eq_ok h.settled spread).mpr ⟨lined_varies h.each each lined, rfl⟩

theorem follows (h : Fits layout s) (empty : δ) : Follows (RecordVaries layout) (s.read empty) :=
  ⟨.record h.faithful empty, h.respects_read empty⟩

end Fits

end Records

end Stowage.Json
