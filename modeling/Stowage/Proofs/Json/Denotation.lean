import Stowage.Proofs.Json.Leaves

/-! What lists, records and optional values denote follows from what their parts denote. The loops
that read them are followed along the tree: an object gathers a draft from its members, one after
the other, and a list lines its items up with the fields. -/
namespace Stowage.Json

variable {α β δ : Type} {bs rest behind : Bytes} {v : Value} {read : Bytes → Scanned α} {fuel : Nat}
    {first : Bool}
  {entries : List (List Token)}

theorem Value.skipped (h : Spread v.tokens bs rest) : Spread v.tokens (skipSpace bs) rest := by
  obtain ⟨t, ts, eq⟩ := v.exists_tokens
  rw [eq] at h ⊢
  exact h.skipped

theorem exists_spread (v : Value) : ∃ bs, Spread v.tokens bs [] :=
  ⟨_, spread_spaced (List.forall_mem_nil _) v.tokens []⟩

theorem bounds_nil : Bounds [] := nofun

theorem Settled.denotes_iff {a : α} (h : Settled read) (spread : Spread v.tokens bs rest)
    (bounds : Bounds rest) :
    Denotes read v a ↔ read bs = .ok (a, rest) :=
  ⟨fun denotes => denotes bs rest spread bounds, fun found =>
    (h v bs rest a rest spread bounds found).2⟩

theorem Settled.map (h : Settled read) (f : α → β) :
    Settled fun bs => (read bs).map fun (a, rest) => (f a, rest) := by
  intro v bs rest b behind spread bounds found
  obtain ⟨⟨a, middle⟩, own, eq⟩ := map_eq_ok.mp found
  cases eq
  obtain ⟨rfl, denotes⟩ := h v bs rest a behind spread bounds own
  exact ⟨rfl, fun bs rest spread bounds => map_eq_ok.mpr ⟨_, denotes bs rest spread bounds, rfl⟩⟩

section Optional

theorem optional_null (h : Spread (Value.word .null).tokens bs rest) :
    optional read bs = .ok (none, rest) := by
  obtain ⟨more, shown, -, others⟩ := h.uncons
  cases others
  have letters : literal (ascii "ull") (ascii "ull" ++ rest) = .ok rest := literal_eq_ok.mpr rfl
  rw [optional, shown]
  change (literal (ascii "ull") (ascii "ull" ++ rest)).map (none, ·) = _
  rw [letters]
  rfl

theorem optional_value (other : v ≠ .word .null) (h : Spread v.tokens bs rest) :
    optional read bs = (read (skipSpace bs)).map fun (a, rest) => (some a, rest) := by
  obtain ⟨b, more, shown, kind⟩ := Value.uncons h
  have not : b ≠ octet 'n' := by
    rintro rfl
    exact other kind
  rw [optional, shown]
  exact if_neg not

theorem Settled.optional (h : Settled read) : Settled (optional read) := by
  intro v bs rest o behind spread bounds found
  by_cases null : v = .word .null
  · subst null
    rw [optional_null spread] at found
    cases found
    exact ⟨rfl, fun bs rest spread _ => optional_null spread⟩
  · rw [optional_value null spread] at found
    obtain ⟨rfl, denotes⟩ :=
      h.map some v (skipSpace bs) rest o behind (Value.skipped spread) bounds found
    refine ⟨rfl, fun bs rest spread bounds => ?_⟩
    rw [optional_value null spread]
    exact denotes _ rest (Value.skipped spread) bounds

end Optional

section Lists

theorem nextElement_end (h : Spread (block .list first []) bs rest) :
    nextElement first bs = .ok (false, octet ']' :: rest) := by
  obtain ⟨more, shown, -, others⟩ := h.uncons
  cases others
  rw [nextElement, shown]
  rfl

theorem shown_item (h : Spread (block .list first (v.tokens :: entries)) bs rest) :
    ∃ b more, skipSpace bs = b :: more ∧ b ≠ octet ']' := by
  cases first with
  | true =>
    obtain ⟨middle, spread, -⟩ := spread_append.mp h
    obtain ⟨t, ts, eq⟩ := v.exists_tokens
    obtain ⟨more, shown, -⟩ := Spread.uncons (eq ▸ spread)
    exact ⟨_, _, shown, Value.first_ne eq⟩
  | false =>
    obtain ⟨more, shown, -⟩ := h.uncons
    exact ⟨_, _, shown, (by decide : octet ',' ≠ octet ']')⟩

theorem nextElement_item (h : Spread (block .list first (v.tokens :: entries)) bs rest) :
    ∃ shown middle, nextElement first bs = .ok (true, shown) ∧ shown.length ≤ bs.length ∧
    Spread v.tokens shown middle ∧
      Spread (block .list false entries) middle rest := by
  have shorter (bs : Bytes) : (skipSpace bs).length ≤ bs.length :=
    (List.dropWhile_suffix isSpace).length_le
  cases first with
  | true =>
    obtain ⟨b, more, shown, other⟩ := shown_item h
    obtain ⟨middle, spread, others⟩ := spread_append.mp h
    refine ⟨skipSpace bs, middle, ?_, shorter bs, Value.skipped spread, others⟩
    simp only [nextElement, shown, other, if_false, if_true]
  | false =>
    obtain ⟨behind, (comma : skipSpace bs = octet ',' :: behind), less, h⟩ := h.uncons
    -- What is behind the comma reads as a list that begins with the item.
    obtain ⟨b, more, shown, other⟩ :=
      shown_item (show Spread (block .list true _) behind rest from h)
    obtain ⟨middle, spread, others⟩ := spread_append.mp h
    refine ⟨skipSpace behind, middle, ?_, Nat.le_trans (shorter behind) (Nat.le_of_lt less),
      Value.skipped spread, others⟩
    rw [nextElement, comma]
    dsimp only
    rw [if_neg (by decide), if_neg Bool.false_ne_true, if_pos rfl, shown]
    exact if_neg other

theorem itemsFrom_next {done : List α} {shown : Bytes}
    (next : nextElement first bs = .ok (true, shown)) :
    itemsFrom read (fuel + 1) first done bs =
      (read shown).bind fun (value, rest) => itemsFrom read fuel false (value :: done) rest := by
  rw [itemsFrom, next]
  rfl

theorem itemsFrom_end {done : List α} (last : nextElement first bs = .ok (false, rest)) :
    itemsFrom read (fuel + 1) first done bs = .ok (done.reverse, rest) := by
  rw [itemsFrom, last]
  rfl

theorem itemsFrom_eq_ok (settled : Settled read) {items : List Value} {done all : List α}
    (h : Spread (block .list first (itemEntries items)) bs rest) (enough : bs.length < fuel) :
    itemsFrom read fuel first done bs = .ok (all, behind) ↔
      (∃ more, List.Forall₂ (Denotes read) items more ∧ done.reverse ++ more = all) ∧
      octet ']' :: rest = behind := by
  obtain ⟨fuel, rfl⟩ := Nat.exists_eq_add_one_of_ne_zero (Nat.ne_zero_of_lt enough)
  induction items generalizing bs fuel first done with
  | nil =>
    rw [itemsFrom_end (nextElement_end h)]
    constructor
    · intro found
      cases found
      exact ⟨⟨[], .nil, List.append_nil _⟩, rfl⟩
    · rintro ⟨⟨_, _ | _, rfl⟩, rfl⟩
      rw [List.append_nil]
  | cons v items ih =>
    obtain ⟨shown, middle, next, less, own, others⟩ := nextElement_item h
    have bounds := bounds_block others
    have shorter := own.length_lt
    obtain ⟨fuel, rfl⟩ := Nat.exists_eq_add_one_of_ne_zero (by omega : fuel ≠ 0)
    rw [itemsFrom_next next, bind_eq_ok]
    constructor
    · rintro ⟨⟨a, after⟩, taken, found⟩
      obtain ⟨rfl, denotes⟩ := settled v shown middle a after own bounds taken
      obtain ⟨⟨more, each, rfl⟩, last⟩ := (ih others fuel (by omega)).mp found
      exact ⟨⟨a :: more, .cons denotes each, by simp⟩, last⟩
    · rintro ⟨⟨_, _ | ⟨denotes, each⟩, rfl⟩, last⟩
      refine ⟨_, denotes shown middle own bounds,
        (ih others fuel (by omega)).mpr ⟨⟨_, each, by simp⟩, last⟩⟩

theorem list_eq_ok (settled : Settled read) {items : List Value} {all : List α}
    (h : Spread (Value.list items).tokens bs rest) :
    list read bs = .ok (all, behind) ↔ List.Forall₂ (Denotes read) items all ∧ rest = behind := by
  obtain ⟨more, (shown : skipSpace bs = octet '[' :: more), -, inner⟩ := h.uncons
  have opened :
      list read bs =
      finish closeList (placing (itemsFrom read (more.length + 1) true [] more)) := by
    rw [list, shown]
    rfl
  have enough := Nat.lt_succ_self more.length
  rw [opened, finish_eq_ok]
  constructor
  · rintro ⟨middle, taken, closed⟩
    obtain ⟨⟨values, each, rfl⟩, rfl⟩ :=
      (itemsFrom_eq_ok settled inner enough).mp (mapError_eq_ok.mp taken)
    cases closed
    exact ⟨each, rfl⟩
  · rintro ⟨each, rfl⟩
    exact ⟨_, mapError_eq_ok.mpr ((itemsFrom_eq_ok settled inner enough).mpr ⟨⟨_, each, rfl⟩, rfl⟩),
      rfl⟩

theorem Settled.list (h : Settled read) : Settled (list read) := by
  intro v bs rest all behind spread bounds found
  obtain ⟨b, more, shown, kind⟩ := Value.uncons spread
  have bracket : b = octet '[' := by
    by_contra other
    rw [Json.list, shown] at found
    simp only [other, if_false, reduceCtorEq] at found
  subst bracket
  obtain ⟨items, rfl⟩ : v.IsOf .list := kind
  obtain ⟨each, rfl⟩ := (list_eq_ok h spread).mp found
  exact ⟨rfl, fun bs rest spread _ => (list_eq_ok h spread).mpr ⟨each, rfl⟩⟩

end Lists

section Objects

theorem nextKey_end (h : Spread (block .object first []) bs rest) :
    nextKey first bs = .ok (none, octet '\x7d' :: rest) := by
  obtain ⟨more, shown, -, others⟩ := h.uncons
  cases others
  rw [nextKey, shown]
  rfl

theorem nextKey_member {key : Quoted} {ts : List Token}
    (h : Spread (block .object first ((key.token :: ts) :: entries)) bs rest) :
    ∃ behind middle, nextKey first bs = .ok (some (key.token.more ++ behind),
      key.token.more ++ behind) ∧
      behind.length < bs.length ∧ Spread ts behind middle ∧
      Spread (block .object false entries) middle rest := by
  cases first with
  | true =>
    obtain ⟨middle, spread, others⟩ := spread_append.mp h
    obtain ⟨behind, shown, less, spread⟩ := spread.uncons
    refine ⟨behind, middle, ?_, less, spread, others⟩
    rw [nextKey, shown]
    rfl
  | false =>
    obtain ⟨more, (comma : skipSpace bs = octet ',' :: more), shorter, h⟩ := h.uncons
    obtain ⟨middle, spread, others⟩ := spread_append.mp h
    obtain ⟨behind, shown, less, spread⟩ := spread.uncons
    refine ⟨behind, middle, ?_, Nat.lt_trans less shorter, spread, others⟩
    rw [nextKey, comma]
    dsimp only
    rw [if_neg (by decide), if_neg Bool.false_ne_true, if_pos rfl, shown]
    rfl

theorem colon_value (h : Spread (colonToken :: v.tokens) bs rest) :
    ∃ next, colon bs = .ok next ∧ Spread v.tokens next rest := by
  obtain ⟨next, shown, -, spread⟩ := h.uncons
  refine ⟨next, ?_, spread⟩
  rw [colon, shown]
  rfl

variable {s : Shape δ} {draft filled : δ} {key : Quoted} {name : List Char}

def Shape.named? (s : Shape δ) (name : List Char) : Option (FieldRule δ) :=
  s.fields.find? fun f => f.name.toList == name

theorem member_foreign (unknown : s.named? name = none)
    (h : Spread (colonToken :: v.tokens) bs rest) (bounds : Bounds rest) :
    s.member draft name bs = .ok (draft, rest) := by
  obtain ⟨next, behind, spread⟩ := colon_value h
  have passed := skip_value spread bounds
  rw [Shape.named?] at unknown
  simp only [Shape.member, unknown, behind, passed, placing, bind, Except.bind, pure, Except.pure,
    Except.mapError]

theorem member_field {field : FieldRule δ} (known : s.named? name = some field) {next : Bytes}
    (behind : colon bs = .ok next) :
    s.member draft name bs =
      if field.isSet draft then .error (.unplaced (.duplicateField field.name) bs)
      else (placing (field.read next)).bind fun (set, rest) => .ok (set draft, rest) := by
  rw [Shape.named?] at known
  simp only [Shape.member, known, behind, placing, bind, Except.bind, pure, Except.pure]
  rfl

/-- What one member does to a draft: it sets the field that it names, which is not set yet. A name
that is no field's leaves the draft as it is. -/
inductive Sets (s : Shape δ) (draft : δ) : Member → δ → Prop
  | field {key : Quoted} {v : Value} {name : List Char} {field : FieldRule δ} {set : δ → δ}
  (named : key.chars? = some name)
      (known : s.named? name = some field) (unset : field.isSet draft = false)
      (denotes : Denotes field.read v set) :
      Sets s draft (key, v) (set draft)
  | foreign {key : Quoted} {v : Value} {name : List Char} (named : key.chars? = some name)
    (unknown : s.named? name = none) :
      Sets s draft (key, v) draft

inductive Gathers (s : Shape δ) : δ → List Member → δ → Prop
  | done {draft : δ} (full : s.missing? draft = none) : Gathers s draft [] draft
  | next {draft drafted filled : δ} {m : Member} {members : List Member}
  (own : Sets s draft m drafted)
      (others : Gathers s drafted members filled) : Gathers s draft (m :: members) filled

theorem member_sets_iff (settled : ∀ field ∈ s.fields, Settled field.read)
    (h : Spread (colonToken :: v.tokens) bs rest) (bounds : Bounds rest) :
    (∃ name, key.chars? = some name ∧ s.member draft name bs = .ok (filled, behind)) ↔
      Sets s draft (key, v) filled ∧ rest = behind := by
  obtain ⟨next, colon, spread⟩ := colon_value h
  constructor
  · rintro ⟨name, named, found⟩
    cases known : s.named? name with
    | none =>
      rw [member_foreign known h bounds] at found
      cases found
      exact ⟨.foreign named known, rfl⟩
    | some field =>
      rw [member_field known colon] at found
      split at found
      · cases found
      · rename_i unset
        obtain ⟨⟨set, after⟩, taken, eq⟩ := bind_eq_ok.mp found
        cases eq
        obtain ⟨rfl, denotes⟩ :=
          settled field (List.mem_of_find?_eq_some known) v next rest set behind spread bounds
            (mapError_eq_ok.mp taken)
        exact ⟨.field named known (Bool.eq_false_iff.mpr unset) denotes, rfl⟩
  · rintro ⟨own, rfl⟩
    cases own with
    | foreign named unknown => exact ⟨_, named, member_foreign unknown h bounds⟩
    | field named known unset denotes =>
      refine ⟨_, named, ?_⟩
      rw [member_field known colon, unset, if_neg Bool.false_ne_true]
      exact bind_eq_ok.mpr ⟨_, mapError_eq_ok.mpr (denotes next rest spread bounds), rfl⟩

theorem members_none (last : nextKey first bs = .ok (none, rest)) :
    s.members (fuel + 1) first draft bs = .ok (filled, behind) ↔
      s.missing? draft = none ∧ draft = filled ∧ rest = behind := by
  rw [Shape.members, last]
  cases s.missing? draft with
  | none => simp [placing, Except.mapError, bind, Except.bind, pure, Except.pure]
  | some field => simp [placing, Except.mapError, bind, Except.bind]

theorem members_some {more : Bytes}
    (next : nextKey first bs = .ok (some (key.token.more ++ more), key.token.more ++ more)) :
    s.members (fuel + 1) first draft bs = .ok (filled, behind) ↔
      ∃ drafted middle, (∃ name, key.chars? = some name ∧
        s.member draft name more = .ok (drafted, middle)) ∧
        s.members fuel false drafted middle = .ok (filled, behind) := by
  have unfolded : s.members (fuel + 1) first draft bs =
      (placing (string (key.token.more ++ more))).bind fun named =>
        (s.member draft named.1 named.2).bind fun kept => s.members fuel false kept.1 kept.2 := by
    rw [Shape.members, next]
    rfl
  rw [unfolded]
  constructor
  · intro found
    obtain ⟨⟨name, after⟩, taken, found⟩ := bind_eq_ok.mp found
    obtain ⟨⟨drafted, middle⟩, own, others⟩ := bind_eq_ok.mp found
    obtain ⟨named, rfl⟩ := string_token.mp (mapError_eq_ok.mp taken)
    exact ⟨drafted, middle, ⟨name, named, own⟩, others⟩
  · rintro ⟨drafted, middle, ⟨name, named, own⟩, others⟩
    exact bind_eq_ok.mpr ⟨_, mapError_eq_ok.mpr (string_token.mpr ⟨named, rfl⟩),
      bind_eq_ok.mpr ⟨_, own, others⟩⟩

theorem members_eq_ok (settled : ∀ field ∈ s.fields, Settled field.read) {members : List Member}
    (h : Spread (block .object first (memberEntries members)) bs rest) (enough : bs.length < fuel) :
    s.members fuel first draft bs = .ok (filled, behind) ↔
      Gathers s draft members filled ∧ octet '\x7d' :: rest = behind := by
  obtain ⟨fuel, rfl⟩ := Nat.exists_eq_add_one_of_ne_zero (Nat.ne_zero_of_lt enough)
  induction members generalizing bs fuel first draft with
  | nil =>
    rw [members_none (nextKey_end h)]
    constructor
    · rintro ⟨full, rfl, last⟩
      exact ⟨.done full, last⟩
    · rintro ⟨⟨full⟩, last⟩
      exact ⟨full, rfl, last⟩
  | cons m members ih =>
    obtain ⟨key, v⟩ := m
    obtain ⟨more, middle, next, less, own, others⟩ := nextKey_member h
    have bounds := bounds_block others
    have shorter := own.length_le
    obtain ⟨fuel, rfl⟩ := Nat.exists_eq_add_one_of_ne_zero (by omega : fuel ≠ 0)
    simp only [members_some next, member_sets_iff settled own bounds]
    constructor
    · rintro ⟨drafted, _, ⟨sets, rfl⟩, found⟩
      obtain ⟨gathers, last⟩ := (ih others fuel (by omega)).mp found
      exact ⟨.next sets gathers, last⟩
    · rintro ⟨_ | ⟨sets, gathers⟩, last⟩
      exact ⟨_, middle, ⟨sets, rfl⟩, (ih others fuel (by omega)).mpr ⟨gathers, last⟩⟩

end Objects

section Elements

/-- Items in the order of the fields; only fields that are not required may be left without one. -/
inductive Lined : List (FieldRule δ) → δ → List Value → δ → Prop
  | done (draft : δ) : Lined [] draft [] draft
  | absent {field : FieldRule δ} {fields : List (FieldRule δ)} {draft filled : δ}
  (optional : field.required = false)
      (others : Lined fields draft [] filled) : Lined (field :: fields) draft [] filled
  | item {field : FieldRule δ} {fields : List (FieldRule δ)} {draft filled : δ} {v : Value}
    {items : List Value} {set : δ → δ}
      (denotes : Denotes field.read v set) (others : Lined fields (set draft) items filled) :
      Lined (field :: fields) draft (v :: items) filled

variable {s : Shape δ} {draft filled : δ} {index : Nat}

theorem closeList_end (h : Spread (block .list first []) bs rest) :
    closeList bs = (rest, none) := by
  obtain ⟨more, shown, -, others⟩ := h.uncons
  cases others
  rw [closeList, shown]
  rfl

theorem closeList_item (h : Spread (block .list first (v.tokens :: entries)) bs rest) :
    closeList bs ≠ (behind, none) := by
  obtain ⟨b, more, shown, other⟩ := shown_item h
  rw [ne_eq, closeList_iff, shown, List.cons.injEq]
  exact fun closed => other closed.1

theorem elements_end {field : FieldRule δ} {fields : List (FieldRule δ)}
    (last : nextElement first bs = .ok (false, rest)) (optional : field.required = false) :
    s.elements index first draft bs (field :: fields) =
      s.elements (index + 1) first draft rest fields := by
  rw [Shape.elements, last]
  simp only [placing, Except.mapError, bind, Except.bind, optional, Bool.false_eq_true, if_false]

theorem elements_next {field : FieldRule δ} {fields : List (FieldRule δ)} {shown : Bytes}
    (next : nextElement first bs = .ok (true, shown)) :
    s.elements index first draft bs (field :: fields) =
      (placing (field.read shown)).bind fun (set, rest) =>
      s.elements (index + 1) false (set draft) rest fields := by
  rw [Shape.elements, next]
  rfl

theorem elements_eq_ok {fields : List (FieldRule δ)}
    (settled : ∀ field ∈ fields, Settled field.read) {items : List Value}
    (h : Spread (block .list first (itemEntries items)) bs rest) :
    finish closeList (s.elements index first draft bs fields) = .ok (filled, behind) ↔
      Lined fields draft items filled ∧ rest = behind := by
  induction fields generalizing bs first draft items index with
  | nil =>
    rw [Shape.elements, finish_eq_ok]
    cases items with
    | nil =>
      constructor
      · rintro ⟨middle, taken, closed⟩
        cases taken
        rw [closeList_end h] at closed
        cases closed
        exact ⟨.done _, rfl⟩
      · rintro ⟨⟨_⟩, rfl⟩
        exact ⟨bs, rfl, closeList_end h⟩
    | cons v items =>
      constructor
      · rintro ⟨middle, taken, closed⟩
        cases taken
        exact absurd closed (closeList_item h)
      · rintro ⟨⟨⟩, -⟩
  | cons field fields ih =>
    obtain ⟨own, settled⟩ := List.forall_mem_cons.mp settled
    cases items with
    | nil =>
      have last := nextElement_end h
      cases required : field.required with
      | true =>
        refine iff_of_false (fun found => ?_) ?_
        · obtain ⟨middle, taken, -⟩ := finish_eq_ok.mp found
          rw [Shape.elements, last] at taken
          simp only [placing, Except.mapError, bind, Except.bind, required, Bool.false_eq_true,
            if_false, if_true] at taken
          cases taken
        · rintro ⟨_ | ⟨optional, -⟩, -⟩
          rw [required] at optional
          cases optional
      | false =>
        have again : Spread (block .list first (itemEntries [])) (octet ']' :: rest) rest :=
          (Spread.nil rest).token Frame.list.closes
        rw [elements_end last required, ih settled again]
        constructor
        · rintro ⟨lined, same⟩
          exact ⟨.absent required lined, same⟩
        · rintro ⟨_ | ⟨-, lined⟩, same⟩
          exact ⟨lined, same⟩
    | cons v items =>
      obtain ⟨shown, middle, next, -, spread, others⟩ := nextElement_item h
      have bounds := bounds_block others
      rw [elements_next next]
      constructor
      · intro found
        obtain ⟨last, taken, closed⟩ := finish_eq_ok.mp found
        obtain ⟨⟨set, after⟩, item, taken⟩ := bind_eq_ok.mp taken
        obtain ⟨rfl, denotes⟩ := own v shown middle set after spread bounds (mapError_eq_ok.mp item)
        obtain ⟨lined, rfl⟩ := (ih settled others).mp (finish_eq_ok.mpr ⟨last, taken, closed⟩)
        exact ⟨.item denotes lined, rfl⟩
      · rintro ⟨_ | _ | ⟨denotes, lined⟩, rfl⟩
        obtain ⟨last, taken, closed⟩ := finish_eq_ok.mp ((ih settled others).mpr ⟨lined, rfl⟩)
        have item := denotes shown middle spread bounds
        exact finish_eq_ok.mpr ⟨last, bind_eq_ok.mpr ⟨_, mapError_eq_ok.mpr item, taken⟩, closed⟩

end Elements

section Records

variable {s : Shape δ} {empty filled : δ}

theorem read_object_eq_ok (settled : ∀ field ∈ s.fields, Settled field.read) {members : List Member}
    (h : Spread (Value.object members).tokens bs rest) :
    s.read empty bs = .ok (filled, behind) ↔ Gathers s empty members filled ∧ rest = behind := by
  obtain ⟨more, (shown : skipSpace bs = octet '\x7b' :: more), -, inner⟩ := h.uncons
  have opened :
      s.read empty bs = finish closeObject (s.members (more.length + 1) true empty more) := by
    rw [Shape.read, shown]
    rfl
  have enough := Nat.lt_succ_self more.length
  rw [opened, finish_eq_ok]
  constructor
  · rintro ⟨middle, taken, closed⟩
    obtain ⟨gathers, rfl⟩ := (members_eq_ok settled inner enough).mp taken
    cases closed
    exact ⟨gathers, rfl⟩
  · rintro ⟨gathers, rfl⟩
    exact ⟨_, (members_eq_ok settled inner enough).mpr ⟨gathers, rfl⟩, rfl⟩

theorem read_list_eq_ok (settled : ∀ field ∈ s.fields, Settled field.read) {items : List Value}
    (h : Spread (Value.list items).tokens bs rest) :
    s.read empty bs = .ok (filled, behind) ↔ Lined s.fields empty items filled ∧ rest = behind := by
  obtain ⟨more, (shown : skipSpace bs = octet '[' :: more), -, inner⟩ := h.uncons
  have opened : s.read empty bs = finish closeList (s.elements 0 true empty more s.fields) := by
    rw [Shape.read, shown]
    rfl
  rw [opened, elements_eq_ok settled inner]

theorem Settled.record (settled : ∀ field ∈ s.fields, Settled field.read) (empty : δ) :
    Settled (s.read empty) := by
  intro v bs rest filled behind spread bounds found
  obtain ⟨b, more, shown, kind⟩ := Value.uncons spread
  have bracket : b = octet '\x7b' ∨ b = octet '[' := by
    by_contra other
    rw [not_or] at other
    rw [Shape.read, shown] at found
    simp only [other.1, other.2, if_false, reduceCtorEq] at found
  rcases bracket with rfl | rfl
  · obtain ⟨members, rfl⟩ : v.IsOf .object := kind
    obtain ⟨gathers, rfl⟩ := (read_object_eq_ok settled spread).mp found
    exact ⟨rfl, fun bs rest spread _ => (read_object_eq_ok settled spread).mpr ⟨gathers, rfl⟩⟩
  · obtain ⟨items, rfl⟩ : v.IsOf .list := kind
    obtain ⟨lined, rfl⟩ := (read_list_eq_ok settled spread).mp found
    exact ⟨rfl, fun bs rest spread _ => (read_list_eq_ok settled spread).mpr ⟨lined, rfl⟩⟩

end Records

end Stowage.Json
