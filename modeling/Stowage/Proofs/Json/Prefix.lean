import Stowage.Proofs.Json.Scanners

/-! A text that stands for a value stands for no other one when it is cut short: the end of a record
or of a list is seen. -/
namespace Stowage.Json

variable {ε α β δ : Type} {n : Nat}

/-- Sees the end of what it reads, so that nothing behind that changes it. -/
structure Firm (read : Bytes → Except ε (α × Bytes)) : Prop where
  shrinks {bs : Bytes} {v : α} {rest : Bytes} : read bs = .ok (v, rest) → rest.length ≤ bs.length
  grows {bs : Bytes} {v : α} {rest : Bytes} : read bs = .ok (v, rest) →
    ∀ more, read (bs ++ more) = .ok (v, rest ++ more)

namespace Firm

variable {read next : Bytes → Except ε (α × Bytes)} {e : ε}

theorem steady (h : Firm read) (n : Nat) : Steady n read :=
  ⟨fun _ => h.shrinks, fun _ found _ => h.grows found⟩

theorem error (e : Bytes → ε) : Firm fun bs => (.error (e bs) : Except ε (α × Bytes)) :=
  ⟨nofun, nofun⟩

theorem ite {c : Prop} [Decidable c] (h : Firm read) (k : Firm next) :
    Firm fun bs => if c then read bs else next bs := by
  by_cases holds : c
  · simpa only [if_pos holds] using h
  · simpa only [if_neg holds] using k

theorem map (h : Firm read) (f : α → β) : Firm fun bs => (read bs).map fun (v, rest) =>
    (f v, rest) where
  shrinks found := ((h.steady _).map f).shrinks (Nat.le_refl _) found
  grows found more := by
    obtain ⟨_, first, eq⟩ := map_eq_ok.mp found
    cases eq
    exact map_eq_ok.mpr ⟨_, h.grows first more, rfl⟩

theorem spaced (atEnd : read [] = .error e) (skip : ∀ bs, read bs = read (skipSpace bs))
    (h : ∀ b, isSpace b = false → Firm fun bs => read (b :: bs)) : Firm read where
  shrinks found :=
    Nat.le_of_lt ((Takes.spaced atEnd skip fun m b shown => (h b shown).steady m).shorter found)
  grows found more := by
    obtain ⟨b, tail, solid, -, found, whole⟩ := exists_of_spaced atEnd skip found
    rw [whole]
    exact (h b solid).grows found more

end Firm

section Blocks

def Closes (close : Bytes → Bytes × Option Cause) : Prop :=
  ∀ bs rest, close bs = (rest, none) → bs ≠ [] ∧ rest.length ≤ bs.length ∧
    ∀ more, close (bs ++ more) = (rest ++ more, none)

theorem closes_of_iff {close : Bytes → Bytes × Option Cause} (closing : UInt8)
    (h : ∀ bs rest, close bs = (rest, none) ↔ skipSpace bs = closing :: rest) : Closes close := by
  intro bs rest found
  obtain ⟨-, less, whole⟩ := skipSpace_eq_cons ((h bs rest).mp found)
  exact ⟨List.ne_nil_of_length_pos (Nat.zero_lt_of_lt less), Nat.le_of_lt less, fun more =>
    (h _ _).mpr (whole more)⟩

theorem closeObject_iff (bs rest : Bytes) : closeObject bs = (rest, none) ↔
    skipSpace bs = octet '\x7d' :: rest := by
  rw [closeObject]
  cases skipSpace bs with
  | nil => simp
  | cons b tail =>
    dsimp only
    by_cases brace : b = octet '\x7d'
    · simp [brace]
    · simp [brace]

theorem closes_closeObject : Closes closeObject := closes_of_iff (octet '\x7d') closeObject_iff

theorem closeList_iff (bs rest : Bytes) : closeList bs = (rest, none) ↔
    skipSpace bs = octet ']' :: rest := by
  rw [closeList]
  cases skipSpace bs with
  | nil => simp
  | cons b tail =>
    dsimp only
    by_cases bracket : b = octet ']'
    · simp [bracket]
    · by_cases comma : b = octet ','
      · simp [comma, octet]
      · simp [bracket, comma]

theorem closes_closeList : Closes closeList := closes_of_iff (octet ']') closeList_iff

theorem finish_eq_ok {close : Bytes → Bytes × Option Cause} {attempt : Attempt α} {v : α}
    {rest : Bytes} :
    finish close attempt = .ok (v, rest) ↔
      ∃ middle, attempt = .ok (v, middle) ∧ close middle = (rest, none) := by
  rcases attempt with (fault | ⟨cause, middle⟩) | ⟨w, middle⟩
  · simp [finish]
  · simp [finish]
  · rcases closed : close middle with ⟨behind, _ | cause⟩
    · simp [finish, closed, and_comm]
    · simp [finish, closed]

theorem firm_finish {close : Bytes → Bytes × Option Cause} {attempt : Bytes → Attempt α}
    (h : ∀ n, Steady n attempt) (closes : Closes close) :
    Firm fun bs => finish close (attempt bs) where
  shrinks found := by
    obtain ⟨middle, first, closed⟩ := finish_eq_ok.mp found
    exact Nat.le_trans (closes _ _ closed).2.1 ((h _).shrinks (Nat.le_refl _) first)
  grows found more := by
    obtain ⟨middle, first, closed⟩ := finish_eq_ok.mp found
    -- The end of the block is among what the attempt left, so that it did not come to the end of
    -- the text.
    obtain ⟨nonempty, -, longer⟩ := closes _ _ closed
    exact finish_eq_ok.mpr ⟨_, (h _).grows (Nat.le_refl _) first nonempty more, longer more⟩

end Blocks

section Records

def findKey (first : Bool) (bs : Bytes) : Except Fault (Bool × Bytes) :=
  (nextKey first bs).map fun (key, rest) => (key.isSome, rest)

def keyBehindComma (bs : Bytes) : Except Fault (Bool × Bytes) :=
  match skipSpace bs with
  | [] => .error (.ahead .endOfValue [])
  | c :: rest =>
    if c = octet '"' then .ok (true, rest)
    else .error (.ahead (if c = octet '\x7d' then .trailingComma else .keyNotString) (c :: rest))

theorem takes_keyBehindComma : Takes keyBehindComma := by
  refine .spaced rfl (fun bs => by simp only [keyBehindComma, skipSpace_skipSpace]) fun m b shown =>
    ?_
  simp only [keyBehindComma, skipSpace_cons shown]
  exact .ite (.ok true) (.error _)

theorem findKey_cons {b : UInt8} (shown : isSpace b = false) (first : Bool) (bs : Bytes) :
    findKey first (b :: bs) =
      if b = octet '\x7d' then .ok (false, b :: bs)
      else if first then if b = octet '"' then .ok (true, bs)
        else .error (.ahead .keyNotString (b :: bs))
      else if b = octet ',' then keyBehindComma bs
      else .error (.ahead .expectedObjectEnd (b :: bs)) := by
  rw [findKey, nextKey, skipSpace_cons shown, keyBehindComma]
  dsimp only
  cases skipSpace bs with
  | nil => split_ifs <;> rfl
  | cons c rest =>
    dsimp only
    split_ifs <;> rfl

theorem findKey_skipSpace (first : Bool) (bs : Bytes) :
    findKey first bs = findKey first (skipSpace bs) := by
  simp only [findKey, nextKey, skipSpace_skipSpace]

theorem steady_findKey (first : Bool) : Steady n (findKey first) := by
  refine .spacedHead (fun b bs =>
      if b = octet '\x7d' then .ok (false, bs)
      else if first then if b = octet '"' then .ok (true, bs.drop 1)
        else .error (.ahead .keyNotString bs)
      else if b = octet ',' then keyBehindComma (bs.drop 1)
      else .error (.ahead .expectedObjectEnd bs))
    rfl (findKey_skipSpace first) (fun b bs shown => findKey_cons shown first bs) fun b => ?_
  exact .ite (.ok false) (.ite (.ite (.behind fun _ => .ok true) (.error _))
    (.ite (.behind takes_keyBehindComma.steady) (.error _)))

theorem length_lt_of_findKey {first : Bool} {bs rest : Bytes}
    (found : findKey first bs = .ok (true, rest)) :
    rest.length < bs.length := by
  have atEnd : findKey first [] = .error (.ahead .endOfObject []) := rfl
  obtain ⟨b, tail, solid, less, found, -⟩ := exists_of_spaced atEnd (findKey_skipSpace first) found
  rw [findKey_cons solid] at found
  split_ifs at found
  · cases found
  · cases found
    exact less
  · exact Nat.lt_trans (takes_keyBehindComma.shorter found) less

theorem nextKey_some {first : Bool} {bs key rest : Bytes}
    (found : nextKey first bs = .ok (some key, rest)) : rest = key := by
  rw [nextKey] at found
  grind

def elementBehindComma (bs : Bytes) : Except Fault (Bool × Bytes) :=
  match skipSpace bs with
  | [] => .error (.ahead .endOfValue [])
  | c :: rest =>
    if c = octet ']' then .error (.ahead .trailingComma (c :: rest)) else .ok (true, c :: rest)

theorem steady_elementBehindComma : Steady n elementBehindComma := by
  refine .spacedHead (fun c bs => if c = octet ']' then .error (.ahead .trailingComma bs)
    else .ok (true, bs)) rfl
    (fun bs => by simp only [elementBehindComma, skipSpace_skipSpace]) (fun b bs shown =>
      ?_) fun b => .ite (.error _) (.ok true)
  rw [elementBehindComma, skipSpace_cons shown]

theorem nextElement_cons {b : UInt8} (shown : isSpace b = false) (first : Bool) (bs : Bytes) :
    nextElement first (b :: bs) =
      if b = octet ']' then .ok (false, b :: bs)
      else if first then .ok (true, b :: bs)
      else if b = octet ',' then elementBehindComma bs
      else .error (.ahead .expectedListEnd (b :: bs)) := by
  rw [nextElement, skipSpace_cons shown]
  rfl

theorem steady_nextElement (first : Bool) : Steady n (nextElement first) := by
  refine .spacedHead (fun b bs =>
      if b = octet ']' then .ok (false, bs)
      else if first then .ok (true, bs)
      else if b = octet ',' then elementBehindComma (bs.drop 1)
      else .error (.ahead .expectedListEnd bs))
    rfl (fun bs => by simp only [nextElement, skipSpace_skipSpace]) (fun b bs shown =>
      nextElement_cons shown first bs)
    fun b => ?_
  exact .ite (.ok false)
    (.ite (.ok true) (.ite (.behind fun _ => steady_elementBehindComma) (.error _)))

def Shape.Steady (s : Shape δ) : Prop := ∀ field ∈ s.fields, ∀ n, Json.Steady n field.read

variable {s : Shape δ}

theorem passing_placing {read : Bytes → Except Fault Bytes} :
    passing (fun bs => placing (read bs)) = fun bs => placing (passing read bs) := by
  funext bs
  simp only [passing]
  cases read bs <;> rfl

theorem steady_member (h : s.Steady) (draft : δ) (name : List Char) :
    Steady n (s.member draft name) := by
  unfold Shape.member
  cases found : s.fields.find? fun f => f.name.toList == name with
  | none =>
    have passed : Steady n (passing fun bs => placing ((colon bs).bind skip)) := by
      rw [passing_placing, passing_bind]
      exact .mapError (.andThen (takes_colon.steady n) steady_skip) _
    exact .andThen passed (.ok draft)
  | some field =>
    have read : Steady n field.read := h field (List.mem_of_find?_eq_some found) n
    have behind : Steady n fun bs => placing ((colon bs).bind field.read) :=
      .mapError (.andThen (takes_colon.steady n) read) _
    exact .ite (.error fun bs => Trouble.unplaced (.duplicateField field.name) bs)
      (.bind behind fun set => .ok (set draft))

def Shape.memberTurn (s : Shape δ) (state : Bool × δ) (bs : Bytes) :
    Except Trouble (Turn (Bool × δ) δ × Bytes) :=
  (placing (findKey state.1 bs)).bind fun (found, rest) =>
    if found then
      (placing (string rest)).bind fun (name, rest) =>
        (s.member state.2 name rest).map fun (draft, rest) => (.again (false, draft), rest)
    else match s.missing? state.2 with
      | some field => .error (.unplaced (.missingField field.name) rest)
      | none => .ok (.done state.2, rest)

theorem members_turn (fuel : Nat) (state : Bool × δ) (bs : Bytes) :
    s.members (fuel + 1) state.1 state.2 bs =
      (s.memberTurn state bs).bind (Turn.next fun state => s.members fuel state.1 state.2) := by
  rw [Shape.members, Shape.memberTurn, findKey]
  rcases found : nextKey state.1 bs with fault | ⟨_ | key, rest⟩
  · rfl
  · simp only [placing, Except.mapError, Except.map, bind, Except.bind, Option.isSome_none,
      Bool.false_eq_true, if_false]
    cases s.missing? state.2 <;> rfl
  · cases nextKey_some found
    simp only [placing, Except.mapError, Except.map, bind, Except.bind, Option.isSome_some, if_true]
    rcases string rest with fault | ⟨name, behind⟩
    · rfl
    · dsimp only
      rcases s.member state.2 name behind with trouble | ⟨draft, behind⟩ <;> rfl

theorem steady_memberTurn (h : s.Steady) (state : Bool × δ) : Steady n (s.memberTurn state) := by
  refine .bind (.mapError (steady_findKey state.1) _) fun found => .ite ?_ ?_
  · exact .bind (.mapError steady_string _) fun name =>
      .map (steady_member h state.2 name) fun draft => Turn.again (false, draft)
  · cases s.missing? state.2 with
    | none => exact .ok _
    | some field => exact .error _

theorem length_lt_of_memberTurn (h : s.Steady) {state next : Bool × δ} {bs rest : Bytes}
    (found : s.memberTurn state bs = .ok (.again next, rest)) : rest.length < bs.length := by
  obtain ⟨⟨more, key⟩, first, found⟩ := bind_eq_ok.mp found
  cases more with
  | false =>
    dsimp only at found
    rw [if_neg Bool.false_ne_true] at found
    split at found <;> cases found
  | true =>
    have less := length_lt_of_findKey (mapError_eq_ok.mp first)
    obtain ⟨⟨name, behind⟩, named, found⟩ := bind_eq_ok.mp found
    obtain ⟨⟨draft, middle⟩, filled, eq⟩ := map_eq_ok.mp found
    cases eq
    have shorter := steady_string.shrinks (Nat.le_refl _) (mapError_eq_ok.mp named)
    have shortest := (steady_member h state.2 name).shrinks (Nat.le_refl _) filled
    omega

theorem turns_members (h : s.Steady) : Turns s.memberTurn fun fuel state =>
    s.members fuel state.1 state.2 where
  unfold := members_turn
  steady _ := steady_memberTurn h
  takes := length_lt_of_memberTurn h

theorem steady_members (h : s.Steady) (first : Bool) (draft : δ) :
    Steady n fun bs => s.members (bs.length + 1) first draft bs :=
  (turns_members h).steady_loop (first, draft)

theorem steady_elements (h : s.Steady) {fields : List (FieldRule δ)} (known : fields ⊆ s.fields)
    (index : Nat) (first : Bool) (draft : δ) :
    Steady n fun bs => s.elements index first draft bs fields := by
  induction fields generalizing index first draft with
  | nil => exact .ok draft
  | cons field fields ih =>
    have later := ih fun f hf => known (List.mem_cons_of_mem _ hf)
    have read : Steady n field.read := h field (known List.mem_cons_self) n
    simp only [Shape.elements]
    refine .bind (.mapError (steady_nextElement first) _) fun found => ?_
    cases found with
    | true => exact .bind (.mapError read _) fun set => later _ _ _
    | false =>
      exact .ite (.error fun bs => Trouble.unplaced (.wrongLength index s.lengthText) bs)
        (later _ _ _)

theorem read_cons {b : UInt8} (shown : isSpace b = false) (empty : δ) (bs : Bytes) :
    s.read empty (b :: bs) =
      if b = octet '\x7b' then finish closeObject (s.members (bs.length + 1) true empty bs)
      else if b = octet '[' then finish closeList (s.elements 0 true empty bs s.fields)
      else .error (wrongType s.label (b :: bs)) := by
  rw [Shape.read, skipSpace_cons shown]

theorem firm_read_cons (h : s.Steady) (empty : δ) {b : UInt8} (shown : isSpace b = false) :
    Firm fun bs => s.read empty (b :: bs) := by
  simp only [read_cons shown]
  refine .ite ?_ (.ite ?_ (.error _))
  · exact firm_finish (fun _ => steady_members h true empty) closes_closeObject
  · exact firm_finish (fun _ => steady_elements h (List.Subset.refl _) 0 true empty)
      closes_closeList

theorem read_skipSpace (empty : δ) (bs : Bytes) :
    s.read empty bs = s.read empty (skipSpace bs) := by
  simp only [Shape.read, skipSpace_skipSpace]

theorem firm_read (h : s.Steady) (empty : δ) : Firm (s.read empty) :=
  .spaced rfl (read_skipSpace empty) fun _ => firm_read_cons h empty

theorem takes_read (h : s.Steady) (empty : δ) : Takes (s.read empty) :=
  .spaced rfl (read_skipSpace empty) fun m _ shown => (firm_read_cons h empty shown).steady m

end Records

section Lists

variable {read : Bytes → Scanned α}

def itemTurn (read : Bytes → Scanned α) (state : Bool × List α) (bs : Bytes) :
    Except Fault (Turn (Bool × List α) (List α) × Bytes) :=
  (nextElement state.1 bs).bind fun (found, rest) =>
    if found then (read rest).map fun (value, rest) => (.again (false, value :: state.2), rest)
    else .ok (.done state.2.reverse, rest)

theorem itemsFrom_turn (fuel : Nat) (state : Bool × List α) (bs : Bytes) :
    itemsFrom read (fuel + 1) state.1 state.2 bs =
      (itemTurn read state bs).bind (Turn.next fun state =>
        itemsFrom read fuel state.1 state.2) := by
  rw [itemsFrom, itemTurn]
  rcases nextElement state.1 bs with fault | ⟨_ | _, rest⟩
  · rfl
  · rfl
  · simp only [bind, Except.bind, if_true]
    rcases read rest with fault | ⟨value, rest⟩ <;> rfl

theorem steady_itemTurn (h : Takes read) (state : Bool × List α) : Steady n (itemTurn read state) :=
  .bind (steady_nextElement state.1) fun _ =>
    .ite ((h.steady n).map fun value =>
      Turn.again (false, value :: state.2)) (.ok (Turn.done state.2.reverse))

theorem length_lt_of_itemTurn (h : Takes read) {state next : Bool × List α} {bs rest : Bytes}
    (found : itemTurn read state bs = .ok (.again next, rest)) : rest.length < bs.length := by
  obtain ⟨⟨more, middle⟩, first, found⟩ := bind_eq_ok.mp found
  have less := (steady_nextElement state.1).shrinks (Nat.le_refl _) first
  cases more with
  | false => cases found
  | true =>
    obtain ⟨⟨value, behind⟩, item, eq⟩ := map_eq_ok.mp found
    cases eq
    exact Nat.lt_of_lt_of_le (h.shorter item) less

theorem turns_items (h : Takes read) : Turns (itemTurn read) fun fuel state =>
    itemsFrom read fuel state.1 state.2 where
  unfold := itemsFrom_turn
  steady _ := steady_itemTurn h
  takes := length_lt_of_itemTurn h

theorem steady_items (h : Takes read) :
    Steady n fun bs => itemsFrom read (bs.length + 1) true [] bs :=
  (turns_items h).steady_loop (true, [])

theorem firm_list (h : Takes read) : Firm (list read) := by
  refine .spaced rfl (fun bs => by simp only [list, skipSpace_skipSpace]) fun b shown => ?_
  simp only [list, skipSpace_cons shown]
  exact .ite (firm_finish (fun _ => .mapError (steady_items h) _) closes_closeList) (.error _)

theorem Takes.exists_error (h : Takes read) : ∃ e, read [] = .error e := by
  cases found : read [] with
  | error e => exact ⟨e, rfl⟩
  | ok taken => exact absurd (h.shorter found) (Nat.not_lt_zero _)

theorem steady_optional (h : Takes read) : Steady n (optional read) := by
  obtain ⟨e, atEnd⟩ := h.exists_error
  refine .spacedHead (fun b bs =>
      if b = octet 'n' then (literal (ascii "ull") (bs.drop 1)).map (Option.none, ·)
      else (read bs).map fun (value, rest) => (some value, rest))
    (by simp only [optional, skipSpace, List.dropWhile_nil, atEnd]; rfl)
    (fun bs => by simp only [optional, skipSpace_skipSpace]) (fun b bs shown => ?_) fun b => ?_
  · rw [optional, skipSpace_cons shown]
    rfl
  · exact .ite (.behind fun _ => .label (steady_literal _) Option.none) ((h.steady n).map some)

end Lists

section Texts

variable {read : Bytes → Scanned α} {bs : Bytes} {v w : α}

theorem parse_eq_ok :
    parse read bs = .ok v ↔ ∃ rest, read bs = .ok (v, rest) ∧ skipSpace rest = [] := by
  rw [parse]
  rcases read bs with fault | ⟨w, rest⟩
  · simp
  · cases shown : skipSpace rest with
    | nil => simp [shown]
    | cons b tail => simp [shown]

theorem parse_append (h : Firm read) {more : Bytes} (front : parse read bs = .ok v)
    (whole : parse read (bs ++ more) = .ok w) :
    w = v := by
  obtain ⟨rest, read, -⟩ := parse_eq_ok.mp front
  obtain ⟨_, again, -⟩ := parse_eq_ok.mp whole
  rw [h.grows read more] at again
  exact (Prod.mk.inj (Except.ok.inj again)).1.symm

end Texts

end Stowage.Json
