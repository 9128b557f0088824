import Stowage.Json.Scan
import Stowage.Proofs.Json.Scan
import Stowage.Proofs.Outcome

/-! Reading a text that goes on behind its end: what is taken off a text is taken off every longer
one, unless the reader came to the end and may have wanted more. -/
namespace Stowage.Json

variable {ε ε' α β : Type} {m n : Nat}

/-- Takes octets off the front of texts of some length at most, and the same ones if more octets
follow, as long as some are left. -/
structure Steady (n : Nat) (read : Bytes → Except ε (α × Bytes)) : Prop where
  shrinks {bs : Bytes} {v : α} {rest : Bytes} : bs.length ≤ n → read bs = .ok (v, rest) →
    rest.length ≤ bs.length
  grows {bs : Bytes} {v : α} {rest : Bytes} : bs.length ≤ n → read bs = .ok (v, rest) → rest ≠ [] →
    ∀ more,
    read (bs ++ more) = .ok (v, rest ++ more)

def passing (read : Bytes → Except ε Bytes) (bs : Bytes) : Except ε (Unit × Bytes) :=
  (read bs).map ((), ·)

theorem passing_eq_ok {read : Bytes → Except ε Bytes} {bs rest : Bytes} :
    passing read bs = .ok ((), rest) ↔ read bs = .ok rest := by
  rw [passing, map_eq_ok]
  simp

theorem passing_ite {c : Bytes → Prop} [∀ bs, Decidable (c bs)] {f g : Bytes → Except ε Bytes} :
    passing (fun bs => if c bs then f bs else g bs) = fun bs => if c bs then passing f bs
      else passing g bs := by
  funext bs
  exact apply_ite (Except.map ((), ·)) (c bs) (f bs) (g bs)

theorem passing_bind {f g : Bytes → Except ε Bytes} :
    passing (fun bs => (f bs).bind g) = fun bs => (f bs).bind (passing g) := by
  funext bs
  simp only [passing]
  cases f bs <;> rfl

namespace Steady

variable {read next : Bytes → Except ε (α × Bytes)} {pass : Bytes → Except ε Bytes}

theorem empty (h : Steady n read) {v : α} {rest : Bytes} (found : read [] = .ok (v, rest)) :
    rest = [] := by
  have start : ([] : Bytes).length ≤ n := Nat.zero_le n
  exact List.eq_nil_of_length_eq_zero (Nat.le_zero.mp (h.shrinks start found))

theorem ok (v : α) : Steady n fun bs => (.ok (v, bs) : Except ε (α × Bytes)) where
  shrinks _ h := by cases h; exact Nat.le_refl _
  grows _ h _ _ := by cases h; rfl

theorem error (e : Bytes → ε) : Steady n fun bs => (.error (e bs) : Except ε (α × Bytes)) where
  shrinks _ := nofun
  grows _ := nofun

theorem ite {c : Prop} [Decidable c] (h : Steady n read) (k : Steady n next) :
    Steady n fun bs => if c then read bs else next bs := by
  by_cases holds : c
  · simpa only [if_pos holds] using h
  · simpa only [if_neg holds] using k

theorem bind {step : α × Bytes → Except ε (β × Bytes)} (h : Steady n read)
    (k : ∀ v, Steady n fun rest => step (v, rest)) :
    Steady n fun bs => (read bs).bind step where
  shrinks bound found := by
    obtain ⟨⟨v, middle⟩, first, second⟩ := bind_eq_ok.mp found
    have less := h.shrinks bound first
    exact Nat.le_trans ((k v).shrinks (Nat.le_trans less bound) second) less
  grows bound found nonempty more := by
    obtain ⟨⟨v, middle⟩, first, second⟩ := bind_eq_ok.mp found
    -- What follows leaves nothing of an empty text, and something is left in the end.
    have left : middle ≠ [] := by
      rintro rfl
      exact nonempty ((k v).empty second)
    have less := Nat.le_trans (h.shrinks bound first) bound
    exact bind_eq_ok.mpr ⟨_, h.grows bound first left more, (k v).grows less second nonempty more⟩

theorem map (h : Steady n read) (f : α → β) : Steady n fun bs => (read bs).map fun (v, rest) =>
    (f v, rest) where
  shrinks bound found := by
    obtain ⟨_, first, eq⟩ := map_eq_ok.mp found
    cases eq
    exact h.shrinks bound first
  grows bound found nonempty more := by
    obtain ⟨_, first, eq⟩ := map_eq_ok.mp found
    cases eq
    exact map_eq_ok.mpr ⟨_, h.grows bound first nonempty more, rfl⟩

theorem mapError (h : Steady n read) (f : ε → ε') : Steady n fun bs => (read bs).mapError f where
  shrinks bound found := h.shrinks bound (mapError_eq_ok.mp found)
  grows bound found nonempty more :=
    mapError_eq_ok.mpr (h.grows bound (mapError_eq_ok.mp found) nonempty more)

theorem label (h : Steady n (passing pass)) (v : α) : Steady n fun bs => (pass bs).map (v, ·) := by
  have same (bs : Bytes) : (pass bs).map (v, ·) = (passing pass bs).map fun (_, rest) =>
      (v, rest) := by
    rw [passing]
    cases pass bs <;> rfl
  simpa only [same] using h.map fun _ => v

theorem andThen (h : Steady n (passing pass)) (k : Steady n read) :
    Steady n fun bs => (pass bs).bind read := by
  have same (bs : Bytes) : (pass bs).bind read = (passing pass bs).bind fun (_, rest) =>
      read rest := by
    rw [passing]
    cases pass bs <;> rfl
  simpa only [same] using h.bind fun _ => k

theorem cut {γ : Type} {cut : Bytes → γ × Bytes} (read : γ → Nat → Bytes → Except ε (α × Bytes))
    (shorter : ∀ bs, (cut bs).2.length ≤ bs.length)
    (longer : ∀ bs more, (cut bs).2 ≠ [] → cut (bs ++ more) = ((cut bs).1, (cut bs).2 ++ more))
    (h : ∀ v count, Steady n (read v count)) :
    Steady n fun bs => read (cut bs).1 (bs.length - (cut bs).2.length) (cut bs).2 where
  shrinks bound found :=
    Nat.le_trans ((h _ _).shrinks (Nat.le_trans (shorter _) bound) found) (shorter _)
  grows {bs v rest} bound found nonempty more := by
    have left : (cut bs).2 ≠ [] := by
      intro empty
      rw [empty] at found
      exact nonempty ((h _ _).empty found)
    have less := shorter bs
    have same : (bs ++ more).length - ((cut bs).2 ++ more).length =
        bs.length - (cut bs).2.length := by
      rw [List.length_append, List.length_append]
      omega
    simp only [longer bs more left, same]
    exact (h _ _).grows (Nat.le_trans less bound) found nonempty more

theorem dropWhile (read : Nat → Bytes → Except ε (α × Bytes)) (h : ∀ count, Steady n (read count))
    (p : UInt8 → Bool) :
    Steady n fun bs => read (bs.length - (bs.dropWhile p).length) (bs.dropWhile p) := by
  refine cut (fun _ => read) (fun bs => (?_ : ((), bs.dropWhile p).2.length ≤ bs.length)) ?_
    fun _ => h
  · exact (List.dropWhile_suffix p).length_le
  · intro bs more left
    simp only [List.dropWhile_append, List.isEmpty_iff, if_neg left]

theorem byHead (each : UInt8 → Bytes → Except ε (α × Bytes))
    (atEnd : ∀ v rest, read [] = .ok (v, rest) → rest = [])
    (same : ∀ b bs, read (b :: bs) = each b (b :: bs)) (h : ∀ b, Steady n (each b)) :
    Steady n read where
  shrinks {bs v rest} bound found := by
    cases bs with
    | nil => exact Nat.le_of_eq (congrArg List.length (atEnd v rest found))
    | cons b bs =>
      rw [same] at found
      exact (h b).shrinks bound found
  grows {bs v rest} bound found nonempty more := by
    cases bs with
    | nil => exact absurd (atEnd v rest found) nonempty
    | cons b bs =>
      rw [same] at found
      rw [List.cons_append, same]
      exact (h b).grows bound found nonempty more

theorem drop_one (atEnd : ∀ v rest, read [] = .ok (v, rest) → rest = [])
    (h : ∀ m < n, Steady m read) :
    Steady n fun bs => read (bs.drop 1) where
  shrinks {bs v rest} bound found := by
    cases bs with
    | nil => exact Nat.le_of_eq (congrArg List.length (atEnd v rest found))
    | cons b bs => exact Nat.le_succ_of_le ((h bs.length bound).shrinks (Nat.le_refl _) found)
  grows {bs v rest} bound found nonempty more := by
    cases bs with
    | nil => exact absurd (atEnd v rest found) nonempty
    | cons b bs => exact (h bs.length bound).grows (Nat.le_refl _) found nonempty more

theorem behind (h : ∀ m, Steady m read) : Steady n fun bs => read (bs.drop 1) :=
  drop_one (fun _ _ => (h 0).empty) fun m _ => h m

theorem uncons {e : ε} (atEnd : read [] = .error e)
    (h : ∀ m < n, ∀ b, Steady m fun bs => read (b :: bs)) :
    Steady n read where
  shrinks {bs v rest} bound found := by
    cases bs with
    | nil =>
      rw [atEnd] at found
      cases found
    | cons b bs => exact Nat.le_succ_of_le ((h bs.length bound b).shrinks (Nat.le_refl _) found)
  grows {bs v rest} bound found nonempty more := by
    cases bs with
    | nil =>
      rw [atEnd] at found
      cases found
    | cons b bs => exact (h bs.length bound b).grows (Nat.le_refl _) found nonempty more

theorem head (test : Option UInt8 → Bool) (h : Steady n read) (k : Steady n next) :
    Steady n fun bs => if test bs.head? then read bs else next bs := by
  refine byHead (fun b bs => if test (some b) then read bs else next bs) ?_ (fun b bs =>
    rfl) fun b => h.ite k
  intro v rest found
  split at found
  · exact h.empty found
  · exact k.empty found

theorem digit (h : Steady n read) (k : Steady n next) :
    Steady n fun bs => if startsDigit bs then read bs else next bs :=
  head (fun b => (b.map isDigitOctet).getD false) h k

theorem point (h : Steady n read) (k : Steady n next) :
    Steady n fun bs => if isPoint bs then read bs else next bs :=
  head (· == some (octet '.')) h k

theorem mark (h : Steady n read) (k : Steady n next) : Steady n fun bs => if isExponentMark bs
    then read bs else next bs :=
  head (fun b => b == some (octet 'e') || b == some (octet 'E')) h k

theorem sign (read : Option UInt8 → Bytes → Except ε (α × Bytes)) (test : Option UInt8 → Bool)
    (h : ∀ b m, Steady m (read b)) :
    Steady n fun bs => read bs.head? (if test bs.head? then bs.drop 1 else bs) := by
  refine byHead (fun b bs => read (some b) (if test (some b) then bs.drop 1 else bs)) ?_
    (fun b bs => rfl) fun b => ?_
  · intro v rest found
    rw [List.drop_nil, ite_self] at found
    exact (h none 0).empty found
  · cases test (some b) with
    | true => exact behind (h (some b))
    | false => exact h (some b) n

theorem passed : Steady n (passing (.ok : Bytes → Except ε Bytes)) := ok ()

theorem refused (e : Bytes → ε) : Steady n (passing fun bs => (.error (e bs) : Except ε Bytes)) :=
  error e

end Steady

section Loops

inductive Turn (σ α : Type)
  | done (value : α)
  | again (state : σ)

variable {σ : Type} {turn : σ → Bytes → Except ε (Turn σ α × Bytes)}
    {loop : Nat → σ → Bytes → Except ε (α × Bytes)}

def Turn.next (loop : σ → Bytes → Except ε (α × Bytes)) : Turn σ α × Bytes → Except ε (α × Bytes)
  | (.done v, rest) => .ok (v, rest)
  | (.again state, rest) => loop state rest

/-- A loop whose turns are steady, and take something unless they are the last one, so that the
octets bound their number. -/
structure Turns (turn : σ → Bytes → Except ε (Turn σ α × Bytes))
    (loop : Nat → σ → Bytes → Except ε (α × Bytes)) : Prop where
  unfold (fuel : Nat) (state : σ) (bs : Bytes) :
    loop (fuel + 1) state bs = (turn state bs).bind (Turn.next (loop fuel))
  steady (n : Nat) (state : σ) : Steady n (turn state)
  takes {state next : σ} {bs rest : Bytes} : turn state bs = .ok (.again next, rest) →
    rest.length < bs.length

variable {fuel fuel' : Nat} {state : σ} {bs rest : Bytes} {v : α}

theorem Turns.shrinks (h : Turns turn loop) (bound : bs.length < fuel)
    (found : loop fuel state bs = .ok (v, rest)) :
    rest.length ≤ bs.length := by
  induction fuel generalizing state bs with
  | zero => exact absurd bound (Nat.not_lt_zero _)
  | succ fuel ih =>
    rw [h.unfold] at found
    obtain ⟨⟨last | next, middle⟩, first, found⟩ := bind_eq_ok.mp found
    · cases found
      exact (h.steady _ state).shrinks (Nat.le_refl _) first
    · have less := h.takes first
      exact Nat.le_trans (ih (by omega) found) (Nat.le_of_lt less)

theorem Turns.grows (h : Turns turn loop) (bound : bs.length < fuel)
    (found : loop fuel state bs = .ok (v, rest)) (nonempty : rest ≠ []) (more : Bytes)
    (bound' : bs.length + more.length < fuel') :
    loop fuel' state (bs ++ more) = .ok (v, rest ++ more) := by
  induction fuel generalizing state bs fuel' with
  | zero => exact absurd bound (Nat.not_lt_zero _)
  | succ fuel ih =>
    rw [h.unfold] at found
    -- The longer text may take more turns, but takes the same ones until the shorter one is done.
    obtain ⟨fuel', rfl⟩ := Nat.exists_eq_add_one_of_ne_zero (Nat.ne_zero_of_lt bound')
    rw [h.unfold]
    obtain ⟨⟨last | next, middle⟩, first, found⟩ := bind_eq_ok.mp found
    · cases found
      rw [(h.steady _ state).grows (Nat.le_refl _) first nonempty more]
      rfl
    · have less := h.takes first
      have shorter := h.shrinks (by omega) found
      have left : middle ≠ [] := by
        rintro rfl
        exact nonempty (List.eq_nil_of_length_eq_zero (Nat.le_zero.mp shorter))
      rw [(h.steady _ state).grows (Nat.le_refl _) first left more]
      exact ih (by omega) found (by omega)

theorem Turns.steady_loop (h : Turns turn loop) (state : σ) :
    Steady n fun bs => loop (bs.length + 1) state bs where
  shrinks _ found := h.shrinks (Nat.lt_succ_self _) found
  grows _ found nonempty more :=
    h.grows (Nat.lt_succ_self _) found nonempty more (by rw [List.length_append]; omega)

end Loops

section Space

theorem skipSpace_eq_cons {bs rest : Bytes} {b : UInt8} (h : skipSpace bs = b :: rest) :
    isSpace b = false ∧ rest.length < bs.length ∧
    ∀ more, skipSpace (bs ++ more) = b :: (rest ++ more) := by
  unfold skipSpace at h ⊢
  refine ⟨?_, ?_, fun more => ?_⟩
  · have first := List.head_dropWhile_not isSpace (by rw [h]; exact List.cons_ne_nil b rest)
    simpa only [h, List.head_cons] using first
  · have less := (List.dropWhile_suffix (l := bs) isSpace).length_le
    rwa [h] at less
  · rw [List.dropWhile_append, h]
    rfl

variable {read : Bytes → Except ε (α × Bytes)} {e : ε}

theorem exists_of_spaced (atEnd : read [] = .error e) (skip : ∀ bs, read bs = read (skipSpace bs))
    {bs rest : Bytes} {v : α} (found : read bs = .ok (v, rest)) :
    ∃ b tail, isSpace b = false ∧ tail.length < bs.length ∧ read (b :: tail) = .ok (v, rest) ∧
      ∀ more, read (bs ++ more) = read (b :: (tail ++ more)) := by
  rw [skip] at found
  cases shown : skipSpace bs with
  | nil =>
    rw [shown, atEnd] at found
    cases found
  | cons b tail =>
    obtain ⟨solid, less, whole⟩ := skipSpace_eq_cons shown
    exact ⟨b, tail, solid, less, shown ▸ found, fun more =>
      (skip _).trans (congrArg read (whole more))⟩

theorem Steady.spacedHead (each : UInt8 → Bytes → Except ε (α × Bytes)) (atEnd : read [] = .error e)
    (skip : ∀ bs, read bs = read (skipSpace bs))
    (same : ∀ b bs, isSpace b = false → read (b :: bs) = each b (b :: bs))
    (h : ∀ b, Steady n (each b)) : Steady n read where
  shrinks bound found := by
    obtain ⟨b, tail, solid, less, found, -⟩ := exists_of_spaced atEnd skip found
    have whole : (b :: tail).length ≤ _ := less
    exact Nat.le_trans ((h b).shrinks (Nat.le_trans whole bound) (same b tail solid ▸ found)) whole
  grows bound found nonempty more := by
    obtain ⟨b, tail, solid, less, found, whole⟩ := exists_of_spaced atEnd skip found
    rw [whole, same b _ solid]
    exact (h b).grows (Nat.le_trans less bound) (same b tail solid ▸ found) nonempty more

structure Takes (read : Bytes → Except ε (α × Bytes)) : Prop where
  steady (n : Nat) : Steady n read
  shorter {bs : Bytes} {v : α} {rest : Bytes} : read bs = .ok (v, rest) → rest.length < bs.length

theorem Takes.spaced (atEnd : read [] = .error e) (skip : ∀ bs, read bs = read (skipSpace bs))
    (h : ∀ m b, isSpace b = false → Steady m fun bs => read (b :: bs)) : Takes read := by
  have shorter {bs : Bytes} {v : α} {rest : Bytes} (found : read bs = .ok (v, rest)) :
      rest.length < bs.length := by
    obtain ⟨b, tail, solid, less, found, -⟩ := exists_of_spaced atEnd skip found
    exact Nat.lt_of_le_of_lt ((h _ b solid).shrinks (Nat.le_refl _) found) less
  refine ⟨fun n => ⟨fun _ found => Nat.le_of_lt (shorter found), fun bound found nonempty more =>
    ?_⟩, shorter⟩
  obtain ⟨b, tail, solid, less, found, whole⟩ := exists_of_spaced atEnd skip found
  rw [whole]
  exact (h _ b solid).grows (Nat.le_refl _) found nonempty more

theorem Takes.map (h : Takes read) (f : α → β) : Takes fun bs => (read bs).map fun (v, rest) =>
    (f v, rest) where
  steady n := (h.steady n).map f
  shorter found := by
    obtain ⟨_, first, eq⟩ := map_eq_ok.mp found
    cases eq
    exact h.shorter first

end Space

end Stowage.Json
