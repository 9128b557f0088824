import Stowage.Json.Record
import Stowage.Proofs.Json.Steady

/-! The scanners of strings, numbers and values that are passed over are steady: each stops where it
sees that it must. -/
namespace Stowage.Json

variable {α : Type} {n : Nat}

theorem literal_eq_ok {word bs rest : Bytes} : literal word bs = .ok rest ↔ bs = word ++ rest := by
  induction word generalizing bs with
  | nil => simp [literal]
  | cons w word ih =>
    cases bs with
    | nil => simp [literal]
    | cons b bs =>
      rw [literal]
      split <;> simp_all [eq_comm]

theorem steady_literal (word : Bytes) : Steady n (passing (literal word)) where
  shrinks _ found := by
    rw [literal_eq_ok.mp (passing_eq_ok.mp found), List.length_append]
    exact Nat.le_add_left ..
  grows _ found _ more := by
    rw [literal_eq_ok.mp (passing_eq_ok.mp found), List.append_assoc]
    exact passing_eq_ok.mpr (literal_eq_ok.mpr rfl)

section Strings

theorem steady_stringOctets (mode : Mode) (done : Bytes) : Steady n (stringOctets mode done) := by
  induction n using Nat.strongRecOn generalizing mode done with
  | ind n ih =>
    refine .uncons rfl fun m less b => ?_
    cases mode with
    | plain =>
      simp only [stringOctets]
      exact .ite (.ok _) (.ite (ih m less _ _) (.ite (.error _) (ih m less _ _)))
    | escape =>
      simp only [stringOctets]
      refine .ite (ih m less _ _) ?_
      cases simpleEscape? b with
      | none => exact .error _
      | some e => exact ih m less _ _
    | digits left value lead =>
      cases left with
      | zero =>
        simp only [stringOctets]
        cases value.bind fun v => (hexOf? b).map (v * 16 + ·) with
        | none => exact .error _
        | some k =>
          cases lead with
          | none => exact .ite (.error _) (.ite (ih m less _ _) (ih m less _ _))
          | some first => exact .ite (ih m less _ _) (.error _)
      | succ left => exact ih m less _ _
    | backslash lead =>
      simp only [stringOctets]
      exact .ite (ih m less _ _) (.error _)
    | letter lead =>
      simp only [stringOctets]
      exact .ite (ih m less _ _) (.error _)

theorem string_eq_ok {bs rest : Bytes} {cs : List Char} :
    string bs = .ok (cs, rest) ↔
      ∃ octets, stringOctets .plain [] bs = .ok (octets, rest) ∧ Utf8.decode? octets = some cs := by
  rw [string]
  rcases stringOctets .plain [] bs with f | ⟨octets, behind⟩
  · simp
  · cases decoded : Utf8.decode? octets with
    | none => simp [decoded]
    | some ds => simp [decoded, and_comm]

theorem steady_string : Steady n string where
  shrinks bound found := by
    obtain ⟨octets, taken, -⟩ := string_eq_ok.mp found
    exact (steady_stringOctets .plain []).shrinks bound taken
  grows bound found nonempty more := by
    obtain ⟨octets, taken, decoded⟩ := string_eq_ok.mp found
    exact string_eq_ok.mpr ⟨octets, (steady_stringOctets .plain []).grows bound taken nonempty more,
      decoded⟩

theorem takes_text : Takes text := by
  refine .spaced rfl (fun bs => by simp only [text, skipSpace_skipSpace]) fun m b shown => ?_
  simp only [text, skipSpace_cons shown]
  exact .ite (steady_string.map _) (.error _)

end Strings

section Numbers

variable {negative : Bool} {value : Nat} {start : Int}

theorem steady_float : Steady n (float negative value start) := by
  unfold float
  cases Binary64.ofParts value start with
  | none => exact .error _
  | some x => exact .ok _

theorem float_nil {v : Found} {rest : Bytes}
    (found : float negative value start [] = .ok (v, rest)) : rest = [] :=
  (steady_float (n := 0)).empty found

theorem steady_exponentDigits {down : Bool} {exponent : Nat} :
    Steady n (exponentDigits negative value start down exponent) := by
  induction n using Nat.strongRecOn generalizing exponent with
  | ind n ih =>
    refine .byHead (fun b bs =>
      if isDigitOctet b then
        if exponent * 10 + (b.toNat - 0x30) ≤ exponentLimit then
          exponentDigits negative value start down (exponent * 10 + (b.toNat - 0x30)) (bs.drop 1)
        else if value ≠ 0 && !down then .error (.stopped .numberOutOfRange (bs.drop 1))
        else .ok (.float negative .zero, (bs.drop 1).dropWhile isDigitOctet)
      else float negative value (if down then start - exponent else start + exponent) bs)
      (fun v rest => float_nil) (fun b bs => rfl) fun b => ?_
    -- An exponent beyond the limit leaves zero or a fault, and the digits that are left are passed
    -- over.
    have zero : Steady n fun bs =>
        (.ok (Found.float negative .zero, (bs.drop 1).dropWhile isDigitOctet) : Scanned Found) :=
      .behind fun m => .dropWhile (fun _ rest => .ok (_, rest)) (fun _ => .ok _) isDigitOctet
    exact .ite (.ite (.drop_one (fun v rest => float_nil) fun m less => ih m less)
      (.ite (.error _) zero)) steady_float

def unsignedExponent (negative : Bool) (value : Nat) (start : Int) (down : Bool) :
    Bytes → Scanned Found
  | [] => .error (.stopped .endOfValue [])
  | b :: bs =>
    if isDigitOctet b then exponentDigits negative value start down (b.toNat - 0x30) bs
    else .error (.stopped .invalidNumber bs)

theorem steady_unsignedExponent {down : Bool} :
    Steady n (unsignedExponent negative value start down) :=
  .uncons rfl fun _ _ _ => .ite steady_exponentDigits (.error _)

theorem steady_exponent : Steady n (exponent negative value start) :=
  .sign (fun b => unsignedExponent negative value start (b == some (octet '-')))
    (fun b => b == some (octet '-') || b == some (octet '+')) fun _ _ => steady_unsignedExponent

theorem steady_exponentOrEnd : Steady n (exponentOrEnd negative value start) :=
  .mark (.behind fun _ => steady_exponent) steady_float

theorem length_significand_le (value : Nat) (bs : Bytes) :
    (significand value bs).2.length ≤ bs.length := by
  induction bs generalizing value with
  | nil => exact Nat.le_refl 0
  | cons b bs ih =>
    rw [significand]
    split
    · exact Nat.le_succ_of_le (ih _)
    · exact Nat.le_refl _

theorem significand_append {bs : Bytes} (nonempty : (significand value bs).2 ≠ []) (more : Bytes) :
    significand value (bs ++ more) = ((significand value bs).1,
      (significand value bs).2 ++ more) := by
  induction bs generalizing value with
  | nil => exact absurd rfl nonempty
  | cons b bs ih =>
    rw [significand] at nonempty
    rw [List.cons_append, significand, significand]
    split at nonempty
    · rename_i fits
      rw [if_pos fits, if_pos fits]
      exact ih nonempty
    · rename_i big
      rw [if_neg big, if_neg big]
      rfl

theorem Steady.significand (read : Nat → Nat → Bytes → Except ε (α × Bytes))
    (h : ∀ v count, Steady n (read v count)) :
    Steady n fun bs =>
      read (Json.significand value bs).1 (bs.length - (Json.significand value bs).2.length)
        (Json.significand value bs).2 :=
  .cut read (length_significand_le value) (fun _ more left => significand_append left more) h

theorem steady_fraction : Steady n (fraction negative value start) :=
  .significand (fun more taken rest =>
      if startsDigit rest
        then exponentOrEnd negative more (start - taken) (rest.dropWhile isDigitOctet)
      else if taken = 0
        then .error (.ahead (if rest.isEmpty then .endOfValue else .invalidNumber) rest)
      else exponentOrEnd negative more (start - taken) rest)
    fun _ _ => .digit (.dropWhile (fun _ => exponentOrEnd _ _ _) (fun _ => steady_exponentOrEnd) _)
      (.ite (.error _) steady_exponentOrEnd)

theorem steady_afterInteger : Steady n (afterInteger negative value) :=
  .point (.behind fun _ => steady_fraction)
    (.mark (.behind fun _ => steady_exponent) (.ite (.ok _) (.ite steady_float (.ok _))))

theorem significand_cons {b : UInt8} (digit : isDigitOctet b) (bs : Bytes) :
    significand 0 (b :: bs) = significand (b.toNat - 0x30) bs := by
  have small : b.toNat - 0x30 < wordLimit :=
    Nat.lt_of_le_of_lt (Nat.sub_le ..) (Nat.lt_trans b.toNat_lt (by decide))
  rw [significand, digit]
  simp only [Nat.zero_mul, Nat.zero_add, small, decide_true, Bool.and_self, if_true]

theorem steady_number_cons (b : UInt8) : Steady n fun bs => number negative (b :: bs) := by
  simp only [number]
  refine .ite (.digit (.error _) steady_afterInteger) ?_
  by_cases digit : isDigitOctet b
  · simp only [digit, if_true, significand_cons digit]
    -- The digits behind those that a word can hold are only counted.
    have long (v : Nat) : Steady n fun rest =>
        let tail := rest.dropWhile isDigitOctet
        let dropped := rest.length - tail.length
        if isPoint tail then fraction negative v dropped (tail.drop 1)
          else exponentOrEnd negative v dropped tail :=
      .dropWhile (fun dropped tail =>
          if isPoint tail then fraction negative v dropped (tail.drop 1)
            else exponentOrEnd negative v dropped tail)
        (fun _ => .point (.behind fun _ => steady_fraction) steady_exponentOrEnd) _
    exact .significand (fun v _ rest => if startsDigit rest then _
      else afterInteger negative v rest)
      fun v _ => .digit (long v) steady_afterInteger
  · simp only [digit, Bool.false_eq_true, if_false]
    exact .error _

theorem steady_number : Steady n (number negative) :=
  .uncons rfl fun _ _ b => steady_number_cons b

theorem takes_port : Takes port := by
  refine .spaced rfl (fun bs => by simp only [port, skipSpace_skipSpace]) fun m b shown => ?_
  simp only [port, skipSpace_cons shown]
  refine .ite (.error _) (.ite (.bind steady_number fun v =>
    ?_) (.bind (steady_number_cons b) fun v => ?_))
  · cases v with
    | integer value => exact .ite (.ok _) (.error _)
    | _ => exact .error _
  · cases v with
    | integer value => exact .ite (.ok _) (.error _)
    | _ => exact .error _

end Numbers

section Skipping

variable {frame : Frame} {frames : List Frame}

theorem steady_skipString (mode : SkipMode) : Steady n (passing (skipString mode)) := by
  induction n using Nat.strongRecOn generalizing mode with
  | ind n ih =>
    refine .uncons (e := .stopped .endOfString []) rfl fun m less b => ?_
    change Steady m (passing fun bs => skipString mode (b :: bs))
    cases mode with
    | plain =>
      simp only [skipString, passing_ite]
      exact .ite .passed (.ite (ih m less _) (.ite (.refused _) (ih m less _)))
    | escape =>
      simp only [skipString, passing_ite]
      exact .ite (ih m less _) (.ite (ih m less _) (.refused _))
    | digits left valid =>
      cases left with
      | zero =>
        simp only [skipString, passing_ite]
        exact .ite (ih m less _) (.refused _)
      | succ left => exact ih m less _

theorem steady_skipDigits :
    Steady n (passing fun bs => (.ok (bs.dropWhile isDigitOctet) : Except Fault Bytes)) :=
  .dropWhile (fun _ => passing .ok) (fun _ => .passed) _

theorem steady_skipExponent : Steady n (passing skipExponent) := by
  have digits (m : Nat) : Steady m (passing fun bs =>
      if startsDigit bs then .ok (bs.dropWhile isDigitOctet)
        else .error (Fault.stopped .invalidNumber (bs.drop 1))) := by
    rw [passing_ite]
    exact .digit steady_skipDigits (.refused _)
  exact .sign (fun _ => _) (fun b => b == some (octet '+') || b == some (octet '-')) fun _ => digits

theorem steady_skipFraction : Steady n (passing skipFraction) := by
  have behind : Steady n (passing fun rest => if isExponentMark rest then skipExponent (rest.drop 1)
      else .ok rest) := by
    rw [passing_ite]
    exact .mark (.behind fun _ => steady_skipExponent) .passed
  have digits : Steady n (passing fun bs =>
      if !startsDigit bs then .error (.ahead .invalidNumber (bs.dropWhile isDigitOctet))
      else if isExponentMark (bs.dropWhile isDigitOctet)
        then skipExponent ((bs.dropWhile isDigitOctet).drop 1)
      else .ok (bs.dropWhile isDigitOctet)) := by
    rw [passing_ite]
    exact .head (fun b => !(b.map isDigitOctet).getD false) (.refused _)
      (.dropWhile (fun _ => passing fun rest => if isExponentMark rest
        then skipExponent (rest.drop 1) else .ok rest) (fun _ => behind) _)
  exact digits

def skipNumberEnd (rest : Bytes) : Except Fault Bytes :=
  if isPoint rest then skipFraction (rest.drop 1)
  else if isExponentMark rest then skipExponent (rest.drop 1)
  else .ok rest

theorem steady_skipNumberEnd : Steady n (passing skipNumberEnd) := by
  unfold skipNumberEnd
  simp only [passing_ite]
  exact .point (.behind fun _ => steady_skipFraction)
    (.mark (.behind fun _ => steady_skipExponent) .passed)

theorem skipNumber_cons (b : UInt8) (bs : Bytes) :
    skipNumber (b :: bs) =
      if b = octet '0' then if startsDigit bs then .error (.ahead .invalidNumber bs)
        else skipNumberEnd bs
      else if isDigitOctet b then skipNumberEnd (bs.dropWhile isDigitOctet)
      else .error (.stopped .invalidNumber bs) := rfl

theorem steady_skipNumber_cons (b : UInt8) : Steady n (passing fun bs => skipNumber (b :: bs)) := by
  simp only [skipNumber_cons, passing_ite]
  exact .ite (.digit (.refused _) steady_skipNumberEnd)
    (.ite (.dropWhile (fun _ => passing skipNumberEnd) (fun _ => steady_skipNumberEnd) _)
      (.refused _))

theorem steady_skipNumber : Steady n (passing skipNumber) :=
  .uncons (e := .stopped .invalidNumber []) rfl fun _ _ b => steady_skipNumber_cons b

theorem takes_colon : Takes (passing colon) := by
  refine .spaced rfl (fun bs => by simp only [passing, colon, skipSpace_skipSpace]) fun m b shown =>
    ?_
  change Steady m (passing fun bs => colon (b :: bs))
  simp only [colon, skipSpace_cons shown, passing_ite]
  exact .ite .passed (.refused _)

theorem skipKey_cons {b : UInt8} (shown : isSpace b = false) (bs : Bytes) :
    skipKey .object (b :: bs) =
      if b ≠ octet '"' then .error (.ahead .keyNotString (b :: bs))
        else (skipString .plain bs).bind colon := by
  rw [skipKey, skipSpace_cons shown]
  rfl

theorem steady_skipKey : Steady n (passing (skipKey frame)) := by
  cases frame with
  | list => exact .passed
  | object =>
    suffices Takes (passing (skipKey .object)) from this.steady n
    refine .spaced rfl (fun bs => by simp only [passing, skipKey, skipSpace_skipSpace])
      fun m b shown => ?_
    change Steady m (passing fun bs => skipKey .object (b :: bs))
    simp only [skipKey_cons shown, passing_ite, passing_bind]
    exact .ite (.refused _) (.andThen (steady_skipString .plain) (takes_colon.steady m))

theorem steady_leave : Steady n (leave frames) := by
  induction frames generalizing n with
  | nil => exact .ok []
  | cons frame frames ih =>
    suffices Takes (leave (frame :: frames)) from this.steady n
    refine .spaced rfl (fun bs => by simp only [leave, skipSpace_skipSpace]) fun m b shown => ?_
    simp only [leave, skipSpace_cons shown]
    exact .ite (.label steady_skipKey _) (.ite ih (.error _))

theorem steady_enter : Steady n (enter frame frames) :=
  .spacedHead (e := frame.endFault)
    (fun b bs => if b = frame.closing then leave frames (bs.drop 1)
      else (skipKey frame bs).map (frame :: frames, ·))
    rfl (fun bs => by simp only [enter, skipSpace_skipSpace])
    (fun b bs shown => by simp only [enter, skipSpace_cons shown]; rfl)
    fun b => .ite (.behind fun _ => steady_leave) (.label steady_skipKey _)

theorem steady_skipToken (b : UInt8) : Steady n (skipToken frames b) := by
  unfold skipToken
  refine .ite steady_enter (.ite steady_enter ?_)
  dsimp only
  refine .ite (.andThen (steady_literal _) steady_leave) <|
    .ite (.andThen (steady_literal _) steady_leave) <|
    .ite (.andThen (steady_literal _) steady_leave) <|
    .ite (.andThen steady_skipNumber steady_leave) (.ite ?_ (.ite ?_ ?_))
  · exact .andThen (steady_skipNumber_cons b) steady_leave
  · exact .andThen (steady_skipString .plain) steady_leave
  · exact .error fun bs => Fault.ahead .expectedValue (b :: bs)

def skipTurn (frames : List Frame) (bs : Bytes) : Except Fault (Turn (List Frame) Unit × Bytes) :=
  match skipSpace bs with
  | [] => .error (.ahead .endOfValue [])
  | b :: rest =>
    (skipToken frames b rest).map fun (frames, rest) =>
      (if frames.isEmpty then .done () else .again frames, rest)

theorem passing_skipFrom (fuel : Nat) (frames : List Frame) (bs : Bytes) :
    passing (skipFrom (fuel + 1) frames) bs = (skipTurn frames bs).bind (Turn.next fun frames =>
      passing (skipFrom fuel frames)) := by
  rw [passing, skipFrom, skipTurn]
  cases skipSpace bs with
  | nil => rfl
  | cons b tail =>
    dsimp only
    rcases skipToken frames b tail with fault | ⟨_ | ⟨frame, frames⟩, rest⟩ <;> rfl

theorem takes_skipTurn (frames : List Frame) : Takes (skipTurn frames) := by
  refine .spaced rfl (fun bs => by simp only [skipTurn, skipSpace_skipSpace]) fun m b shown => ?_
  simp only [skipTurn, skipSpace_cons shown]
  exact (steady_skipToken b).map fun frames => if frames.isEmpty then Turn.done ()
    else .again frames

theorem turns_skip : Turns skipTurn fun fuel frames => passing (skipFrom fuel frames) where
  unfold := passing_skipFrom
  steady n frames := (takes_skipTurn frames).steady n
  takes := (takes_skipTurn _).shorter

theorem steady_skip : Steady n (passing skip) := turns_skip.steady_loop []

end Skipping

end Stowage.Json
