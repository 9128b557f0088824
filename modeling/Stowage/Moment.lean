import Stowage.Text.Decimal

/-! Moments in Universal Time: seconds since 1970 and nanoseconds within the second, between the
first and the last second of the calendar that is kept (years -262143 to 262142). The seconds are
those of Unix time, which leaves leap seconds out: the last second of a minute goes on for a second
more where one is inserted. -/
namespace Stowage

def firstSecond : Int := -8334601228800
def lastSecond : Int := 8210266876799

def secondNanos : Nat := 1000000000

/-- How long a second may take: the last one of a minute has room for a leap second. -/
def nanosLimit (seconds : Int) : Nat := if seconds % 60 = 59 then 2 * secondNanos else secondNanos

@[ext]
structure Moment where
  seconds : Int
  nanos : Nat
  first_le : firstSecond ≤ seconds := by decide
  le_last : seconds ≤ lastSecond := by decide
  nanos_lt : nanos < nanosLimit seconds := by decide
deriving DecidableEq

namespace Moment

def epoch : Moment := { seconds := 0, nanos := 0 }

def at? (seconds : Int) (nanos : Nat) : Option Moment :=
  if h : firstSecond ≤ seconds ∧ seconds ≤ lastSecond ∧ nanos < nanosLimit seconds then
    some ⟨seconds, nanos, h.1, h.2.1, h.2.2⟩
  else none

def wholeSecond (t : Moment) : Moment :=
  { t with
    nanos := t.nanos - t.nanos % secondNanos
    nanos_lt := Nat.lt_of_le_of_lt (Nat.sub_le ..) t.nanos_lt }

def ofDecimal? (cs : List Char) : Option Moment :=
  match word? cs with
  | some n => if n < signedLimit then at? n 0 else none
  | none => none

structure Date where
  year : Int
  month : Nat
  day : Nat
deriving DecidableEq

/-- The date that many days after 1 January 1970. Years are counted from March, so that a leap day
is the last day of its year, and an era is 400 years. -/
def dateOfDays (days : Int) : Date :=
  let shifted := days + 719468
  let era := Int.fdiv shifted 146097
  let dayOfEra := (Int.fmod shifted 146097).toNat
  let yearOfEra := (dayOfEra - dayOfEra / 1460 + dayOfEra / 36524 - dayOfEra / 146096) / 365
  let dayOfYear := dayOfEra - (365 * yearOfEra + yearOfEra / 4 - yearOfEra / 100)
  let marchMonth := (5 * dayOfYear + 2) / 153
  let month := if marchMonth < 10 then marchMonth + 3 else marchMonth - 9
  let year := Int.ofNat yearOfEra + era * 400 + (if month ≤ 2 then 1 else 0)
  ⟨year, month, dayOfYear - (153 * marchMonth + 2) / 5 + 1⟩

def date (t : Moment) : Date := dateOfDays (Int.fdiv t.seconds 86400)

def yearText (year : Int) : String :=
  let digits := padded 4 year.natAbs
  if 0 ≤ year && year ≤ 9999 then digits else (if year < 0 then "-" else "+") ++ digits

def secondText (t : Moment) : String :=
  let d := t.date
  let rest := (Int.fmod t.seconds 86400).toNat
  s!"{yearText d.year}-{padded 2 d.month}-{padded 2 d.day}T{padded 2 (rest / 3600)}:" ++
    s!"{padded 2 (rest / 60 % 60)}:{padded 2 (rest % 60 + t.nanos / secondNanos)}"

def fractionText (nanos : Nat) : String :=
  if nanos = 0 then ""
  else if nanos % 1000000 = 0 then "." ++ padded 3 (nanos / 1000000)
  else if nanos % 1000 = 0 then "." ++ padded 6 (nanos / 1000)
  else "." ++ padded 9 nanos

def offsetText (t : Moment) : String :=
  t.secondText ++ fractionText (t.nanos % secondNanos) ++ "+00:00"

def zuluText (t : Moment) : String := t.secondText ++ "Z"

def compare (s t : Moment) : Ordering :=
  (Ord.compare s.seconds t.seconds).then (Ord.compare s.nanos t.nanos)

end Moment
end Stowage
