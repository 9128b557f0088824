import Stowage.Text.Decimal

/-! Binary floating point of 64 bits: rounding of a ratio to the nearest value, ties to the even
one, and the shortest decimal that rounds back to a value. A finite value is `significand * 2 ^
exponent`. -/
namespace Stowage

structure Binary64 where
  significand : Nat
  exponent : Int
deriving DecidableEq

namespace Binary64

def zero : Binary64 := ⟨0, -1074⟩

def leadingBit : Nat := 0x10000000000000

def tenTo (k : Nat) : Nat := Nat.pow 10 k

def roundHalfEven (num den : Nat) : Nat :=
  let q := num / den
  let r := 2 * (num % den)
  if r < den then q else if den < r then q + 1 else q + q % 2

def scaled (num den : Nat) (e : Int) : Nat × Nat :=
  if 0 ≤ e then (num, den <<< e.toNat) else (num <<< (-e).toNat, den)

def ofRatio (num den : Nat) : Option Binary64 :=
  if num = 0 then some zero
  else
    let size : Int := (Nat.log2 num : Int) - Nat.log2 den
    let low := max (size - 53) (-1074)
    let (n, d) := scaled num den low
    let e := if n / d < 2 * leadingBit then low else low + 1
    let (n, d) := scaled num den e
    let m := roundHalfEven n d
    let value : Binary64 := if m = 2 * leadingBit then ⟨leadingBit, e + 1⟩ else ⟨m, e⟩
    if 971 < value.exponent then none else some value

def ratio (x : Binary64) : Nat × Nat :=
  if 0 ≤ x.exponent then (x.significand <<< x.exponent.toNat, 1)
  else (x.significand, 1 <<< (-x.exponent).toNat)

def mul (x y : Binary64) : Option Binary64 :=
  let (a, b) := x.ratio
  let (c, d) := y.ratio
  ofRatio (a * c) (b * d)

def div (x y : Binary64) : Option Binary64 :=
  let (a, b) := x.ratio
  let (c, d) := y.ratio
  ofRatio (a * d) (b * c)

def power (k : Nat) : Binary64 := (ofRatio (tenTo k) 1).getD zero

/-- A value below `10 ^ 308` times too small is brought down in steps of `10 ^ 308`, each one
rounded. -/
def lower : Nat → Binary64 → Nat → Option Binary64
  | 0, x, _ => some x
  | fuel + 1, x, k =>
    if k ≤ 308 then x.div (power k)
    else if x.significand = 0 then some x
    else (x.div (power 308)).bind fun y => lower fuel y (k - 308)

/-- `significand * 10 ^ exponent`, the significand being rounded before it is multiplied or
divided. -/
def ofParts (significand : Nat) (exponent : Int) : Option Binary64 :=
  (ofRatio significand 1).bind fun x =>
    if exponent < 0 then lower (exponent.natAbs / 308 + 1) x exponent.natAbs
    else if exponent ≤ 308 then x.mul (power exponent.toNat)
    else if x.significand = 0 then some x else none

structure Decimal where
  digits : Nat
  exponent : Int
deriving DecidableEq

def magnitude (num den : Nat) : Int :=
  if den ≤ num then ((digitsOf (num / den)).length : Int) - 1
  else -(((List.range 400).find? fun j => den ≤ num * tenTo j).getD 400 : Int)

/-- Whether a decimal is among the reals that round to the value; the two ends are when the
significand is even. -/
def holds (x : Binary64) (d : Decimal) : Bool :=
  let (num, den) := x.ratio
  let unit := num / max x.significand 1
  let below := if x.significand = leadingBit && -1074 < x.exponent then 1 else 2
  let (a, b) :=
    if 0 ≤ d.exponent then (d.digits * tenTo d.exponent.toNat, 1)
      else (d.digits, tenTo (-d.exponent).toNat)
  let point := 4 * a * den
  let low := (4 * num - below * unit) * b
  let high := (4 * num + 2 * unit) * b
  if x.significand % 2 = 0 then low ≤ point && point ≤ high else low < point && point < high

/-- The neighbours of a value among the decimals of `n` digits; the nearer one that rounds back to
it, and of two as near the even one. -/
def onGrid (x : Binary64) (n : Nat) : Option Decimal :=
  let (num, den) := x.ratio
  let e := magnitude num den - n + 1
  let (a, b) := if 0 ≤ e then (num, den * tenTo e.toNat) else (num * tenTo (-e).toNat, den)
  let down : Decimal := ⟨a / b, e⟩
  let up : Decimal := ⟨a / b + 1, e⟩
  let downFirst := 2 * (a % b) < b || (2 * (a % b) = b && a / b % 2 = 0)
  let nearest := if downFirst then [down, up] else [up, down]
  nearest.find? x.holds

def shortest (x : Binary64) : Decimal :=
  ((List.range 17).findSome? fun i => x.onGrid (i + 1)).getD ⟨0, 0⟩

def dropZeros : List Char → List Char := fun cs => (cs.reverse.dropWhile (· == '0')).reverse

/-- Between `10 ^ -5` and `10 ^ 16` a point is set, with a digit on both sides; beyond, the exponent
has a sign and no leading zeros. -/
def text (negative : Bool) (x : Binary64) : String :=
  let body :=
    if x.significand = 0 then "0.0".toList
    else
      let d := x.shortest
      let all := digitsOf d.digits
      let lead : Int := (all.length : Int) - 1 + d.exponent
      let digits := dropZeros all
      if 0 ≤ lead && lead ≤ 15 then
        let whole := lead.toNat + 1
        let tail := digits.drop whole
        (digits.take whole ++ List.replicate (whole - digits.length) '0') ++
          '.' :: if tail.isEmpty then ['0'] else tail
      else if -5 ≤ lead && lead < 0 then
        "0.".toList ++ List.replicate (lead.natAbs - 1) '0' ++ digits
      else
        let tail := digits.drop 1
        digits.take 1 ++ (if tail.isEmpty then [] else '.' :: tail) ++
          ['e', if lead < 0 then '-' else '+'] ++ digitsOf lead.natAbs
  String.ofList (if negative then '-' :: body else body)

end Binary64
end Stowage
