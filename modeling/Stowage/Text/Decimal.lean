import Stowage.Bytes

/-! Unsigned decimals as they are read: one plus sign is allowed in front, leading zeros are, and a
value above the limit is no number. -/
namespace Stowage

def isDigit (c : Char) : Bool := '0' ≤ c && c ≤ '9'

def digitValue (c : Char) : Nat := c.toNat - 48

def decimalValue (cs : List Char) : Nat := cs.foldl (fun n c => n * 10 + digitValue c) 0

def dropPlus : List Char → List Char
  | '+' :: cs => cs
  | cs => cs

def decimal? (limit : Nat) (cs : List Char) : Option Nat :=
  let digits := dropPlus cs
  if digits.isEmpty || !digits.all isDigit then none
  else if decimalValue digits ≤ limit then some (decimalValue digits) else none

def word? (cs : List Char) : Option Nat := decimal? (wordLimit - 1) cs

def padLeft (width : Nat) (fill : Char) (cs : List Char) : List Char :=
  List.replicate (width - cs.length) fill ++ cs

def digitsOf (n : Nat) : List Char := Nat.toDigits 10 n

def padded (width n : Nat) : String := String.ofList (padLeft width '0' (digitsOf n))

end Stowage
