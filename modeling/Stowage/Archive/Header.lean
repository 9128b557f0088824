import Stowage.Path
import Stowage.Text.Blank
import Stowage.Text.Decimal

/-! The header block of an archive member and its fields. Numbers are octal digits before a zero
octet; one that needs more digits than there is room for is written in binary behind a set top bit.
The checksum counts its own field as eight spaces. -/
namespace Stowage.Archive

def blockSize : Nat := 512

def nameSize : Nat := 100

def zeros (n : Nat) : Bytes := List.replicate n 0

def fillLength (length : Nat) : Nat := (blockSize - length % blockSize) % blockSize

def fill (bs : Bytes) : Bytes := bs ++ zeros (fillLength bs.length)

def slice (bs : Bytes) (start length : Nat) : Bytes := (bs.drop start).take length

def untilZero (bs : Bytes) : Bytes := bs.takeWhile (· != 0)

def octal (width value : Nat) : Bytes :=
  ((padLeft (width - 1) '0' (Nat.toDigits 8 value)).map fun c => UInt8.ofNat c.toNat) ++ [0]

def octalLimit : Nat := 0o100000000000

def number (value : Nat) : Bytes :=
  if value < octalLimit then octal 12 value else 0x80 :: zeros 3 ++ bigEndian 8 value

structure Header where
  name : Bytes
  size : Nat
  modified : Nat
  kind : UInt8
deriving DecidableEq

def Header.beforeSum (h : Header) : Bytes :=
  h.name ++ ascii "0000644" ++ [0] ++ ascii "0000000" ++ [0] ++ ascii "0000000" ++ [0] ++
    number h.size ++
    number h.modified

def Header.afterSum (h : Header) : Bytes := h.kind :: zeros 100 ++ ascii "ustar  " ++ zeros 248

def octetSum (bs : Bytes) : Nat := bs.foldl (fun n b => n + b.toNat) 0

def checksum (before after : Bytes) : Nat := octetSum before + 8 * 32 + octetSum after

def Header.encode (h : Header) : Bytes :=
  h.beforeSum ++ octal 8 (checksum h.beforeSum h.afterSum) ++ h.afterSum

inductive NumberFault
  | notText (octets : Bytes)
  | notOctal (text : List Char)
deriving DecidableEq

def NumberFault.message : NumberFault → String
  | .notText octets => "numeric field did not have utf-8 text: " ++ Utf8.lossy octets
  | .notOctal text => "numeric field was not a number: " ++ String.ofList text

def isOctalDigit (c : Char) : Bool := '0' ≤ c && c ≤ '7'

def octalValue (cs : List Char) : Nat := cs.foldl (fun n c => n * 8 + digitValue c) 0

/-- Octal digits between blanks and behind an optional plus sign, of a value that fits 64 bits. -/
def octal? (cs : List Char) : Option Nat :=
  let digits := dropPlus (trim cs)
  if digits.isEmpty || !digits.all isOctalDigit then none
  else if octalValue digits < wordLimit then some (octalValue digits) else none

def readOctal (field : Bytes) : Except NumberFault Nat :=
  match Utf8.decode? (untilZero field) with
  | none => .error (.notText (untilZero field))
  | some cs =>
    match octal? cs with
    | some n => .ok n
    | none => .error (.notOctal cs)

/-- A binary number is in the last eight octets of its field. -/
def readNumber (field : Bytes) : Except NumberFault Nat :=
  match field.head? with
  | some b =>
    if 0x80 ≤ b then .ok (ofBigEndian (field.drop (field.length - 8))) else readOctal field
  | none => readOctal field

end Stowage.Archive
