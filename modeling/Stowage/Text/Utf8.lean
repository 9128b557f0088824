import Stowage.Bytes

/-! UTF-8 read one octet at a time. An octet that cannot continue the character before it ends a
broken piece, which holds the longest start of a character found there; a lossy reading shows each
such piece as U+FFFD. -/
namespace Stowage.Utf8

def encode (cs : List Char) : Bytes := cs.flatMap String.utf8EncodeChar

def ofString (s : String) : Bytes := encode s.toList

inductive Piece
  | char (c : Char)
  | broken (length : Nat)
  | cut
deriving DecidableEq

/-- What a character begun still needs: how many octets, the range of the next one, and the bits so
far. -/
structure Pending where
  need : Nat
  low : UInt8
  high : UInt8
  value : Nat
  taken : Nat

structure State where
  pieces : List Piece
  pending : Option Pending

/-- The range of the second octet keeps out long forms, surrogates and values above U+10FFFF. -/
def start (done : List Piece) (b : UInt8) : State :=
  if b < 0x80 then ⟨.char (Char.ofNat b.toNat) :: done, none⟩
  else if b < 0xc2 then ⟨.broken 1 :: done, none⟩
  else if b < 0xe0 then ⟨done, some ⟨1, 0x80, 0xbf, b.toNat - 0xc0, 1⟩⟩
  else if b < 0xf0 then
    ⟨done, some ⟨2, if b = 0xe0 then 0xa0 else 0x80, if b = 0xed then 0x9f else 0xbf,
      b.toNat - 0xe0, 1⟩⟩
  else if b < 0xf5 then
    ⟨done, some ⟨3, if b = 0xf0 then 0x90 else 0x80, if b = 0xf4 then 0x8f else 0xbf,
      b.toNat - 0xf0, 1⟩⟩
  else ⟨.broken 1 :: done, none⟩

def step (s : State) (b : UInt8) : State :=
  match s.pending with
  | none => start s.pieces b
  | some p =>
    if p.low ≤ b && b ≤ p.high then
      let value := p.value * 64 + b.toNat % 64
      if p.need ≤ 1 then ⟨.char (Char.ofNat value) :: s.pieces, none⟩
      else ⟨s.pieces, some ⟨p.need - 1, 0x80, 0xbf, value, p.taken + 1⟩⟩
    else start (.broken p.taken :: s.pieces) b

def pieces (bs : Bytes) : List Piece :=
  let s := bs.foldl step ⟨[], none⟩
  (if s.pending.isSome then .cut :: s.pieces else s.pieces).reverse

def Piece.char? : Piece → Option Char
  | .char c => some c
  | _ => none

def Piece.size : Piece → Nat
  | .char c => c.utf8Size
  | .broken n => n
  | .cut => 0

def decode? (bs : Bytes) : Option (List Char) := (pieces bs).mapM Piece.char?

def toString? (bs : Bytes) : Option String := (decode? bs).map String.ofList

def decodeLossy (bs : Bytes) : List Char := (pieces bs).map fun p => p.char?.getD '\ufffd'

def lossy (bs : Bytes) : String := String.ofList (decodeLossy bs)

/-- Where octets stop being UTF-8: after `index` good ones, and for how many octets, unless the text
just ends. -/
structure Fault where
  index : Nat
  length : Option Nat
deriving DecidableEq

def faultFrom (index : Nat) : List Piece → Option Fault
  | [] => none
  | .broken n :: _ => some ⟨index, some n⟩
  | .cut :: _ => some ⟨index, none⟩
  | p :: rest => faultFrom (index + p.size) rest

def fault? (bs : Bytes) : Option Fault := faultFrom 0 (pieces bs)

def Fault.message (f : Fault) : String :=
  match f.length with
  | some n => s!"invalid utf-8 sequence of {n} bytes from index {f.index}"
  | none => s!"incomplete utf-8 byte sequence from index {f.index}"

end Stowage.Utf8
