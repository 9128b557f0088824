import Stowage.Bytes

/-! The SHA-256 hash: a chain of eight words, compressed with one block of 64 octets at a time.
`hash` pads a whole message; a `Hasher` takes the message in parts and keeps the octets of the block
that is not full yet. -/
namespace Stowage.Sha256

structure Chain where
  a : UInt32
  b : UInt32
  c : UInt32
  d : UInt32
  e : UInt32
  f : UInt32
  g : UInt32
  h : UInt32
deriving DecidableEq

def Chain.initial : Chain :=
  ⟨0x6a09e667, 0xbb67ae85, 0x3c6ef372, 0xa54ff53a, 0x510e527f, 0x9b05688c, 0x1f83d9ab, 0x5be0cd19⟩

def roundConstants : List UInt32 := [
  0x428a2f98, 0x71374491, 0xb5c0fbcf, 0xe9b5dba5, 0x3956c25b, 0x59f111f1, 0x923f82a4, 0xab1c5ed5,
  0xd807aa98, 0x12835b01, 0x243185be, 0x550c7dc3, 0x72be5d74, 0x80deb1fe, 0x9bdc06a7, 0xc19bf174,
  0xe49b69c1, 0xefbe4786, 0x0fc19dc6, 0x240ca1cc, 0x2de92c6f, 0x4a7484aa, 0x5cb0a9dc, 0x76f988da,
  0x983e5152, 0xa831c66d, 0xb00327c8, 0xbf597fc7, 0xc6e00bf3, 0xd5a79147, 0x06ca6351, 0x14292967,
  0x27b70a85, 0x2e1b2138, 0x4d2c6dfc, 0x53380d13, 0x650a7354, 0x766a0abb, 0x81c2c92e, 0x92722c85,
  0xa2bfe8a1, 0xa81a664b, 0xc24b8b70, 0xc76c51a3, 0xd192e819, 0xd6990624, 0xf40e3585, 0x106aa070,
  0x19a4c116, 0x1e376c08, 0x2748774c, 0x34b0bcb5, 0x391c0cb3, 0x4ed8aa4a, 0x5b9cca4f, 0x682e6ff3,
  0x748f82ee, 0x78a5636f, 0x84c87814, 0x8cc70208, 0x90befffa, 0xa4506ceb, 0xbef9a3f7, 0xc67178f2]

def rotate (x : UInt32) (n : UInt32) : UInt32 := (x >>> n) ||| (x <<< (32 - n))

def round (s : Chain) (k w : UInt32) : Chain :=
  let s1 := rotate s.e 6 ^^^ rotate s.e 11 ^^^ rotate s.e 25
  let choice := (s.e &&& s.f) ^^^ (~~~s.e &&& s.g)
  let t1 := s.h + s1 + choice + k + w
  let s0 := rotate s.a 2 ^^^ rotate s.a 13 ^^^ rotate s.a 22
  let majority := (s.a &&& s.b) ^^^ (s.a &&& s.c) ^^^ (s.b &&& s.c)
  ⟨t1 + (s0 + majority), s.a, s.b, s.c, s.d + t1, s.e, s.f, s.g⟩

def advance (window : List UInt32) : List UInt32 :=
  match window with
  | w0 :: rest =>
    let w1 := rest.getD 0 0
    let w14 := rest.getD 13 0
    let s0 := rotate w1 7 ^^^ rotate w1 18 ^^^ (w1 >>> 3)
    let s1 := rotate w14 17 ^^^ rotate w14 19 ^^^ (w14 >>> 10)
    rest ++ [s1 + rest.getD 8 0 + s0 + w0]
  | [] => []

def words : Bytes → List UInt32
  | a :: b :: c :: d :: rest =>
    (a.toUInt32 <<< 24 ||| b.toUInt32 <<< 16 ||| c.toUInt32 <<< 8 ||| d.toUInt32) :: words rest
  | _ => []

def Chain.add (s t : Chain) : Chain :=
  ⟨s.a + t.a, s.b + t.b, s.c + t.c, s.d + t.d, s.e + t.e, s.f + t.f, s.g + t.g, s.h + t.h⟩

def compress (s : Chain) (block : Bytes) : Chain :=
  let (t, _) := roundConstants.foldl
    (fun (t, window) k => (round t k (window.headD 0), advance window)) (s, words block)
  s.add t

def Chain.toBytes (s : Chain) : Bytes :=
  [s.a, s.b, s.c, s.d, s.e, s.f, s.g, s.h].flatMap fun (w : UInt32) =>
    [(w >>> 24).toUInt8, (w >>> 16).toUInt8, (w >>> 8).toUInt8, w.toUInt8]

/-- What follows a message of this many octets: a set bit, zeros up to eight octets before the end
of a block, and the length in bits. -/
def padding (length : Nat) : Bytes :=
  0x80 :: List.replicate ((119 - length % 64) % 64) 0 ++ bigEndian 8 (8 * length)

def compressAll (s : Chain) (bs : Bytes) : Chain :=
  match _h : bs.drop 63 with
  | [] => s
  | _ :: rest => compressAll (compress s (bs.take 64)) rest
termination_by bs.length
decreasing_by
  have := congrArg List.length _h
  simp only [List.length_drop, List.length_cons] at this
  omega

def hash (bs : Bytes) : Bytes := (compressAll Chain.initial (bs ++ padding bs.length)).toBytes

structure Hasher where
  chain : Chain := Chain.initial
  /-- Octets of the block that is not full, the last one first. -/
  block : Bytes := []
  held : Nat := 0
  length : Nat := 0

def Hasher.push (h : Hasher) (b : UInt8) : Hasher :=
  if h.held + 1 < 64 then ⟨h.chain, b :: h.block, h.held + 1, h.length + 1⟩
  else ⟨compress h.chain (b :: h.block).reverse, [], 0, h.length + 1⟩

def Hasher.update (h : Hasher) (bs : Bytes) : Hasher := bs.foldl Hasher.push h

def Hasher.finish (h : Hasher) : Bytes := (h.update (padding h.length)).chain.toBytes

theorem Hasher.update_append (h : Hasher) (bs cs : Bytes) :
    h.update (bs ++ cs) = (h.update bs).update cs :=
  List.foldl_append

theorem Chain.toBytes_length (s : Chain) : s.toBytes.length = 32 := rfl

end Stowage.Sha256
