/-! Octets and their hexadecimal form. All content that is stored, hashed or archived is a list of
octets; text is turned into octets by `Stowage.Text.Utf8`. -/
namespace Stowage

abbrev Bytes := List UInt8

def wordLimit : Nat := 0x10000000000000000

def signedLimit : Nat := 0x8000000000000000

def hexDigit (n : Nat) : Char := Nat.digitChar (n % 16)

def hexValue? (c : Char) : Option Nat :=
  if '0' ≤ c && c ≤ '9' then some (c.toNat - 48)
  else if 'a' ≤ c && c ≤ 'f' then some (c.toNat - 87)
  else if 'A' ≤ c && c ≤ 'F' then some (c.toNat - 55)
  else none

def hexOctet (b : UInt8) : List Char := [hexDigit (b.toNat / 16), hexDigit b.toNat]

def Bytes.toHex (bs : Bytes) : String := String.ofList (bs.flatMap hexOctet)

def bigEndian (n value : Nat) : Bytes :=
  (List.range n).reverse.map fun i => UInt8.ofNat (value >>> (8 * i))

def ofBigEndian (bs : Bytes) : Nat := bs.foldl (fun n b => n * 256 + b.toNat) 0

def ascii (s : String) : Bytes := s.toList.map fun c => UInt8.ofNat c.toNat

theorem hexOctet_length (b : UInt8) : (hexOctet b).length = 2 := rfl

theorem toHex_length (bs : Bytes) : (Bytes.toHex bs).length = 2 * bs.length := by
  rw [Bytes.toHex, String.length_ofList]
  induction bs with
  | nil => rfl
  | cons b bs ih => simp [hexOctet_length, ih, Nat.mul_add, Nat.add_comm]

end Stowage
