import Stowage.Digest.Sha256

/-! Content digests in hexadecimal, of octets at hand or of octets that arrive in readings. -/
namespace Stowage

def Digest.length : Nat := 64

def digest (bs : Bytes) : String := Bytes.toHex (Sha256.hash bs)

/-- One answer of a source: octets, of which none means that it has ended, a request to try again,
or a failure. -/
inductive Reading (ε : Type)
  | octets (bs : Bytes)
  | interrupted
  | failed (failure : ε)

def bufferSize : Nat := 65536

def buffers (bs : Bytes) : List Bytes :=
  if bs.length ≤ bufferSize then [bs] else bs.take bufferSize :: buffers (bs.drop bufferSize)
termination_by bs.length
decreasing_by simp only [List.length_drop, bufferSize] at *; omega

def digestFrom {ε : Type} (h : Sha256.Hasher) : List (Reading ε) → Except ε String
  | [] => .ok (Bytes.toHex h.finish)
  | .octets bs :: rest =>
    if bs.isEmpty then .ok (Bytes.toHex h.finish)
      else digestFrom ((buffers bs).foldl Sha256.Hasher.update h) rest
  | .interrupted :: rest => digestFrom h rest
  | .failed failure :: _ => .error failure

def digestReadings {ε : Type} (readings : List (Reading ε)) : Except ε String :=
  digestFrom {} readings

theorem digest_length (bs : Bytes) : (digest bs).length = Digest.length := by
  rw [digest, toHex_length, Sha256.hash, Sha256.Chain.toBytes_length, Digest.length]

end Stowage
