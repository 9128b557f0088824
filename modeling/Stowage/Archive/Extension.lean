import Stowage.Archive.Header

/-! Extension records of an archive member: lines of a length, a key and a value. The length counts
the whole line and its newline, and a line with another length is no record. -/
namespace Stowage.Archive

structure Record where
  key : Bytes
  value : Bytes
deriving DecidableEq

def cutAt (b : UInt8) (bs : Bytes) : Option (Bytes × Bytes) :=
  let front := bs.takeWhile (· != b)
  match bs.drop front.length with
  | [] => none
  | _ :: rest => some (front, rest)

def recordLines (bs : Bytes) : List Bytes :=
  bs.foldr (fun b lines =>
    if b = 0x0a then [] :: lines
    else match lines with
      | line :: rest => (b :: line) :: rest
      | [] => [[b]]) [[]]

def recordOf? (line : Bytes) : Option Record := do
  let (digits, body) ← cutAt 0x20 line
  let length ← word? (← Utf8.decode? digits)
  if length ≠ line.length + 1 then none
  let (key, value) ← cutAt 0x3d body
  return ⟨key, value⟩

def records (bs : Bytes) : List (Option Record) :=
  ((recordLines bs).takeWhile fun line => !line.isEmpty).map recordOf?

def extensionPath? (bs : Bytes) : Option Bytes :=
  ((records bs).filterMap id).findSome? fun r => if r.key = ascii "path" then some r.value else none

/-- The size that replaces the one of the header. A line that is no record ends the search for
it. -/
def extensionSize? (bs : Bytes) : Option Nat :=
  let valid := (records bs).takeWhile Option.isSome
  match (valid.filterMap id).find? fun r => r.key = ascii "size" with
  | some r => (Utf8.decode? r.value).bind word?
  | none => none

end Stowage.Archive
