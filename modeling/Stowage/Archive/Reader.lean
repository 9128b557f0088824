import Stowage.Archive.Extension

/-! Finding a member of an archive by name. Headers are read in order and contents are skipped; a
member that carries a long name or extension records speaks for the member after it. An archive ends
at a zero block or where its octets do. -/
namespace Stowage.Archive

inductive ReadFault
  | partialBlock
  | checksumMismatch
  | badChecksum (fault : NumberFault) (name : Bytes)
  | badSize (fault : NumberFault) (name : Bytes)
  | sizeOverflow
  | outOfBounds
  | outOfReach
  | secondName
  | secondExtension
  | noFollower
  | sparseElsewhere
  | sparseUnaligned
  | sparseOverlap
  | sparseOverflow
  | sparseExcess
  | sparseNoExtension
  | sparseSizeMismatch
  | sparseRest
  | badSparse (fault : NumberFault) (what : String)
deriving DecidableEq

def ReadFault.message : ReadFault → String
  | .partialBlock => "failed to read entire block"
  | .checksumMismatch => "archive header checksum mismatch"
  | .badChecksum fault name => s!"{fault.message} when getting cksum for {Utf8.lossy name}"
  | .badSize fault name => s!"{fault.message} when getting size for {Utf8.lossy name}"
  | .sizeOverflow => "size overflow"
  | .outOfBounds => "seek position out of bounds"
  | .outOfReach => "Invalid argument (os error 22)"
  | .secondName => "two long name entries describing the same member"
  | .secondExtension => "two pax extensions entries describing the same member"
  | .noFollower => "members found describing a future member but no future member found"
  | .sparseElsewhere => "sparse entry type listed but not GNU header"
  | .sparseUnaligned => "previous block in sparse file was not aligned to 512-byte boundary"
  | .sparseOverlap => "out of order or overlapping sparse blocks"
  | .sparseOverflow => "more bytes listed in sparse file than u64 can hold"
  | .sparseExcess => "sparse file consumed more data than the header listed"
  | .sparseNoExtension => "failed to read extension"
  | .sparseSizeMismatch => "mismatch in sparse file chunks and size in header"
  | .sparseRest => "mismatch in sparse file chunks and entry size in header"
  | .badSparse fault what => s!"{fault.message} when getting {what}"

def isGnu (block : Bytes) : Bool := slice block 257 8 == ascii "ustar  " ++ [0]

def isUstar (block : Bytes) : Bool := slice block 257 8 == ascii "ustar" ++ [0] ++ ascii "00"

def kindOf (block : Bytes) : UInt8 := (block.drop 156).headD 0

def headerName (block : Bytes) : Bytes :=
  let name := untilZero (slice block 0 nameSize)
  let front := untilZero (slice block 345 155)
  if isUstar block && !front.isEmpty then front ++ slash :: name else name

/-- Whether a member only speaks for the one after it, or for all that follow. The size of extension
records is not that of such a member. -/
def isAside (block : Bytes) : Bool := (ascii "LKxg").contains (kindOf block)

/-- The octets of an archive, and the last place in it that reading can be moved to, if there is
one. -/
structure Source where
  octets : Bytes
  reach : Option Nat
deriving DecidableEq

structure Cursor where
  position : Nat
  next : Nat
deriving DecidableEq

structure Member where
  block : Bytes
  size : Nat
deriving DecidableEq

def blockAt (bs : Bytes) (position : Nat) : Except ReadFault (Option Bytes) :=
  match slice bs position blockSize with
  | [] => .ok none
  | block => if block.length < blockSize then .error .partialBlock else .ok (some block)

def verifyChecksum (block : Bytes) : Except ReadFault Unit :=
  match readOctal (slice block 148 8) with
  | .error fault => .error (.badChecksum fault (headerName block))
  | .ok sum =>
    if sum % 0x100000000 = checksum (block.take 148) (block.drop 156) then .ok ()
      else .error .checksumMismatch

def sizeOf (block : Bytes) (extension : Option Bytes) : Except ReadFault Nat :=
  match readNumber (slice block 124 12) with
  | .error fault => .error (.badSize fault (headerName block))
  | .ok size => .ok (if isAside block then size else (extension.bind extensionSize?).getD size)

def nextMember (s : Source) (c : Cursor) (extension : Option Bytes) :
    Except ReadFault (Option (Member × Cursor)) := do
  if signedLimit ≤ c.next - c.position then throw .outOfBounds
  if s.reach.any (· < c.next) then throw .outOfReach
  match ← blockAt s.octets c.next with
  | none => return none
  | some block =>
    if block.all (· == 0) then return none
    verifyChecksum block
    let size ← sizeOf block extension
    if wordLimit ≤ size + (blockSize - 1) then throw .sizeOverflow
    let start := c.next + blockSize
    let next := start + (size + (blockSize - 1)) / blockSize * blockSize
    if wordLimit ≤ next then throw .sizeOverflow
    return some (⟨block, size⟩, ⟨start, next⟩)

structure Notes where
  longName : Option Bytes := none
  linkNoted : Bool := false
  extension : Option Bytes := none
deriving DecidableEq

def Notes.isEmpty (n : Notes) : Bool := n.longName.isNone && !n.linkNoted && n.extension.isNone

inductive NoteKind
  | name
  | link
  | extension
deriving DecidableEq

def noteKind? (block : Bytes) : Option NoteKind :=
  if isGnu block || isUstar block then
    if kindOf block = 0x4c then some .name
    else if kindOf block = 0x4b then some .link
    else if kindOf block = 0x78 then some .extension
    else none
  else none

def Notes.add (n : Notes) (kind : NoteKind) (body : Bytes) : Except ReadFault Notes :=
  match kind with
  | .name => if n.longName.isSome then .error .secondName else .ok { n with longName := some body }
  | .link => if n.linkNoted then .error .secondName else .ok { n with linkNoted := true }
  | .extension =>
    if n.extension.isSome then .error .secondExtension else .ok { n with extension := some body }

def dropLastZero (bs : Bytes) : Bytes := if bs.getLast? = some 0 then bs.dropLast else bs

def nameOf (block : Bytes) (notes : Notes) : Path :=
  match notes.longName with
  | some name => ⟨dropLastZero name⟩
  | none => ⟨(notes.extension.bind extensionPath?).getD (headerName block)⟩

inductive Run
  | hole (length : Nat)
  | stored (length : Nat)
deriving DecidableEq

structure Layout where
  length : Nat
  left : Nat
  runs : List Run
deriving DecidableEq

def sparseNumber (what : String) (field : Bytes) : Except ReadFault Nat :=
  match readNumber field with
  | .ok n => .ok n
  | .error fault => .error (.badSparse fault what)

/-- A run is listed by its offset and its length; one that starts with a zero octet lists
nothing. -/
def Layout.add (size : Nat) (l : Layout) (listed : Bytes) : Except ReadFault Layout := do
  let offsetField := slice listed 0 12
  let lengthField := slice listed 12 12
  if offsetField.headD 0 = 0 || lengthField.headD 0 = 0 then return l
  let offset ← sparseNumber "offset from sparse header" offsetField
  let length ← sparseNumber "length from sparse header" lengthField
  if length ≠ 0 && (size - l.left) % blockSize ≠ 0 then throw .sparseUnaligned
  if offset < l.length then throw .sparseOverlap
  if wordLimit ≤ offset + length then throw .sparseOverflow
  if l.left < length then throw .sparseExcess
  let runs := if l.length < offset then .hole (offset - l.length) :: l.runs else l.runs
  return ⟨offset + length, l.left - length, .stored length :: runs⟩

def Layout.addAll (size : Nat) (l : Layout) (block : Bytes) (start count : Nat) :
    Except ReadFault Layout :=
  (List.range count).foldlM (fun l i => Layout.add size l (slice block (start + 24 * i) 24)) l

def extendLayout (bs : Bytes) (size : Nat) :
    Nat → Cursor → Layout → Except ReadFault (Cursor × Layout)
  | 0, _, _ => .error .sparseNoExtension
  | fuel + 1, c, l => do
    match ← blockAt bs c.position with
    | none => throw .sparseNoExtension
    | some block =>
      let c := ⟨c.position + blockSize, c.next + blockSize⟩
      let l ← Layout.addAll size l block 0 21
      if (block.drop 504).headD 0 = 1 then extendLayout bs size fuel c l else return (c, l)

/-- The owner's names are all that a message tells of a sparse file. -/
def ownerText (block : Bytes) : String :=
  Utf8.lossy (untilZero (slice block 297 32)) ++ ":" ++ Utf8.lossy (untilZero (slice block 265 32))

def layoutOf (bs : Bytes) (m : Member) (c : Cursor) : Except ReadFault (Cursor × List Run) :=
  if kindOf m.block ≠ 0x53 then return (c, [.stored m.size])
  else if !isGnu m.block then throw .sparseElsewhere
  else do
    let l ← Layout.addAll m.size ⟨0, m.size, []⟩ m.block 386 4
    let (c, l) ← if (m.block.drop 482).headD 0 = 1 then extendLayout bs m.size (bs.length + 1) c l
        else pure (c, l)
    let real ← sparseNumber s!"real_size for {ownerText m.block}" (slice m.block 483 12)
    if l.length ≠ real then throw .sparseSizeMismatch
    if l.left ≠ 0 then throw .sparseRest
    return (c, l.runs.reverse)

def readRuns (bs : Bytes) (position : Nat) : List Run → Bytes
  | [] => []
  | .hole n :: rest => zeros n ++ readRuns bs position rest
  | .stored n :: rest => slice bs position n ++ readRuns bs (position + n) rest

/-- Reads members until one has the name. Each member takes a block, so that the octets bound their
number. -/
def search (s : Source) (target : Path) : Nat → Cursor → Notes → Except ReadFault (Option Bytes)
  | 0, _, _ => .ok none
  | fuel + 1, c, notes => do
    match ← nextMember s c notes.extension with
    | none => if notes.isEmpty then return none else throw .noFollower
    | some (m, c) =>
      match noteKind? m.block with
      | some kind =>
        let body := slice s.octets c.position m.size
        search s target fuel ⟨c.position + body.length, c.next⟩ (← notes.add kind body)
      | none =>
        let (c, runs) ← layoutOf s.octets m c
        if (nameOf m.block notes).same target then return some (readRuns s.octets c.position runs)
        else search s target fuel c {}

def find? (s : Source) (target : Path) : Except ReadFault (Option Bytes) :=
  search s target (s.octets.length + 1) ⟨0, 0⟩ {}

end Stowage.Archive
