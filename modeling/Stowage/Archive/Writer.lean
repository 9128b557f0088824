import Stowage.Archive.Header

/-! Writing an archive: each member is a header block and its content, filled up to whole blocks,
and two zero blocks end the archive. A name that has no room in the header is written out before it,
as the content of a member of its own, and the header keeps what it can of the name. -/
namespace Stowage.Archive

inductive NameFault
  | rooted
  | leavesArchive
  | empty
  | tooLong
  | containsZero
deriving DecidableEq

def NameFault.message : NameFault → String
  | .rooted => "paths in archives must be relative"
  | .leavesArchive => "paths in archives must not have `..`"
  | .empty => "paths in archives must have at least one component"
  | .tooLong => "provided value is too long"
  | .containsZero => "provided value contains a nul byte"

structure WriteFault where
  fault : NameFault
  room : Bytes
deriving DecidableEq

def WriteFault.message (f : WriteFault) : String :=
  s!"{f.fault.message} when setting path for {Utf8.lossy (untilZero f.room)}"

def endsInSlash (p : Path) : Bool := p.spelling.getLast? == some slash

/-- What is put into the room of a name, in order. A dot counts only where it is the whole path, and
the last component of a name that is cut may be two dots, since more may have followed them. -/
def nameParts (sole cut started slashed : Bool) : List Component → List (Except NameFault Bytes)
  | [] =>
    if !started then [.error .empty]
    else if slashed then [.ok [slash]] else []
  | c :: rest =>
    let lead := if started then [.ok [slash]] else []
    match c with
    | .root => [.error .rooted]
    | .up =>
      if cut && rest.isEmpty then lead ++ .ok [dot, dot] :: nameParts sole cut true slashed rest
      else [.error .leavesArchive]
    | .here =>
      if sole then lead ++ .ok [dot] :: nameParts sole cut true slashed rest
      else nameParts sole cut started slashed rest
    | .name s => lead ++ .ok s :: nameParts sole cut true slashed rest

def storeParts (written : Bytes) : List (Except NameFault Bytes) → Bytes × Option NameFault
  | [] => (written, none)
  | .error fault :: _ => (written, some fault)
  | .ok part :: rest =>
    if nameSize < written.length + part.length then (written, some .tooLong)
    else if part.contains 0 then (written, some .containsZero)
    else storeParts (written ++ part) rest

def overwrite (room written : Bytes) : Bytes :=
  if written.isEmpty then room else (written ++ 0 :: room.drop (written.length + 1)).take nameSize

def storeName (room : Bytes) (cut : Bool) (p : Path) : Bytes × Option NameFault :=
  let parts := nameParts (p.components.length == 1) cut false (endsInSlash p) p.components
  let (written, fault) := storeParts [] parts
  (overwrite room written, fault)

def longNameKind : UInt8 := 0x4c
def fileKind : UInt8 := 0x30

def longName (name : Bytes) : Bytes :=
  let room := ascii "././@LongLink"
  Header.encode ⟨room ++ zeros (nameSize - room.length), name.length + 1, 0, longNameKind⟩ ++
    fill (name ++ [0])

def cutName (name : Bytes) : Path :=
  let front := name.take nameSize
  match Utf8.fault? front with
  | none => ⟨front⟩
  | some f => ⟨front.take f.index⟩

def content (room : Bytes) (modified : Nat) (data : Bytes) : Bytes :=
  Header.encode ⟨room, data.length, modified, fileKind⟩ ++ fill data

def member (modified : Nat) (path : Path) (data : Bytes) : Except WriteFault Bytes :=
  match storeName (zeros nameSize) false path with
  | (room, none) => .ok (content room modified data)
  | (room, some fault) =>
    if path.spelling.length < nameSize then .error ⟨fault, room⟩
    else match storeName room true (cutName path.spelling) with
      | (room, none) => .ok (longName path.spelling ++ content room modified data)
      | (room, some fault) => .error ⟨fault, room⟩

def ending : Bytes := zeros (2 * blockSize)

structure Entry where
  path : Path
  data : Bytes
deriving DecidableEq

def write (modified : Nat) (entries : List Entry) : Except WriteFault Bytes := do
  let members ← entries.mapM fun e => member modified e.path e.data
  return members.flatten ++ ending

end Stowage.Archive
