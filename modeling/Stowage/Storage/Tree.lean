import Stowage.Storage

/-! A directory tree with symbolic links, kept by the rules of a Unix file system. A node is kept
under the names that lead to it from the working directory; a path is followed name by name, links
and dots included. Nothing is found outside the working directory. -/
namespace Stowage

inductive TreeNode
  | file (data : Bytes)
  | directory
  | link (target : Bytes)
deriving DecidableEq

abbrev Names := List Bytes

structure Tree where
  nodes : List (Names × TreeNode) := []
  events : List Event := []
deriving DecidableEq

inductive Place
  | directory (names : Names)
  | file (names : Names) (data : Bytes)
deriving DecidableEq

namespace Tree

def nameLimit : Nat := 255
def pathLimit : Nat := 4096
def linkLimit : Nat := 40

def get? (t : Tree) (names : Names) : Option TreeNode :=
  (t.nodes.find? fun entry => entry.1 == names).map Prod.snd

def set (t : Tree) (names : Names) (node : TreeNode) : Tree :=
  { t with nodes := (names, node) :: t.nodes.filter fun entry => entry.1 != names }

def remove (t : Tree) (names : Names) : Tree :=
  { t with nodes := t.nodes.filter fun entry => entry.1 != names }

def namesOf (path : Bytes) : List Bytes :=
  let parts := (Path.split path).filter fun s => !s.isEmpty
  if path.getLast? = some slash then parts ++ [[]] else parts

/-- Where names lead from a directory through all links, of which no more than `links` are
followed. -/
def lead (t : Tree) (links : Nat) (here : Names) (names : List Bytes) : Except SystemError Place :=
  match names with
  | [] => .ok (.directory here)
  | name :: rest =>
    if name = [] || name = [dot] then lead t links here rest
    else if name = [dot, dot] then lead t links here.dropLast rest
    else if nameLimit < name.length then .error .nameTooLong
    else
      match t.get? (here ++ [name]) with
      | none => .error .missing
      | some .directory => lead t links (here ++ [name]) rest
      | some (.file data) =>
        if rest.isEmpty then .ok (.file (here ++ [name]) data) else .error .notDirectory
      | some (.link target) =>
        match links with
        | 0 => .error .loop
        | links + 1 =>
          if target.head? = some slash then .error .missing
            else lead t links here (namesOf target ++ rest)
termination_by (links, names.length)

def checked (path : Path) : Except Failure Unit :=
  if path.spelling.contains 0 then .error .zeroInPath
  else if pathLimit ≤ path.spelling.length then .error (.system .nameTooLong)
  else if path.isEmpty || path.isRooted then .error (.system .missing)
  else .ok ()

def status (t : Tree) (path : Path) : Except Failure Place := do
  checked path
  (t.lead linkLimit [] (namesOf path.spelling)).mapError .system

/-- Whether there is something; a path that leads nowhere is no failure, other obstacles are. -/
def test (t : Tree) (path : Path) (p : Place → Bool) : Except Failure Bool :=
  match t.status path with
  | .ok found => .ok (p found)
  | .error failure => if failure.kind = .notFound then .ok false else .error failure

def Place.isDirectory : Place → Bool
  | .directory _ => true
  | _ => false

def Place.isFile : Place → Bool
  | .file .. => true
  | _ => false

def leadsToDirectory (t : Tree) (path : Path) : Bool :=
  match t.status path with
  | .ok found => Place.isDirectory found
  | .error _ => false

def openFile (t : Tree) (path : Path) : Except Failure Handle := do
  match ← t.status path with
  | .file _ data => return ⟨.ok data, some Handle.fileReach⟩
  | _ => return ⟨.error (.system .isDirectory), none⟩

structure Spot where
  directory : Names
  name : Bytes
  slashed : Bool

def Spot.isDots (s : Spot) : Bool := s.name = [] || s.name = [dot] || s.name = [dot, dot]

def Spot.names (s : Spot) : Names := s.directory ++ [s.name]

def at? (t : Tree) (s : Spot) : Except Failure (Option TreeNode) :=
  if nameLimit < s.name.length then .error (.system .nameTooLong) else .ok (t.get? s.names)

def spotFrom (t : Tree) (here : Names) (path : Bytes) : Except Failure Spot := do
  let names := (namesOf path).filter fun s => !s.isEmpty
  match ← (t.lead linkLimit here (names.dropLast ++ [[]])).mapError Failure.system with
  | .directory directory => return ⟨directory, names.getLast?.getD [], path.getLast? = some slash⟩
  | _ => throw (.system .missing)

def spot (t : Tree) (path : Path) : Except Failure Spot := do
  checked path
  t.spotFrom [] path.spelling

abbrev Act := ExceptT Failure (StateM Tree)

def fromTree {α : Type} (answer : Tree → Except Failure α) : Act α :=
  ExceptT.mk fun t => (answer t, t)

def putNode (names : Names) (node : TreeNode) : Act Unit := modify fun t => t.set names node

/-- The names of a file to be written, which need not be there. Links are followed at the end of a
path too; a path, or the target of such a link, that can only be a directory's is refused for that
alone. -/
def fileNames (t : Tree) : Nat → Names → Bytes → Except Failure Names
  | 0, _, _ => .error (.system .loop)
  | links + 1, here, path => do
    let spot ← t.spotFrom here path
    if spot.slashed || spot.isDots then throw (.system .isDirectory)
    match ← t.at? spot with
    | some .directory => throw (.system .isDirectory)
    | some (.link target) =>
      if target.head? = some slash then throw (.system .missing)
      fileNames t links spot.directory target
    | _ => return spot.names

def store (path : Path) (data : Bytes) : Act Unit := do
  checked path
  putNode (← fromTree fun t => t.fileNames (linkLimit + 1) [] path.spelling) (.file data)

def makeDirectory (path : Path) : Act Unit := do
  let spot ← fromTree fun t => t.spot path
  if spot.isDots then throw (.system .present)
  if (← fromTree fun t => t.at? spot).isSome then throw (.system .present)
  putNode spot.names .directory

def ensureDirectory (path : Path) : Act Unit := do
  try makeDirectory path
  catch failure =>
    if !(failure.kind = .alreadyExists && (← get).leadsToDirectory path) then throw failure

/-- Makes directories from the longest path whose parent is there on down; the longest path comes
first. -/
def ensureAll : List Path → Act Unit
  | [] => return ()
  | path :: shorter => do
    try ensureDirectory path
    catch failure =>
      if failure.kind ≠ .notFound then throw failure
      ensureAll shorter
      ensureDirectory path

def createDirectory (path : Path) : Act Unit :=
  ensureAll ((path :: path.ancestors).filter fun p => !p.isEmpty)

def writeFile (path : Path) (data : Bytes) : Act Unit := do
  match path.parent? with
  | some parent => createDirectory parent
  | none => pure ()
  store path data

def removeFile (path : Path) : Act Unit := do
  let spot ← fromTree fun t => t.spot path
  if spot.isDots then throw (.system .isDirectory)
  match ← fromTree fun t => t.at? spot with
  | none => throw (.system .missing)
  | some .directory => throw (.system .isDirectory)
  | some _ =>
    if spot.slashed then throw (.system .notDirectory)
    modify fun t => t.remove spot.names

def makeLink (target : Path) (path : Path) : Act Unit := do
  if target.spelling.contains 0 || path.spelling.contains 0 then throw .zeroInPath
  if target.isEmpty then throw (.system .missing)
  if pathLimit ≤ target.spelling.length then throw (.system .nameTooLong)
  let spot ← fromTree fun t => t.spot path
  if spot.isDots then throw (.system .present)
  if (← fromTree fun t => t.at? spot).isSome then throw (.system .present)
  if spot.slashed then throw (.system .missing)
  putNode spot.names (.link target.spelling)

def isEntryOf (names : Names) (entry : Names) : Bool :=
  entry.length == names.length + 1 && names.isPrefixOf entry

/-- Each name with what is behind its links; a link that leads nowhere is noted and left out. -/
def entriesFrom (t : Tree) (directory : Path) :
    List Bytes → Except Failure (List DirEntry) × List Event
  | [] => (.ok [], [])
  | name :: rest =>
    let path := directory.join ⟨name⟩
    match t.status path with
    | .error failure =>
      if failure.kind = .notFound then
        let (entries, events) := entriesFrom t directory rest
        (entries,
          events ++ [⟨.debug, "avspkg::storage::os", "Skipping dangling symlink",
            [("path", path.display)]⟩])
      else (.error failure, [])
    | .ok found =>
      let (entries, events) := entriesFrom t directory rest
      (entries.map (⟨path, if Place.isDirectory found then .directory else .file⟩ :: ·), events)

def readDirectory (t : Tree) (path : Path) : Except Failure (List DirEntry) × Tree :=
  match t.status path with
  | .error failure => (.error failure, t)
  | .ok (.directory names) =>
    let inside := (t.nodes.filter fun entry => isEntryOf names entry.1).map fun entry =>
      entry.1.getLast?.getD []
    let sorted :=
      inside.mergeSort fun a b => (List.compareLex (fun x y => Ord.compare x y) a b).isLE
    let (entries, events) := t.entriesFrom path sorted
    (entries, { t with events := events ++ t.events })
  | .ok _ => (.error (.system .notDirectory), t)

/-- Between two links a walk goes down at most through all nodes, and it passes the limit of links
nowhere. -/
instance : Storage (StateM Tree) where
  exists? path := fromTree fun t => t.test path fun _ => true
  isDirectory path := fromTree fun t => t.test path Place.isDirectory
  isFile path := fromTree fun t => t.test path Place.isFile
  openFile path := fromTree fun t => t.openFile path
  write := writeFile
  createDirectory := createDirectory
  readDirectory path := ExceptT.mk fun t => t.readDirectory path
  removeFile := removeFile
  walkBound := fun t => (Nat.pow (t.nodes.length + 2) ((linkLimit + 2) * (t.nodes.length + 2)), t)
  note event := modify fun t => { t with events := event :: t.events }

end Tree
end Stowage
