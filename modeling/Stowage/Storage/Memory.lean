import Stowage.Storage
import Stowage.Storage.Nodes

/-! Files kept in memory, as nodes under their paths. Access to a path can be denied, and opened
files are counted. -/
namespace Stowage

structure Memory where
  nodes : Nodes := .empty
  denied : List Path := []
  opens : Nat := 0
deriving DecidableEq

namespace Memory

def get? (s : Memory) (path : Path) : Option Node := s.nodes.get? path

def isDenied (s : Memory) (path : Path) : Bool := s.denied.any fun p => p.same path

def allowed (s : Memory) (path : Path) : Except Failure Unit :=
  if s.isDenied path then .error (.denied path) else .ok ()

/-- Directories for the ancestors, the nearest first. Those made before a file is met are kept. -/
def insertAncestors (nodes : Nodes) : List Path → Except Failure Unit × Nodes
  | [] => (.ok (), nodes)
  | ancestor :: rest =>
    if ancestor.isEmpty then insertAncestors nodes rest
    else match nodes.get? ancestor with
      | some .directory => insertAncestors nodes rest
      | some (.file _) => (.error (.fileAbove ancestor), nodes)
      | none => insertAncestors (nodes.insert ancestor .directory) rest

def put (s : Memory) (path : Path) (node : Node) : Except Failure Unit × Memory :=
  match insertAncestors s.nodes path.ancestors with
  | (.error failure, nodes) => (.error failure, { s with nodes })
  | (.ok (), nodes) => (.ok (), { s with nodes := nodes.insert path node })

def writeFile (s : Memory) (path : Path) (data : Bytes) : Except Failure Unit × Memory :=
  match s.allowed path, s.get? path with
  | .error failure, _ => (.error failure, s)
  | .ok (), some .directory => (.error (.directory path), s)
  | .ok (), _ => s.put path (.file data)

def createDirectory (s : Memory) (path : Path) : Except Failure Unit × Memory :=
  match s.allowed path, s.get? path with
  | .error failure, _ => (.error failure, s)
  | .ok (), some (.file _) => (.error (.fileThere path), s)
  | .ok (), _ => s.put path .directory

def removeFile (s : Memory) (path : Path) : Except Failure Unit × Memory :=
  match s.allowed path, s.get? path with
  | .error failure, _ => (.error failure, s)
  | .ok (), some (.file _) => (.ok (), { s with nodes := s.nodes.erase path })
  | .ok (), some .directory => (.error (.directory path), s)
  | .ok (), none => (.error (.absent path), s)

def fileContent (s : Memory) (path : Path) : Except Failure Bytes :=
  match s.allowed path, s.get? path with
  | .error failure, _ => .error failure
  | .ok (), some (.file data) => .ok data
  | .ok (), some .directory => .error (.directory path)
  | .ok (), none => .error (.absent path)

def isChild (directory path : Path) : Bool :=
  (path.parent?.map fun p => p.same directory).getD false

def children (s : Memory) (directory : Path) : List DirEntry :=
  (s.nodes.entries.filter fun entry => isChild directory entry.1).map fun (path, node) =>
    ⟨path, match node with | .file _ => .file | .directory => .directory⟩

def readDirectory (s : Memory) (path : Path) : Except Failure (List DirEntry) :=
  match s.allowed path, s.get? path with
  | .error failure, _ => .error failure
  | .ok (), some .directory => .ok (s.children path)
  | .ok (), some (.file _) => .error (.notDirectory path)
  | .ok (), none => .error (.absent path)

def ask {α : Type} (s : Memory) (path : Path) (answer : Option Node → α) : Except Failure α :=
  (s.allowed path).map fun _ => answer (s.get? path)

def deny (s : Memory) (path : Path) : Memory := { s with denied := path :: s.denied }

def query {α : Type} (answer : Memory → Except Failure α) : ExceptT Failure (StateM Memory) α :=
  ExceptT.mk fun s => (answer s, s)

def change (act : Memory → Except Failure Unit × Memory) : ExceptT Failure (StateM Memory) Unit :=
  ExceptT.mk act

/-- Events are of no interest in memory, and every directory that a walk meets is a node of its
own. -/
instance : Storage (StateM Memory) where
  exists? path := query fun s => s.ask path Option.isSome
  isDirectory path := query fun s => s.ask path fun node => decide (node = some .directory)
  isFile path := query fun s => s.ask path fun node => node.any fun n => decide (n ≠ .directory)
  openFile path := ExceptT.mk fun s =>
    let opened := { s with opens := s.opens + 1 }
    ((s.fileContent path).map fun data => ⟨.ok data, none⟩, opened)
  write path data := change fun s => s.writeFile path data
  createDirectory path := change fun s => s.createDirectory path
  readDirectory path := query fun s => s.readDirectory path
  removeFile path := change fun s => s.removeFile path
  walkBound := fun s => (s.nodes.size + 1, s)
  note _ := pure ()

end Memory
end Stowage
