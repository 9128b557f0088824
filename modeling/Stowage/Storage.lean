import Stowage.Failure
import Stowage.Log.Event

/-! What the library asks of a place where files are kept. A file is opened before it is read, and a
handle may turn out unreadable; a walk needs to know how many directories it may meet at most. -/
namespace Stowage

inductive EntryKind
  | file
  | directory
deriving DecidableEq

structure DirEntry where
  path : Path
  kind : EntryKind
deriving DecidableEq

namespace DirEntry

def isFile (e : DirEntry) : Bool := e.kind == .file

def isDirectory (e : DirEntry) : Bool := e.kind == .directory

end DirEntry

/-- An open file: what reading it to the end gives, and the last place that reading can be moved to,
if there is one. -/
structure Handle where
  content : Except Failure Bytes
  reach : Option Nat

namespace Handle

/-- The end of the largest file, whose blocks of 4096 octets have numbers of 32 bits. -/
def fileReach : Nat := 0xffffffff * 4096

end Handle

class Storage (m : Type → Type) where
  exists? : Path → ExceptT Failure m Bool
  isDirectory : Path → ExceptT Failure m Bool
  isFile : Path → ExceptT Failure m Bool
  openFile : Path → ExceptT Failure m Handle
  write : Path → Bytes → ExceptT Failure m Unit
  createDirectory : Path → ExceptT Failure m Unit
  readDirectory : Path → ExceptT Failure m (List DirEntry)
  removeFile : Path → ExceptT Failure m Unit
  /-- No walk meets more directories than this. -/
  walkBound : m Nat
  note : Event → m Unit

namespace Storage

variable {m : Type → Type} [Monad m] [Storage m]

def read (path : Path) : ExceptT Failure m Bytes := do
  let handle ← openFile path
  handle.content

/-- The files of the pending directories and of those below them; the directory found last is read
next. -/
def walkFrom : Nat → List Path → List Path → ExceptT Failure m (List Path)
  | _, [], files => return files
  | 0, _ :: _, _ => throw (.system .loop)
  | fuel + 1, directory :: pending, files => do
    let entries ← readDirectory directory
    let directories := (entries.filter DirEntry.isDirectory).map DirEntry.path
    let found := (entries.filter DirEntry.isFile).map DirEntry.path
    walkFrom fuel (directories.reverse ++ pending) (files ++ found)

def walk (directory : Path) : ExceptT Failure m (List Path) := do
  let bound ← (walkBound : m Nat)
  let files ← walkFrom bound [directory] []
  return files.mergeSort Path.le

end Storage
end Stowage
