import Stowage.Failure
import Stowage.Json.Fault
import Stowage.Registry
import Stowage.Text.Quoted

/-! What can go wrong when packages are checked and backups are handled, sorted into six kinds. -/
namespace Stowage

inductive ErrorKind
  | structural
  | format
  | integrity
  | notExist
  | decode
  | io
deriving DecidableEq

def ErrorKind.name : ErrorKind → String
  | .structural => "structural"
  | .format => "format"
  | .integrity => "integrity"
  | .notExist => "not-exist"
  | .decode => "decode"
  | .io => "io"

inductive Error
  | missingPath (path package : Path)
  | missingEntry (archive : Path) (entry : String)
  | invalidBackupName (name : String)
  | invalidExtension (path : Path)
  | malformedLine (line : Nat) (fault : LineFault)
  | invalidTimestamp (path : Path) (value : String)
  | missingFile (path : Path) (expected : String)
  | mismatch (path : Path) (expected actual : String)
  | notExist (path : Path)
  | malformedDocument (path : Path) (fault : Json.Placed)
  | emptyIdentity (path : Path) (field : String)
  | io (path : Path) (failure : Failure)
deriving DecidableEq

namespace Error

def kind : Error → ErrorKind
  | .missingPath .. => .structural
  | .missingEntry .. => .structural
  | .invalidBackupName .. => .format
  | .invalidExtension .. => .format
  | .malformedLine .. => .format
  | .invalidTimestamp .. => .format
  | .missingFile .. => .integrity
  | .mismatch .. => .integrity
  | .notExist .. => .notExist
  | .malformedDocument .. => .decode
  | .emptyIdentity .. => .decode
  | .io .. => .io

def message : Error → String
  | .missingPath path package =>
    s!"required path {path.display} not found in package {package.display}"
  | .missingEntry archive entry => s!"entry {entry} not found in archive {archive.display}"
  | .invalidBackupName name => s!"invalid backup name: {name}"
  | .invalidExtension path => s!"invalid backup file extension: {path.display}"
  | .malformedLine line fault => s!"malformed checksum registry line {line}: {fault.message}"
  | .invalidTimestamp path value => s!"invalid timestamp {quotedText value} in {path.display}"
  | .missingFile path expected =>
    s!"checksum-listed file {path.display} is missing (expected {expected})"
  | .mismatch path expected actual =>
    s!"checksum mismatch for {path.display}: expected {expected}, got {actual}"
  | .notExist path => s!"{path.display} does not exist"
  | .malformedDocument path fault => s!"failed to decode {path.display}: {fault.message}"
  | .emptyIdentity path field =>
    s!"invalid instance state in {path.display}: {field} must not be empty"
  | .io path failure => s!"I/O error on {path.display}: {failure.message}"

end Error

def failingOn {m : Type → Type} [Monad m] {α : Type} (path : Path) (act : ExceptT Failure m α) :
    ExceptT Error m α :=
  ExceptT.adapt (Error.io path) act

end Stowage
