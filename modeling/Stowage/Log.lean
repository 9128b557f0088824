import Stowage.Log.Filter
import Stowage.Storage

/-! Where log events go: those that the filter lets through are lines of the error output, and of a
file if one is set. The file's directory is made, and lines are added at the file's end. -/
namespace Stowage

inductive LoggingError
  | invalidLevel (level : String) (fault : FilterFault)
  | invalidFile (path : Path)
  | noDirectory (path : Path) (failure : Failure)
deriving DecidableEq

def LoggingError.message : LoggingError → String
  | .invalidLevel level fault => s!"Invalid log level '{level}': {fault.message}"
  | .invalidFile path => s!"Invalid log file path {path.display}"
  | .noDirectory path failure =>
    s!"Failed to create log directory {path.display}: {failure.message}"

structure Logging where
  filter : Filter
  file : Option Path

namespace Logging

def chooseFilter (override : Option Bytes) (level : String) : Except LoggingError Filter :=
  let chosen := (override.bind Utf8.toString?).bind fun text => (Filter.parse text).toOption
  match chosen with
  | some filter => .ok filter
  | none => (Filter.parse level).mapError (.invalidLevel level)

def place (file : Path) : Except LoggingError (Path × Path) :=
  match file.fileName? with
  | none => .error (.invalidFile file)
  | some name =>
    let directory := match file.parent? with
      | some parent => if parent.isEmpty then Path.ofString "." else parent
      | none => Path.ofString "."
    .ok (directory, directory.join ⟨name⟩)

variable {m : Type → Type} [Monad m] [Storage m]

def append (file : Path) (bs : Bytes) : m Unit := do
  let held ← (Storage.read file).run
  let _ ← (Storage.write file (held.toOption.getD [] ++ bs)).run

def start (override : Option Bytes) (level : String) (file : Option Path) :
    ExceptT LoggingError m Logging := do
  let filter ← chooseFilter override level
  match file with
  | none => return ⟨filter, none⟩
  | some path =>
    let (directory, file) ← place path
    ExceptT.adapt (LoggingError.noDirectory directory) (Storage.createDirectory directory)
    ExceptT.lift (append file [])
    return ⟨filter, some file⟩

def finish (l : Logging) (stamp : String) (events : List Event) : m (List String) := do
  let shown := events.filter l.filter.lets
  match l.file with
  | some file =>
    append file (Utf8.ofString (String.join (shown.map fun e => s!"{stamp} {e.text true}\n")))
  | none => pure ()
  return shown.map fun e => s!"{stamp} {e.text false}"

end Logging
end Stowage
