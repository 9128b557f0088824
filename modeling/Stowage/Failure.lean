import Stowage.Archive.Reader
import Stowage.Archive.Writer

/-! Why octets could not be read or written: the causes, the class that each belongs to, and its
message. -/
namespace Stowage

inductive FailureKind
  | notFound
  | permissionDenied
  | alreadyExists
  | invalidInput
  | invalidData
  | interrupted
  | unexpectedEnd
  | notDirectory
  | isDirectory
  | filesystemLoop
  | invalidFilename
  | other
deriving DecidableEq

structure SystemError where
  code : Nat
  text : String
deriving DecidableEq

namespace SystemError

def missing : SystemError := ⟨2, "No such file or directory"⟩
def denied : SystemError := ⟨13, "Permission denied"⟩
def present : SystemError := ⟨17, "File exists"⟩
def notDirectory : SystemError := ⟨20, "Not a directory"⟩
def isDirectory : SystemError := ⟨21, "Is a directory"⟩
def nameTooLong : SystemError := ⟨36, "File name too long"⟩
def loop : SystemError := ⟨40, "Too many levels of symbolic links"⟩

def common : List SystemError :=
  [missing, denied, present, notDirectory, isDirectory, nameTooLong, loop]

def ofCode (code : UInt32) (text : String) : SystemError :=
  let code := if 0x80000000 ≤ code then (0 - code).toNat else code.toNat
  (common.find? fun e => e.code == code).getD ⟨code, text⟩

def kind (e : SystemError) : FailureKind :=
  match e.code with
  | 1 => .permissionDenied
  | 2 => .notFound
  | 4 => .interrupted
  | 13 => .permissionDenied
  | 17 => .alreadyExists
  | 20 => .notDirectory
  | 21 => .isDirectory
  | 22 => .invalidInput
  | 36 => .invalidFilename
  | 40 => .filesystemLoop
  | _ => .other

def message (e : SystemError) : String := s!"{e.text} (os error {e.code})"

end SystemError

inductive Failure
  | absent (path : Path)
  | denied (path : Path)
  | directory (path : Path)
  | notDirectory (path : Path)
  | fileAbove (path : Path)
  | fileThere (path : Path)
  | system (error : SystemError)
  | zeroInPath
  | notText
  | badText (fault : Utf8.Fault)
  | backupExists
  | unstorable (fault : Archive.WriteFault)
  | badArchive (fault : Archive.ReadFault)
  | interrupted
  | unexpectedEnd
deriving DecidableEq

namespace Failure

def kind : Failure → FailureKind
  | .absent _ => .notFound
  | .denied _ => .permissionDenied
  | .directory _ => .other
  | .notDirectory _ => .other
  | .fileAbove _ => .other
  | .fileThere _ => .alreadyExists
  | .system e => e.kind
  | .zeroInPath => .invalidInput
  | .notText => .invalidData
  | .badText _ => .invalidData
  | .backupExists => .alreadyExists
  | .unstorable _ => .other
  | .badArchive fault => if fault = .outOfReach then .invalidInput else .other
  | .interrupted => .interrupted
  | .unexpectedEnd => .unexpectedEnd

def message : Failure → String
  | .absent path => s!"{path.display} not found"
  | .denied path => s!"access to {path.display} denied"
  | .directory path => s!"{path.display} is a directory"
  | .notDirectory path => s!"{path.display} is not a directory"
  | .fileAbove path => s!"{path.display} is a file"
  | .fileThere path => s!"{path.display} is a file"
  | .system e => e.message
  | .zeroInPath => "file name contained an unexpected NUL byte"
  | .notText => "stream did not contain valid UTF-8"
  | .badText fault => fault.message
  | .backupExists => "backup already exists"
  | .unstorable fault => fault.message
  | .badArchive fault => fault.message
  | .interrupted => "operation interrupted"
  | .unexpectedEnd => "unexpected end of file"

end Failure
end Stowage
