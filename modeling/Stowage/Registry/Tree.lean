import Stowage.Error
import Stowage.Storage

/-! A registry and the files that it lists: reading it, checking the files in the order of their
lines, and listing the files of a directory anew. -/
namespace Stowage

variable {m : Type → Type} [Monad m]

def Handle.digest (h : Handle) : ExceptT Failure m String :=
  ExceptT.mk <| pure <| digestReadings <| match h.content with
    | .ok bs => [.octets bs]
    | .error failure => [.failed failure]

variable [Storage m]

namespace Registry

def target : String := "avspkg::checksum::registry"

def parseText (text : List Char) : Except Error (List ListedFile) :=
  match parse text with
  | .ok files => .ok files
  | .error (number, fault) => .error (.malformedLine number fault)

def load (root : Path) : ExceptT Error m (Option (List ListedFile)) := do
  let path := root.joinText registryFileName
  let readings ← ExceptT.lift (Storage.read path).run
  match readings with
  | .error failure =>
    if failure.kind = .notFound then
      ExceptT.lift (Storage.note ⟨.debug, target, "No checksum registry present",
        [("path", path.display)]⟩)
      return none
    throw (.io path failure)
  | .ok bytes =>
    match Utf8.decode? bytes, Utf8.fault? bytes with
    | some text, _ => return some (← parseText text)
    | none, fault => throw (.io path (.badText (fault.getD ⟨0, none⟩)))

def verifyFile (root : Path) (file : ListedFile) : ExceptT Error m Unit := do
  let path := root.join file.path
  let opening (f : Failure) : Error :=
    if f.kind = .notFound then .missingFile file.path file.digest else .io path f
  let handle ← ExceptT.adapt opening (Storage.openFile path)
  let actual ← failingOn path handle.digest
  if actual ≠ file.digest then throw (.mismatch file.path file.digest actual)

def verifyAll (root : Path) : List ListedFile → ExceptT Error m Unit
  | [] => return ()
  | file :: rest => do
    verifyFile root file
    verifyAll root rest

def verify (root : Path) (files : List ListedFile) : ExceptT Error m Unit := do
  verifyAll root files
  ExceptT.lift (Storage.note
    ⟨.debug, target, "Checksum registry verified",
      [("root", root.display), ("files", toString files.length)]⟩)

def listFile (root path : Path) : ExceptT Error m ListedFile := do
  let handle ← failingOn path (Storage.openFile path)
  let digest ← failingOn path handle.digest
  return .ofText ((path.below? root).getD path) digest.toList

def listAll (root : Path) : List Path → ExceptT Error m (List ListedFile)
  | [] => return []
  | path :: rest => do
    let file ← listFile root path
    return file :: (← listAll root rest)

def generate (root directory : Path) : ExceptT Error m (List ListedFile) := do
  let base := root.join directory
  listAll root (← failingOn base (Storage.walk base))

end Registry
end Stowage
