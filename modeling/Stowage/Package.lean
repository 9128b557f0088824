import Stowage.Registry.Tree

/-! A staged package: a directory with its files below `pkg` and, next to that, a registry of their
digests. -/
namespace Stowage

structure Package where
  root : Path
  verifyChecksums : Bool := true
deriving DecidableEq

inductive PackageStatus
  | verified (files : Nat)
  | unverified
deriving DecidableEq

def PackageStatus.isVerified : PackageStatus → Bool
  | .verified _ => true
  | .unverified => false

def packageDirectoryName : String := "pkg"
def manifestFileName : String := "manifest.yml"

namespace Package

def directory (p : Package) : Path := p.root.joinText packageDirectoryName

def registryPath (p : Package) : Path := p.root.joinText registryFileName

def manifestPath (p : Package) : Path := p.directory.joinText manifestFileName

def target : String := "avspkg::package::handler"

variable {m : Type → Type} [Monad m] [Storage m]

def noteThat (level : Level) (message : String) (fields : List (String × String)) :
    ExceptT Error m Unit :=
  ExceptT.lift (Storage.note ⟨level, target, message, fields⟩)

def check (p : Package) : ExceptT Error m PackageStatus := do
  let present ← failingOn p.directory (Storage.isDirectory p.directory)
  if !present then throw (.missingPath (.ofString packageDirectoryName) p.root)
  let package := [("package", p.root.display)]
  if !p.verifyChecksums then
    noteThat .debug "Checksum verification disabled" package
    return .unverified
  match ← Registry.load p.root with
  | none =>
    noteThat .info "Package has no checksum registry, skipping integrity check" package
    return .unverified
  | some files =>
    Registry.verify p.root files
    return .verified files.length

def writeRegistry (p : Package) : ExceptT Error m (List ListedFile) := do
  let files ← Registry.generate p.root (.ofString packageDirectoryName)
  failingOn p.registryPath (Storage.write p.registryPath (Utf8.encode (Registry.print files)))
  noteThat .info "Checksum registry written" [("package", p.root.display),
    ("files", toString files.length)]
  return files

end Package
end Stowage
