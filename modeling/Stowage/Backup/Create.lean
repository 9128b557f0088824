import Stowage.Backup
import Stowage.Instance.State

/-! Taking a backup: the time comes first in the archive, then every file of the instance below
`data`. Nothing is written before the whole archive is made, and no archive is replaced. -/
namespace Stowage

def dataDirectoryName : String := "data"
def timeEntryName : String := "timestamp"

def entryName (path : Path) : String :=
  String.ofList (dataDirectoryName.toList ++ path.components.flatMap fun c =>
    '/' :: Utf8.decodeLossy c.octets)

structure CreatedBackup where
  backup : Backup
  path : Path
deriving DecidableEq

namespace Backup

def createTarget : String := "avspkg::backup::writer"

variable {m : Type → Type} [Monad m] [Storage m]

def storable {α : Type} (made : Except Archive.WriteFault α) : ExceptT Failure m α :=
  ExceptT.mk (pure (made.mapError Failure.unstorable))

def timeMember (seconds : Nat) : Except Archive.WriteFault Bytes :=
  Archive.member seconds (.ofString timeEntryName) (ascii (toString seconds))

def fileMembers (directory archive : Path) (seconds : Nat) : List Path → ExceptT Error m Bytes
  | [] => return []
  | file :: rest => do
    let entry := entryName ((file.below? directory).getD file)
    let data ← failingOn file (Storage.read file)
    ExceptT.lift (Storage.note
      ⟨.debug, createTarget, "Adding file to backup",
        [("entry", entry), ("size", toString data.length)]⟩)
    let member ← failingOn archive (storable (Archive.member seconds (.ofString entry) data))
    return member ++ (← fileMembers directory archive seconds rest)

def create (directory backups : Path) (now : Moment) : ExceptT Error m CreatedBackup := do
  let time := now.wholeSecond
  if time.seconds < 0 then throw (.invalidTimestamp backups (toString time.seconds))
  let seconds := time.seconds.toNat
  let backup := ofInstance (← Instance.load directory) time
  let path := backups.joinText backup.fileName
  if ← failingOn path (Storage.exists? path) then throw (.io path .backupExists)
  let files ← failingOn directory (Storage.walk directory)
  let first ← failingOn path (storable (timeMember seconds))
  let others ← fileMembers directory path seconds files
  failingOn path (Storage.write path (first ++ others ++ Archive.ending))
  ExceptT.lift (Storage.note ⟨.info, createTarget, "Created backup",
    [("instance_id", backup.instanceId), ("archive", path.display),
      ("files", toString files.length)]⟩)
  return ⟨backup, path⟩

end Backup
end Stowage
