import Stowage.Backup.Create
import Stowage.Text.Blank

/-! What an archive says of its backup: the state of the instance and the time, each read through a
handle of its own, wherever they stand in the archive. -/
namespace Stowage

def stateEntryName : String := "data/state.json"

inductive EntryError
  | absent (entry : String)
  | unreadable (failure : Failure)
deriving DecidableEq

def EntryError.message : EntryError → String
  | .absent entry => s!"entry {entry} not found in archive"
  | .unreadable failure => s!"failed to read archive: {failure.message}"

def Archive.readEntry (handle : Handle) (entry : String) : Except EntryError Bytes :=
  match handle.content with
  | .error failure => .error (.unreadable failure)
  | .ok bs =>
    match Archive.find? ⟨bs, handle.reach⟩ (.ofString entry) with
    | .error fault => .error (.unreadable (.badArchive fault))
    | .ok none => .error (.absent entry)
    | .ok (some data) => .ok data

def EntryError.inArchive (archive : Path) : EntryError → Error
  | .absent entry => .missingEntry archive entry
  | .unreadable failure => .io archive failure

namespace Backup

variable {m : Type → Type} [Monad m] [Storage m]

def extractEntry (archive : Path) (entry : String) : ExceptT Error m Bytes := do
  let handle ← failingOn archive (Storage.openFile archive)
  ExceptT.mk (pure ((Archive.readEntry handle entry).mapError (EntryError.inArchive archive)))

def readState (archive : Path) : ExceptT Error m Instance := do
  let bytes ← extractEntry archive stateEntryName
  ExceptT.mk (pure (Instance.ofJson bytes (archive.joinText stateEntryName)))

def readTime (archive : Path) : ExceptT Error m Moment := do
  let bytes ← extractEntry archive timeEntryName
  let value := trim (Utf8.decodeLossy bytes)
  match Moment.ofDecimal? value with
  | some time => return time
  | none => throw (.invalidTimestamp archive (String.ofList value))

def hasExtension (path : Path) : Bool := path.extension? == some (Utf8.ofString backupExtension)

def inspect (archive : Path) : ExceptT Error m Backup := do
  if !(← failingOn archive (Storage.isFile archive)) then throw (.notExist archive)
  if !hasExtension archive then throw (.invalidExtension archive)
  let i ← readState archive
  let time ← readTime archive
  ExceptT.lift (Storage.note ⟨.debug, "avspkg::backup::reader", "Loaded backup metadata",
    [("archive", archive.display), ("instance_id", i.id), ("timestamp", toString time.seconds)]⟩)
  return ofInstance i time

end Backup
end Stowage
