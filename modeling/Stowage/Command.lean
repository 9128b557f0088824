import Stowage.Backup.Catalogue
import Stowage.Log
import Stowage.Package
import Stowage.Settings

/-! The commands of the program. A command works on the storage and prints lines. -/
namespace Stowage

inductive CommandError
  | library (error : Error)
  | settings (error : SettingsError)
  | settingsPresent (path : Path)
  | logging (error : LoggingError)
deriving DecidableEq

namespace CommandError

def message : CommandError → String
  | .library e => s!"{e.kind.name} error: {e.message}"
  | .settings e => s!"Configuration error: {e.message}"
  | .settingsPresent path =>
    s!"Configuration error: {path.display} already exists. Use --force to overwrite it."
  | .logging e => s!"Logging error: {e.message}"

def source? : CommandError → Option String
  | .library e => some e.message
  | .logging e => some e.message
  | _ => none

end CommandError

class Console (m : Type → Type) where
  print : String → m Unit

inductive Command
  | checkPackage (directory : Path) (skipChecksums : Bool)
  | writeChecksums (directory : Path)
  | createBackup (id : String) (directory output : Option Path)
  | inspectBackup (file : Path)
  | listBackups (directory : Option Path)
  | parseName (name : String)
  | settingsPath
  | showSettings
  | initSettings (force : Bool)
deriving DecidableEq

structure Context where
  settings : Settings
  settingsPath : Path
  now : Moment

namespace Command

variable {m : Type → Type} [Monad m] [Storage m] [Console m]

def say (lines : List String) : ExceptT CommandError m Unit :=
  ExceptT.lift (lines.forM Console.print)

def ofLibrary {α : Type} (act : ExceptT Error m α) : ExceptT CommandError m α :=
  ExceptT.adapt .library act

def checkPackageIn (settings : Settings) (directory : Path) (skipChecksums : Bool) :
    ExceptT CommandError m Unit := do
  let package : Package := ⟨directory, settings.verifyChecksums && !skipChecksums⟩
  match ← ofLibrary package.check with
  | .verified files => say [s!"✓ Package {directory.display} verified ({files} files checked)"]
  | .unverified => say [s!"✓ Package {directory.display} is valid (checksums not verified)"]

def writeChecksumsIn (directory : Path) : ExceptT CommandError m Unit := do
  let package : Package := { root := directory }
  let files ← ofLibrary package.writeRegistry
  say [s!"Wrote {package.registryPath.display} with {files.length} entries"]

def createBackupOf (ctx : Context) (id : String) (directory output : Option Path) :
    ExceptT CommandError m Unit := do
  let directory := directory.getD (ctx.settings.instanceDirectory id)
  let backups := output.getD ctx.settings.backups
  let created ← ofLibrary (Backup.create directory backups ctx.now)
  if created.backup.instanceId ≠ id then
    ExceptT.lift (Storage.note ⟨.warn, "avspkg::commands::backup",
      "Instance state belongs to a different id",
      [("requested", id), ("found", created.backup.instanceId)]⟩)
  say [s!"Created backup {created.path.display}", s!"  ID: {created.backup.id}"]

def inspectBackupIn (file : Path) : ExceptT CommandError m Unit := do
  let backup ← ofLibrary (Backup.inspect file)
  say [
    s!"Backup {file.display}",
    s!"  ID:        {backup.id}",
    s!"  Instance:  {backup.instanceId}",
    s!"  Timestamp: {backup.time.zuluText}",
    s!"  Version:   {backup.version}",
    s!"  Commit:    {backup.commit}",
    s!"  URL:       {backup.url}"]

def listBackupsIn (directory : Path) : ExceptT CommandError m Unit := do
  let backups ← ofLibrary (Backup.list directory)
  if backups.isEmpty then say [s!"No backups found in {directory.display}"]
  else
    say (backups.map fun b => s!"{b.time.zuluText}  {b.instanceId}  {(b.pathIn directory).display}")

def tellName (name : String) : ExceptT CommandError m Unit := do
  let parsed ← ofLibrary (ExceptT.mk (pure (BackupName.parse name)))
  say [s!"Instance:  {parsed.instanceId}",
    s!"Timestamp: {parsed.time.seconds} ({parsed.time.zuluText})"]

def showSettingsOf (ctx : Context) : ExceptT CommandError m Unit := do
  say [s!"# {ctx.settingsPath.display}"]
  let text ← ExceptT.mk (pure (ctx.settings.serialize.mapError CommandError.settings))
  say [String.ofList (trimEnd text)]

def writeSettings (ctx : Context) (force : Bool) : ExceptT CommandError m Unit := do
  let present ← ExceptT.lift (Storage.exists? ctx.settingsPath).run
  if (present.toOption.getD false) && !force then throw (.settingsPresent ctx.settingsPath)
  ExceptT.adapt CommandError.settings (ctx.settings.save ctx.settingsPath)
  say [s!"✓ Wrote {ctx.settingsPath.display}"]

def run (ctx : Context) : Command → ExceptT CommandError m Unit
  | .checkPackage directory skip => checkPackageIn ctx.settings directory skip
  | .writeChecksums directory => writeChecksumsIn directory
  | .createBackup id directory output => createBackupOf ctx id directory output
  | .inspectBackup file => inspectBackupIn file
  | .listBackups directory => listBackupsIn (directory.getD ctx.settings.backups)
  | .parseName name => tellName name
  | .settingsPath => say [ctx.settingsPath.display]
  | .showSettings => showSettingsOf ctx
  | .initSettings force => writeSettings ctx force

end Command

/-- Lines that have been printed, the last one first. -/
abbrev Transcript (m : Type → Type) := StateT (List String) m

instance {m : Type → Type} [Monad m] : Console (Transcript m) where
  print line := modify (line :: ·)

def Transcript.onStorage {m : Type → Type} [Monad m] {α : Type} (act : ExceptT Failure m α) :
    ExceptT Failure (Transcript m) α :=
  ExceptT.mk (StateT.lift act.run)

instance {m : Type → Type} [Monad m] [Storage m] : Storage (Transcript m) where
  exists? path := Transcript.onStorage (Storage.exists? path)
  isDirectory path := Transcript.onStorage (Storage.isDirectory path)
  isFile path := Transcript.onStorage (Storage.isFile path)
  openFile path := Transcript.onStorage (Storage.openFile path)
  write path data := Transcript.onStorage (Storage.write path data)
  createDirectory path := Transcript.onStorage (Storage.createDirectory path)
  readDirectory path := Transcript.onStorage (Storage.readDirectory path)
  removeFile path := Transcript.onStorage (Storage.removeFile path)
  walkBound := StateT.lift Storage.walkBound
  note event := StateT.lift (Storage.note event)

def Command.perform {m : Type → Type} [Monad m] [Storage m] (ctx : Context) (command : Command) :
    m (Except CommandError Unit × List String) := do
  let act : Transcript m (Except CommandError Unit) := (command.run ctx).run
  let (result, printed) ← act []
  return (result, printed.reverse)

end Stowage
