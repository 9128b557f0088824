import Stowage.Backup.Inspect

/-! The backups of a directory, told by the names of its files alone. Other files are passed over,
and a directory that is not there holds no backup. -/
namespace Stowage.Backup

variable {m : Type → Type} [Monad m] [Storage m]

def entryBackup? (entry : DirEntry) : m (Option BackupName) :=
  if entry.isFile && hasExtension entry.path then
    match entry.path.fileNameText? with
    | none => return none
    | some name =>
      match BackupName.parse name with
      | .ok parsed => return some parsed
      | .error e => do
        Storage.note ⟨.debug, "avspkg::backup::catalog", "Skipping unrecognized archive",
          [("file", name), ("error", e.message)]⟩
        return none
  else return none

def entryBackups : List DirEntry → m (List BackupName)
  | [] => return []
  | entry :: rest => do
    let found ← entryBackup? entry
    return found.toList ++ (← entryBackups rest)

def list (directory : Path) : ExceptT Error m (List BackupName) := do
  match ← ExceptT.lift (Storage.readDirectory directory).run with
  | .error failure => if failure.kind = .notFound then return [] else throw (.io directory failure)
  | .ok entries =>
    let backups ← ExceptT.lift (entryBackups entries)
    return backups.mergeSort fun a b => (a.compareAge b).isLE

end Stowage.Backup
