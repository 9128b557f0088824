import Stowage.Digest
import Stowage.Error
import Stowage.Instance
import Stowage.Moment

/-! What is known of a backup, and the name of its file: the id of the instance, the seconds since
1970 and an extension. The id of a backup is the digest of what identifies it, which the URL does
not. -/
namespace Stowage

def backupExtension : String := "tar"

def backupFileName (instanceId : String) (time : Moment) : String :=
  s!"{instanceId}-{time.seconds}.{backupExtension}"

structure BackupName where
  instanceId : String
  time : Moment
deriving DecidableEq

namespace BackupName

def fileName (n : BackupName) : String := backupFileName n.instanceId n.time

def pathIn (n : BackupName) (directory : Path) : Path := directory.joinText n.fileName

def compare (a b : BackupName) : Ordering :=
  (Ord.compare a.instanceId b.instanceId).then (a.time.compare b.time)

def sorted (names : List BackupName) : List BackupName :=
  names.mergeSort fun a b => (a.compare b).isLE

def compareAge (a b : BackupName) : Ordering :=
  (a.time.compare b.time).then (Ord.compare a.instanceId b.instanceId)

def dropExtension? (reversed : List Char) : Option (List Char) :=
  if ['r', 'a', 't', '.'].isPrefixOf reversed then some (reversed.drop 4) else none

/-- Id and digits: the last hyphen stands before nothing but digits, and the id is on one line. -/
def parts? (cs : List Char) : Option (List Char × List Char) := do
  let reversed ← dropExtension? cs.reverse
  let digits := reversed.takeWhile isDigit
  if digits.isEmpty then none
  match reversed.drop digits.length with
  | '-' :: front => if front.contains '\n' then none else some (front.reverse, digits.reverse)
  | _ => none

def ofText? (cs : List Char) : Option BackupName := do
  let (id, digits) ← parts? cs
  return ⟨String.ofList id, ← Moment.ofDecimal? digits⟩

def parse (name : String) : Except Error BackupName :=
  match ofText? name.toList with
  | some n => .ok n
  | none => .error (.invalidBackupName name)

end BackupName

structure Backup where
  instanceId : String
  time : Moment
  version : String
  commit : String
  url : String
deriving DecidableEq

namespace Backup

def ofInstance (i : Instance) (time : Moment) : Backup := ⟨i.id, time, i.version, i.commit, i.url⟩

def identity (b : Backup) : String := s!"{b.instanceId}-{b.time.seconds}-{b.version}-{b.commit}"

def id (b : Backup) : String := digest (Utf8.ofString b.identity)

def fileName (b : Backup) : String := backupFileName b.instanceId b.time

def display (b : Backup) : String :=
  s!"{b.instanceId} {b.version} ({b.commit}) at {b.time.offsetText}"

end Backup
end Stowage
