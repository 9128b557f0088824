import Stowage.Ini.Reader
import Stowage.Ini.Writer
import Stowage.Storage

/-! The program's settings: where they come from, the defaults that the environment gives, their
text, and the file that keeps it. A file that is not there leaves the defaults; sections and keys
that are not known are passed over. -/
namespace Stowage

def programName : String := "avspkg"

structure Environment where
  home : Option Path := none
  configHome : Option Path := none
  dataHome : Option Path := none
deriving DecidableEq

namespace Environment

/-- A directory that is named counts only if it has a root; else it is one below the home. -/
def directory? (e : Environment) (named : Option Path) (below : String) : Option Path :=
  match named.filter Path.isRooted with
  | some path => some path
  | none => e.home.map fun home => home.joinText below

def settingsPath? (e : Environment) : Option Path :=
  (e.directory? e.configHome ".config").map fun d => (d.joinText programName).joinText "config.ini"

def dataDirectory (e : Environment) : Path :=
  ((e.directory? e.dataHome ".local/share").getD (.ofString ".")).joinText programName

end Environment

structure Settings where
  dataDirectory : Path
  backupsDirectory : Option Path := none
  verifyChecksums : Bool := true
  level : String := "info"
  logFile : Option Path := none
deriving DecidableEq

inductive SettingsTarget
  | file (path : Path)
  | buffer
deriving DecidableEq

inductive SettingsError
  | unreadable (path : Path) (failure : Failure)
  | malformed (fault : Ini.Fault)
  | invalidValue (sectionName key value : String)
  | unwritable (target : SettingsTarget) (failure : Failure)
  | noDirectory
deriving DecidableEq

def SettingsError.message : SettingsError → String
  | .unreadable path failure => s!"Failed to read config file {path.display}: {failure.message}"
  | .malformed fault => s!"Failed to parse config file: {fault.message}"
  | .invalidValue sectionName key value =>
    s!"Invalid value '{value}' for {sectionName}.{key}: expected true or false"
  | .unwritable (.file path) failure =>
    s!"Failed to write config file {path.display}: {failure.message}"
  | .unwritable .buffer failure => s!"Failed to serialize configuration: {failure.message}"
  | .noDirectory => "Could not determine the user configuration directory"

namespace Settings

def default (e : Environment) : Settings := { dataDirectory := e.dataDirectory }

def backups (s : Settings) : Path := s.backupsDirectory.getD (s.dataDirectory.joinText "backups")

def instanceDirectory (s : Settings) (id : String) : Path :=
  (s.dataDirectory.joinText "nodes").joinText id

def samePath? : Option Path → Option Path → Bool
  | some p, some q => p.same q
  | none, none => true
  | _, _ => false

def same (s t : Settings) : Bool :=
  s.dataDirectory.same t.dataDirectory && samePath? s.backupsDirectory t.backupsDirectory &&
    s.verifyChecksums == t.verifyChecksums && s.level == t.level && samePath? s.logFile t.logFile

def asciiLowerChar (c : Char) : Char := if 'A' ≤ c && c ≤ 'Z' then Char.ofNat (c.toNat + 32) else c

def bool? (cs : List Char) : Option Bool :=
  let word := String.ofList (cs.map asciiLowerChar)
  if ["true", "yes", "on", "1"].contains word then some true
  else if ["false", "no", "off", "0"].contains word then some false
  else none

def setting? (ini : Ini) (name key : String) : Option (List Char) :=
  ((ini.value? name key).map trim).filter fun cs => !cs.isEmpty

def ofChars (cs : List Char) : Path := ⟨Utf8.encode cs⟩

def ofIni (e : Environment) (ini : Ini) : Except SettingsError Settings := do
  let start := default e
  let verify ← match setting? ini "packages" "verify_checksums" with
    | none => pure start.verifyChecksums
    | some cs =>
      match bool? cs with
      | some b => pure b
      | none => throw (.invalidValue "packages" "verify_checksums" (String.ofList cs))
  return {
    dataDirectory := ((setting? ini "paths" "data_dir").map ofChars).getD start.dataDirectory
    backupsDirectory := (setting? ini "paths" "backups_dir").map ofChars
    verifyChecksums := verify
    level := ((setting? ini "logging" "level").map String.ofList).getD start.level
    logFile := (setting? ini "logging" "file").map ofChars }

def parse (e : Environment) (text : List Char) : Except SettingsError Settings :=
  match Ini.parse text with
  | .error fault => .error (.malformed fault)
  | .ok ini => ofIni e ini

def item (key : String) (value : List Char) : IniItem := ⟨key.toList, value⟩

def pathItem (key : String) (path : Path) : IniItem := item key (Utf8.decodeLossy path.spelling)

def toIni (s : Settings) : Ini := [
  ⟨some "paths".toList,
    pathItem "data_dir"
      s.dataDirectory :: (s.backupsDirectory.map (pathItem "backups_dir")).toList⟩,
  ⟨some "packages".toList,
    [item "verify_checksums" (if s.verifyChecksums then "true" else "false").toList]⟩,
  ⟨some "logging".toList, item "level" s.level.toList :: (s.logFile.map (pathItem "file")).toList⟩]

def print (s : Settings) : List Char := Ini.print s.toIni

def buffer (piece : List Char) : StateT Bytes (Except Failure) Unit :=
  modify (· ++ Utf8.encode piece)

def serialize (s : Settings) : Except SettingsError (List Char) :=
  match (s.toIni.writeTo buffer).run [] with
  | .error failure => .error (.unwritable .buffer failure)
  | .ok ((), octets) => .ok (Utf8.decodeLossy octets)

variable {m : Type → Type} [Monad m] [Storage m]

def loadFrom (e : Environment) (path : Path) : ExceptT SettingsError m Settings := do
  match ← ExceptT.lift (Storage.read path).run with
  | .error failure =>
    if failure.kind = .notFound then return default e else throw (.unreadable path failure)
  | .ok bytes =>
    match Utf8.decode? bytes with
    | none => throw (.unreadable path .notText)
    | some text => ExceptT.mk (pure (parse e text))

def load (e : Environment) : ExceptT SettingsError m Settings := do
  match e.settingsPath? with
  | none => throw .noDirectory
  | some path => loadFrom e path

def save (s : Settings) (path : Path) : ExceptT SettingsError m Unit :=
  ExceptT.adapt (SettingsError.unwritable (.file path)) do
    match path.parent? with
    | some directory => Storage.createDirectory directory
    | none => pure ()
    Storage.write path (Utf8.encode s.print)

end Settings
end Stowage
