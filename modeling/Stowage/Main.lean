import Std.Time.DateTime.Timestamp
import Stowage.Program

/-! The program on the real file system: storage operations are those of the system, and what a run
prints is written to the two outputs. -/
namespace Stowage

abbrev Host := StateT (List Event) IO

namespace Host

def failureOf : IO.Error → Failure
  | .alreadyExists _ code text => .system (.ofCode code text)
  | .otherError code text => .system (.ofCode code text)
  | .resourceBusy code text => .system (.ofCode code text)
  | .resourceVanished code text => .system (.ofCode code text)
  | .unsupportedOperation code text => .system (.ofCode code text)
  | .hardwareFault code text => .system (.ofCode code text)
  | .unsatisfiedConstraints code text => .system (.ofCode code text)
  | .illegalOperation code text => .system (.ofCode code text)
  | .protocolError code text => .system (.ofCode code text)
  | .timeExpired code text => .system (.ofCode code text)
  | .interrupted .. => .interrupted
  | .noFileOrDirectory _ code text => .system (.ofCode code text)
  | .invalidArgument _ code text => .system (.ofCode code text)
  | .permissionDenied _ code text => .system (.ofCode code text)
  | .resourceExhausted _ code text => .system (.ofCode code text)
  | .inappropriateType _ code text => .system (.ofCode code text)
  | .noSuchThing _ code text => .system (.ofCode code text)
  | .unexpectedEof => .unexpectedEnd
  | .userError text => .system ⟨5, text⟩

def attempt {α : Type} (act : IO α) : ExceptT Failure Host α :=
  ExceptT.mk do
    match ← (act.toBaseIO : IO _) with
    | .ok value => return .ok value
    | .error e => return .error (failureOf e)

/-- The spelling of a path as text; others than UTF-8 cannot be named here. -/
def spelled (path : Path) : ExceptT Failure Host String :=
  match Utf8.toString? path.spelling with
  | some s =>
    if s.contains '\x00' then throw .zeroInPath
    else if s = "" then throw (.system .missing)
    else return s
  | none => throw .notText

def directoryAt (path : Path) : ExceptT Failure Host Bool := do
  let s ← spelled path
  attempt do
    let found ← ((← IO.currentDir) / s).metadata
    return found.type == .dir

def test (path : Path) (answer : Bool → Bool) : ExceptT Failure Host Bool := do
  try return answer (← directoryAt path)
  catch failure => if failure.kind = .notFound then return false else throw failure

def read (path : Path) : ExceptT Failure Host Handle := do
  let s ← spelled path
  let _ ← directoryAt path
  ExceptT.mk do
    let content ← (attempt (IO.FS.readBinFile s)).run
    return .ok ⟨content.map fun data => data.data.toList, some Handle.fileReach⟩

def ensureAll : List Path → ExceptT Failure Host Unit
  | [] => return ()
  | path :: shorter => do
    let s ← spelled path
    try
      attempt (IO.FS.createDir s)
    catch failure =>
      if failure.kind = .notFound then
        ensureAll shorter
        attempt (IO.FS.createDir s)
      else
        let found ← ExceptT.lift (directoryAt path).run
        if !(found.toOption.getD false) then throw failure

def createDirectory (path : Path) : ExceptT Failure Host Unit :=
  ensureAll ((path :: path.ancestors).filter fun p => !p.isEmpty)

def write (path : Path) (data : Bytes) : ExceptT Failure Host Unit := do
  match path.parent? with
  | some parent => createDirectory parent
  | none => pure ()
  attempt (IO.FS.writeBinFile (← spelled path) ⟨data.toArray⟩)

def entries (directory : Path) : List String → ExceptT Failure Host (List DirEntry)
  | [] => return []
  | name :: rest => do
    let path := directory.joinText name
    match ← ExceptT.lift (directoryAt path).run with
    | .ok found => return ⟨path, if found then .directory else .file⟩ :: (← entries directory rest)
    | .error failure =>
      if failure.kind ≠ .notFound then throw failure
      modify (⟨.debug, "avspkg::storage::os", "Skipping dangling symlink",
        [("path", path.display)]⟩ :: ·)
      entries directory rest

def readDirectory (path : Path) : ExceptT Failure Host (List DirEntry) := do
  let s ← spelled path
  let names ← attempt do
    let found ← ((← IO.currentDir) / s).readDir
    return found.toList.map (·.fileName)
  return (← entries path names).mergeSort fun a b => a.path.le b.path

instance : Storage Host where
  exists? path := test path fun _ => true
  isDirectory path := test path id
  isFile path := test path not
  openFile := read
  write := write
  createDirectory := createDirectory
  readDirectory := readDirectory
  removeFile path := do attempt (IO.FS.removeFile (← spelled path))
  walkBound := pure wordLimit
  note event := modify (event :: ·)

instance : Journal Host where
  takeEvents := do
    let events ← get
    set ([] : List Event)
    return events.reverse

end Host

def variablePath (name : String) : IO (Option Path) := do
  let value ← IO.getEnv name
  return (value.filter fun s => s ≠ "").map Path.ofString

def currentMoment : IO Moment := do
  let nanos := (← Std.Time.Timestamp.now).toNanosecondsSinceUnixEpoch.val
  return (Moment.at? (Int.fdiv nanos secondNanos) (Int.fmod nanos secondNanos).toNat).getD .epoch

def invocation (words : List String) : IO Invocation := do
  let now ← currentMoment
  let environment := {
    home := ← variablePath "HOME"
    configHome := ← variablePath "XDG_CONFIG_HOME"
    dataHome := ← variablePath "XDG_DATA_HOME" }
  return {
    words := words.map Utf8.ofString
    environment
    filter := (← IO.getEnv "RUST_LOG").map Utf8.ofString
    now
    stamp := now.offsetText }

end Stowage

open Stowage in
def main (words : List String) : IO UInt32 := do
  let (outcome, _) ← (Program.run (← invocation words) : Stowage.Host Outcome) []
  outcome.output.forM fun line => IO.println line
  outcome.errors.forM fun line => IO.eprintln line
  return UInt32.ofNat outcome.code
