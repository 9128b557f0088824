import Stowage.Command.Arguments
import Stowage.Storage.Tree

/-! A run of the program: the command line is read, then the settings, then logging starts, and then
the command runs. It ends with a code, the lines of its output and those of its error output. -/
namespace Stowage

def programVersion : String := "0.1.0"

def usage : List String := [
  s!"Usage: {programName} [OPTIONS] <COMMAND>",
  "",
  "Commands:",
  "  package check [--skip-checksums] <DIR>",
  "  package checksum <DIR>",
  "  backup create [--instance-dir <DIR>] [--output <DIR>] <INSTANCE_ID>",
  "  backup inspect <FILE>",
  "  backup list [DIR]",
  "  backup parse-name <NAME>",
  "  config path",
  "  config show",
  "  config init [--force]",
  "",
  "Options:",
  "  --config <FILE>",
  "  -v, --verbose",
  "  -h, --help",
  "  -V, --version"]

/-- A storage that gives out the events noted in it, oldest first, and forgets them. -/
class Journal (m : Type → Type) where
  takeEvents : m (List Event)

structure Invocation where
  words : List Bytes
  environment : Environment
  filter : Option Bytes := none
  now : Moment
  stamp : String

structure Outcome where
  code : Nat
  output : List String := []
  errors : List String := []
deriving DecidableEq

namespace Program

variable {m : Type → Type} [Monad m] [Storage m]

def levelFor (settings : Settings) : Nat → String
  | 0 => settings.level
  | 1 => "debug"
  | _ => "trace"

def settingsFor (e : Environment) (named : Option Path) :
    ExceptT CommandError m (Path × Settings) :=
  ExceptT.adapt CommandError.settings <| match named, e.settingsPath? with
    | some path, _ => return (path, ← Settings.loadFrom e path)
    | none, some path => return (path, ← Settings.load e)
    | none, none => throw .noDirectory

def errorLine (e : CommandError) : String := "Error: " ++ e.message

def prepare (i : Invocation) (named : Option Path) (verbose : Nat) :
    ExceptT CommandError m (Path × Settings × Logging) := do
  let (path, settings) ← settingsFor i.environment named
  let logging ← ExceptT.adapt CommandError.logging
    (Logging.start i.filter (levelFor settings verbose) settings.logFile)
  ExceptT.lift (Storage.note ⟨.debug, programName, "Configuration loaded",
    [("config", path.display)]⟩)
  return (path, settings, logging)

variable [Journal m]

def runCommand (i : Invocation) (command : Command) (named : Option Path) (verbose : Nat) :
    m Outcome := do
  match ← (prepare i named verbose).run with
  | .error e => return ⟨1, [], [errorLine e]⟩
  | .ok (path, settings, logging) =>
    let (result, output) ← command.perform ⟨settings, path, i.now⟩
    let logged ← logging.finish i.stamp (← Journal.takeEvents)
    match result with
    | .ok () => return ⟨0, output, logged⟩
    | .error e => return ⟨1, output, logged ++ [errorLine e]⟩

def run (i : Invocation) : m Outcome := do
  let _ ← Journal.takeEvents
  match Request.ofWords? i.words with
  | none => return ⟨2, [], usage⟩
  | some .version => return ⟨0, [s!"{programName} {programVersion}"], []⟩
  | some .help => return ⟨0, usage, []⟩
  | some (.command command named verbose) => runCommand i command named verbose

end Program

instance : Journal (StateM Tree) where
  takeEvents := fun t => (t.events.reverse, { t with events := [] })

end Stowage
