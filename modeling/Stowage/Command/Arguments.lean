import Stowage.Command

/-! The command line. Options stand at any level, a group and a command are named in turn, and the
rest are operands; an option of the whole program that is given at several levels counts as given
last. -/
namespace Stowage

inductive Group
  | package
  | backup
  | settings
deriving DecidableEq

inductive Leaf
  | check
  | checksum
  | create
  | inspect
  | list
  | parseName
  | path
  | showAll
  | init
deriving DecidableEq

inductive Stage
  | root
  | group (g : Group)
  | leaf (l : Leaf)
deriving DecidableEq

inductive OptionKind
  | settingsFile
  | verbose
  | version
  | help
  | skipChecksums
  | instanceDirectory
  | output
  | force
deriving DecidableEq

structure Said where
  settingsFile : Option Path := none
  verbose : Nat := 0
deriving DecidableEq

structure Arguments where
  stage : Stage := .root
  above : Said := {}
  here : Said := {}
  skipChecksums : Bool := false
  instanceDirectory : Option Path := none
  output : Option Path := none
  force : Bool := false
  /-- The last operand first. -/
  operands : List Bytes := []
  ended : Bool := false

inductive Request
  | command (command : Command) (settingsFile : Option Path) (verbose : Nat)
  | version
  | help

inductive Stop
  | misuse
  | version
  | help
deriving DecidableEq

namespace Arguments

def groupNamed? : String → Option Group
  | "package" => some .package
  | "backup" => some .backup
  | "config" => some .settings
  | _ => none

def leafNamed? : Group → String → Option Leaf
  | .package, "check" => some .check
  | .package, "checksum" => some .checksum
  | .backup, "create" => some .create
  | .backup, "inspect" => some .inspect
  | .backup, "list" => some .list
  | .backup, "parse-name" => some .parseName
  | .settings, "path" => some .path
  | .settings, "show" => some .showAll
  | .settings, "init" => some .init
  | _, _ => none

def longOption? (stage : Stage) (name : String) : Option OptionKind :=
  match name, stage with
  | "config", _ => some .settingsFile
  | "verbose", _ => some .verbose
  | "help", _ => some .help
  | "version", .root => some .version
  | "skip-checksums", .leaf .check => some .skipChecksums
  | "instance-dir", .leaf .create => some .instanceDirectory
  | "output", .leaf .create => some .output
  | "force", .leaf .init => some .force
  | _, _ => none

def shortOption? (stage : Stage) (b : UInt8) : Option OptionKind :=
  if b = 0x76 then some .verbose
  else if b = 0x68 then some .help
  else if b = 0x56 && stage = .root then some .version
  else none

def takesValue : OptionKind → Bool
  | .settingsFile => true
  | .instanceDirectory => true
  | .output => true
  | _ => false

def hyphen : UInt8 := 0x2d

/-- Whether a word would be read as an option. A hyphen alone would not. -/
def looksLikeOption (word : Bytes) : Bool := word.head? == some hyphen && word != [hyphen]

def setOnce {α : Type} (held : Option α) (value : α) : Except Stop (Option α) :=
  match held with
  | none => .ok (some value)
  | some _ => .error .misuse

def pathValue (word : Bytes) : Except Stop Path :=
  if word.isEmpty then .error .misuse else .ok ⟨word⟩

def setValue (a : Arguments) (kind : OptionKind) (word : Bytes) : Except Stop Arguments := do
  let path ← pathValue word
  match kind with
  | .settingsFile =>
    return { a with here := { a.here with settingsFile := ← setOnce a.here.settingsFile path } }
  | .instanceDirectory => return { a with instanceDirectory := ← setOnce a.instanceDirectory path }
  | .output => return { a with output := ← setOnce a.output path }
  | _ => throw .misuse

def setFlag (a : Arguments) (kind : OptionKind) : Except Stop Arguments :=
  match kind with
  | .verbose => .ok { a with here := { a.here with verbose := a.here.verbose + 1 } }
  | .version => .error .version
  | .help => .error .help
  | .skipChecksums =>
    if a.skipChecksums then .error .misuse else .ok { a with skipChecksums := true }
  | .force => if a.force then .error .misuse else .ok { a with force := true }
  | _ => .error .misuse

def Said.over (here above : Said) : Said :=
  ⟨here.settingsFile.or above.settingsFile, if here.verbose = 0 then above.verbose
    else here.verbose⟩

def enter (a : Arguments) (stage : Stage) : Arguments :=
  { a with stage, above := Said.over a.here a.above, here := {} }

def nameOf (word : Bytes) : String := (Utf8.toString? word).getD ""

def nextStage? : Stage → String → Option Stage
  | .root, name => (groupNamed? name).map .group
  | .group g, name => (leafNamed? g name).map .leaf
  | .leaf _, _ => none

def word (a : Arguments) (w : Bytes) : Except Stop Arguments :=
  match a.stage with
  | .leaf _ => .ok { a with operands := w :: a.operands }
  | stage =>
    match nextStage? stage (nameOf w) with
    | some next => if a.ended then .error .misuse else .ok (a.enter next)
    | none => .error .misuse

def helpWord : String := "help"

def asksHelp (a : Arguments) (w : Bytes) : Bool :=
  !a.ended && nameOf w == helpWord && match a.stage with | .leaf _ => false | _ => true

def helpOn (stage : Stage) : List Bytes → Stop
  | [] => .help
  | w :: rest =>
    match nextStage? stage (nameOf w) with
    | some next => helpOn next rest
    | none => .misuse

def shortFlags (a : Arguments) : Bytes → Except Stop Arguments
  | [] => .ok a
  | b :: rest => do
    match shortOption? a.stage b with
    | none => throw .misuse
    | some kind => shortFlags (← a.setFlag kind) rest

def operandLimit : Leaf → Nat
  | .path => 0
  | .showAll => 0
  | .init => 0
  | _ => 1

/-- Whether the words so far can still be right; an operand too many is wrong at once. -/
def checkOperands (a : Arguments) : Except Stop Arguments :=
  match a.stage with
  | .leaf l =>
    if operandLimit l < a.operands.length then .error .misuse
    else
      let isText := l = .create || l = .parseName
      if a.operands.all fun w => if isText then (Utf8.decode? w).isSome else !w.isEmpty then .ok a
        else .error .misuse
  | _ => .ok a

def read (a : Arguments) : List Bytes → Except Stop Arguments
  | [] => .ok a
  | w :: rest => do
    if a.asksHelp w then throw (helpOn a.stage rest)
    if a.ended || !looksLikeOption w then read (← (← a.word w).checkOperands) rest
    else if w = [hyphen, hyphen] then read { a with ended := true } rest
    else if w.take 2 = [hyphen, hyphen] then
      let name := (w.drop 2).takeWhile (· != 0x3d)
      let value := (w.drop (2 + name.length)).head?.map fun _ => w.drop (3 + name.length)
      match longOption? a.stage (nameOf name), value, rest with
      | none, _, _ => throw .misuse
      | some kind, some value, rest => read (← a.setValue kind value) rest
      | some kind, none, rest =>
        if !takesValue kind then read (← a.setFlag kind) rest
        else match rest with
          | [] => throw .misuse
          | value :: rest =>
            if looksLikeOption value then throw .misuse
            read (← a.setValue kind value) rest
    else read (← a.shortFlags (w.drop 1)) rest

def required (a : Arguments) : Except Stop Bytes :=
  match a.operands with
  | w :: _ => .ok w
  | [] => .error .misuse

def requiredText (a : Arguments) : Except Stop String := do
  match Utf8.toString? (← a.required) with
  | some s => return s
  | none => throw .misuse

def command (a : Arguments) : Except Stop Command := do
  match a.stage with
  | .leaf .check => return .checkPackage ⟨← a.required⟩ a.skipChecksums
  | .leaf .checksum => return .writeChecksums ⟨← a.required⟩
  | .leaf .create => return .createBackup (← a.requiredText) a.instanceDirectory a.output
  | .leaf .inspect => return .inspectBackup ⟨← a.required⟩
  | .leaf .list => return .listBackups (a.operands.head?.map Path.mk)
  | .leaf .parseName => return .parseName (← a.requiredText)
  | .leaf .path => return .settingsPath
  | .leaf .showAll => return .showSettings
  | .leaf .init => return .initSettings a.force
  | _ => throw .misuse

end Arguments

def Request.ofWords? (words : List Bytes) : Option Request :=
  let request : Except Stop Request := do
    let a ← Arguments.read {} words
    let said := Arguments.Said.over a.here a.above
    return .command (← a.command) said.settingsFile said.verbose
  match request with
  | .ok r => some r
  | .error .version => some .version
  | .error .help => some .help
  | .error .misuse => none

end Stowage
