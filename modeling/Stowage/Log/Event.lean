import Stowage.Path
import Stowage.Text.Decimal

/-! Log events: a level, the part of the program that speaks, a message and named values. -/
namespace Stowage

inductive Level
  | error
  | warn
  | info
  | debug
  | trace
deriving DecidableEq

def Level.rank : Level → Nat
  | .error => 1
  | .warn => 2
  | .info => 3
  | .debug => 4
  | .trace => 5

def Level.name : Level → String
  | .error => "ERROR"
  | .warn => "WARN"
  | .info => "INFO"
  | .debug => "DEBUG"
  | .trace => "TRACE"

structure Event where
  level : Level
  target : String
  message : String
  fields : List (String × String)
deriving DecidableEq

def Event.text (e : Event) (named : Bool) : String :=
  let level := String.ofList (padLeft 5 ' ' e.level.name.toList)
  let target := if named then e.target ++ ": " else ""
  let fields := e.fields.map fun (name, value) => s!" {name}={value}"
  s!"{level} {target}{e.message}" ++ String.join fields

end Stowage
