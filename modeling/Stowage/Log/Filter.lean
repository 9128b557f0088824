import Stowage.Log.Event
import Stowage.Log.Pattern

/-! Filters of log events: directives between commas, each a level for the targets that start with a
text. Of those that fit an event the most specific one decides. A directive that names a span or
asks for a value lets no event through. -/
namespace Stowage

inductive FilterFault
  | malformed
  | badLevel
  | badField (fault : PatternFault)
deriving DecidableEq

def FilterFault.message : FilterFault → String
  | .malformed => "invalid filter directive"
  | .badLevel =>
    "error parsing level filter: expected one of \"off\", \"error\", \"warn\", \"info\", \"debug\", \"trace\", " ++
      "or a number 0-5"
  | .badField fault => s!"invalid field filter: {fault.message}"

structure Directive where
  /-- The rank of the last level that is let through, 0 for none. -/
  rank : Nat := 5
  target : Option String := none
  spanNamed : Bool := false
  field : Option String := none
  /-- Whether the field has to have a value, which only spans can show. -/
  valued : Bool := false
deriving DecidableEq

namespace Directive

def lowerText (cs : List Char) : String := String.ofList (cs.map Char.toLower)

def levelNames : List String := ["off", "error", "warn", "info", "debug", "trace"]

def rank? (cs : List Char) : Option Nat :=
  match word? cs with
  | some n => if n < levelNames.length then some n else none
  | none => levelNames.idxOf? (lowerText cs)

def levelOf (cs : List Char) : Except FilterFault Nat :=
  if cs.isEmpty then .ok 5 else match rank? cs with
    | some n => .ok n
    | none => .error .badLevel

def isDecimal (cs : List Char) : Bool :=
  let whole := cs.takeWhile isDigit
  let rest := cs.drop whole.length
  let tail := if rest.head? = some '.' then (rest.drop 1).takeWhile isDigit else []
  let rest := if rest.head? = some '.' then rest.drop (tail.length + 1) else rest
  !(whole ++ tail).isEmpty && match rest with
    | [] => true
    | mark :: power =>
      let digits := if power.head? = some '+' || power.head? = some '-' then power.drop 1 else power
      (mark == 'e' || mark == 'E') && !digits.isEmpty && digits.all isDigit

def isNumber (cs : List Char) : Bool :=
  let body := if cs.head? = some '+' || cs.head? = some '-' then cs.drop 1 else cs
  isDecimal body || ["inf", "infinity", "nan"].contains (lowerText body)

def checkValue (value : List Char) : Except FilterFault Unit :=
  if isNumber value then .ok ()
  else match Pattern.fault? value with
    | some fault => .error (.badField fault)
    | none => .ok ()

inductive Stage
  | start
  | levelOrTarget (start : Nat)
  | span (start : Nat)
  | field (start : Nat)
  | fieldsRead
  | spanRead
  | level (start : Nat)
deriving DecidableEq

def between (text : Bytes) (start stop : Nat) : List Char :=
  Utf8.decodeLossy ((text.take stop).drop start)

def startsName (c : Char) : Bool := c == '-' || c == ':' || c == '_' || isAlphanumeric c

def setField (d : Directive) (cs : List Char) : Except FilterFault Directive := do
  if cs.isEmpty then throw .malformed
  let name := cs.takeWhile (· != '=')
  let valued := name.length < cs.length
  if valued then checkValue ((cs.drop (name.length + 1)).takeWhile (· != '='))
  return { d with field := some (String.ofList name), valued }

def step (text : Bytes) (stage : Stage) (d : Directive) (i : Nat) (c : Char) :
    Except FilterFault (Stage × Directive) := do
  match stage with
  | .start =>
    if c = '[' then return (.span (i + 1), d)
    else if startsName c then return (.levelOrTarget i, d) else throw .malformed
  | .levelOrTarget start =>
    if c = '=' || c = '[' then
      let named := { d with target := some (String.ofList (between text start i)) }
      return (if c = '=' then .level (i + 1) else .span (i + 1), named)
    else return (stage, d)
  | .span start =>
    if c = ']' then return (.spanRead, { d with spanNamed := true })
    else if c = '\x7b' then return (.field (i + 1), { d with spanNamed := start < i })
    else return (stage, d)
  | .field start =>
    if c = '\x7d' then return (.fieldsRead, ← d.setField (between text start i))
      else return (stage, d)
  | .fieldsRead => if c = ']' then return (.spanRead, d) else throw .malformed
  | .spanRead => if c = '=' then return (.level (i + 1), d) else throw .malformed
  | .level _ => return (stage, d)

def steps (text : Bytes) (stage : Stage) (d : Directive) (i : Nat) :
    List Char → Except FilterFault (Stage × Directive)
  | [] => .ok (stage, d)
  | c :: rest => do
    let (stage, d) ← step text stage d i c
    steps text stage d (i + c.utf8Size) rest

/-- Octets are counted without the blanks at the ends, but parts are taken from the directive as it
is. -/
def parse (cs : List Char) : Except FilterFault Directive := do
  let text := Utf8.encode cs
  let (stage, d) ← steps text .start {} 0 (trim cs)
  match stage with
  | .levelOrTarget start =>
    let rest := between text start text.length
    match rank? rest with
    | some n => return { d with rank := n, target := none }
    | none => return { d with target := some (String.ofList rest) }
  | .level start => return { d with rank := ← levelOf (between text start text.length) }
  | .spanRead => return d
  | _ => throw .malformed

def isStatic (d : Directive) : Bool := !d.spanNamed && !d.valued

def fits (d : Directive) (e : Event) : Bool :=
  (d.target.all fun t => t.toList.isPrefixOf e.target.toList) &&
    d.field.all fun name => name == "message" || e.fields.any fun field => field.1 == name

/-- From the least specific: first whether a target is named and how long it is, then whether a
field is, then the order of targets, and of fields. -/
def scopeOrder (a b : Directive) : Ordering :=
  compareLex (compareOn fun d => d.target.map String.utf8ByteSize)
    (compareLex (compareOn fun d => d.field.isSome)
      (compareLex (compareOn Directive.target) (compareOn Directive.field))) a b

end Directive

structure Filter where
  directives : List Directive
deriving DecidableEq

namespace Filter

def splitCommas (cs : List Char) : List (List Char) :=
  cs.foldr (fun c parts =>
    if c = ',' then [] :: parts
    else match parts with
      | part :: rest => (c :: part) :: rest
      | [] => [[c]]) [[]]

def parse (text : String) : Except FilterFault Filter :=
  (((splitCommas text.toList).filter fun part => !part.isEmpty).mapM Directive.parse).map Filter.mk

/-- Of the directives that fit, the most specific one, and of two with one scope the later one.
Without any, nothing is let through. -/
def decider? (f : Filter) (e : Event) : Option Directive :=
  (f.directives.filter fun d => d.isStatic && d.fits e).foldl (fun best d =>
    match best with
    | none => some d
    | some b => if (d.scopeOrder b).isGE then some d else some b) none

def lets (f : Filter) (e : Event) : Bool :=
  match f.decider? e with
  | some d => e.level.rank ≤ d.rank
  | none => false

end Filter
end Stowage
