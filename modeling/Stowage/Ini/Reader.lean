import Stowage.Ini
import Stowage.Text.Blank
import Stowage.Text.Decimal
import Stowage.Text.Quoted

/-! Reading settings. A line holds a heading, a comment or an item; blanks around keys and values
fall away, values may be quoted in parts, and a backslash starts an escape. A newline is counted
when reading comes to it. -/
namespace Stowage.Ini

structure Cursor where
  rest : List Char
  line : Nat
  column : Nat
deriving DecidableEq

inductive Cause
  | inlineComment
  | missingKey
  | unexpectedEnd (expected : List (Option Char))
  | expectedNewline (found : Option Char)
  | badNumber
deriving DecidableEq

structure Fault where
  cause : Cause
  cursor : Cursor
deriving DecidableEq

def optionText : Option Char → String
  | some c => s!"Some({quotedCharacter c})"
  | none => "None"

def Cause.message : Cause → String
  | .inlineComment => "doesn't support inline comment"
  | .missingKey => "missing key"
  | .unexpectedEnd expected =>
    "expecting \"[" ++ ", ".intercalate (expected.map optionText) ++ "]\" but found EOF."
  | .expectedNewline found => s!"expecting \"\\\\n\" but found \"{optionText found}\"."
  | .badNumber => "unknown character in \\xHH form"

def Fault.message (f : Fault) : String :=
  s!"{f.cursor.line + 1}:{f.cursor.column + 1} {f.cause.message}"

namespace Cursor

def enter (rest : List Char) (line column : Nat) : Cursor :=
  match rest.head? with
  | some '\n' => ⟨rest, line + 1, 0⟩
  | some _ => ⟨rest, line, column + 1⟩
  | none => ⟨rest, line, column⟩

def start (text : List Char) : Cursor := enter text 0 0

def next (c : Cursor) : Cursor := enter (c.rest.drop 1) c.line c.column

def head? (c : Cursor) : Option Char := c.rest.head?

def skip (c : Cursor) (n : Nat) : Cursor := (List.range n).foldl (fun c _ => c.next) c

def skipWhile (c : Cursor) (p : Char → Bool) : Cursor := c.skip (c.rest.takeWhile p).length

end Cursor

def isIndent (c : Char) : Bool := c == ' ' || c == '\t'

def isLineEnd (c : Char) : Bool := c == '\n' || c == '\r'

def startsIndent (c : Cursor) : Bool := (c.head?.map isIndent).getD false

/-- Blanks between items. A line end is the last of them if the next line is indented. -/
def skipBlanks : Nat → Cursor → Cursor
  | 0, c => c
  | fuel + 1, c =>
    match c.head? with
    | none => c
    | some x =>
      if isLineEnd x then if startsIndent c.next then c.next else skipBlanks fuel c.next
      else if isBlank x then skipBlanks fuel c.next
      else c

def Cursor.toItem (c : Cursor) : Cursor := skipBlanks (c.rest.length + 1) c

def simpleEscape? : Char → Option Char
  | '0' => some '\x00'
  | 'a' => some '\x07'
  | 'b' => some '\x08'
  | 't' => some '\t'
  | 'r' => some '\r'
  | 'n' => some '\n'
  | _ => none

def codeChar? (code : List Char) : Option Char := do
  let digits := dropPlus code
  if digits.isEmpty then none
  let n ← digits.foldlM (fun n c => (hexValue? c).map (n * 16 + ·)) 0
  if 0xd800 ≤ n && n ≤ 0xdfff then none else some (Char.ofNat n)

def present (ends : List (Option Char)) (c : Cursor) : Except Fault Char :=
  match c.head? with
  | some x => .ok x
  | none => .error ⟨.unexpectedEnd ends, c⟩

def codeChars (ends : List (Option Char)) : Nat → Cursor → Except Fault (List Char × Cursor)
  | 0, c => .ok ([], c)
  | n + 1, c => do
    let x ← present ends c.next
    let after := if x = '\\' then c.next.next else c.next
    if x = '\\' && after.head? ≠ some '\n' then throw ⟨.expectedNewline after.head?, after⟩
    let (code, after) ← codeChars ends n after
    return (x :: code, after)

def escaped (ends : List (Option Char)) (c : Cursor) : Except Fault (List Char × Cursor) := do
  let x ← present ends c
  match simpleEscape? x with
  | some e => return ([e], c)
  | none =>
    if x = '\n' then return ([], c)
    if x ≠ 'x' then return ([x], c)
    let (code, last) ← codeChars ends 4 c
    match codeChar? code with
    | some y => return ([y], last)
    | none => throw ⟨.badNumber, last⟩

/-- Text up to one of the ends, of which `none` is the end of the text. The text read so far is
reversed. -/
def textUntil (ends : List (Option Char)) :
    Nat → List Char → Cursor → Except Fault (List Char × Cursor)
  | 0, done, c => .ok (done.reverse, c)
  | fuel + 1, done, c => do
    if ends.contains c.head? then return (done.reverse, c)
    let x ← present ends c
    if x ≠ '\\' then textUntil ends fuel (x :: done) c.next
    else if c.next.rest.isEmpty && ends.contains none then textUntil ends fuel ('\\' :: done) c.next
    else
      let (cs, last) ← escaped ends c.next
      textUntil ends fuel (cs.reverse ++ done) last.next

def readUntil (ends : List (Option Char)) (c : Cursor) : Except Fault (List Char × Cursor) :=
  textUntil ends (c.rest.length + 1) [] c

def lineEnds : List (Option Char) := [some '\n', some '\r', none]

def keyEnds : List (Option Char) := [some '=', some ':']

/-- Quoted parts and what follows them up to the end of the line. Blanks are kept within quotes, and
behind them. -/
def valueParts : Nat → Bool → List Char → Cursor → Except Fault (List Char × Cursor)
  | 0, _, done, c => .ok (done, c)
  | fuel + 1, first, done, c => do
    match c.head? with
    | none => return (done, c)
    | some q =>
      if q = '"' || q = '\'' then
        let (part, after) ← readUntil [some q] c.next
        valueParts fuel false (done ++ part) after.next
      else
        let (part, after) ← readUntil lineEnds c
        return (done ++ if first then trim part else trimEnd part, after)

def readValue (c : Cursor) : Except Fault (List Char × Cursor) :=
  let start := c.next.skipWhile fun x => isBlank x && !isLineEnd x
  valueParts (start.rest.length + 1) true [] start

structure Progress where
  sections : Ini := []
  current : Option (List Char) := none
  key : List Char := []

def readComment (p : Progress) (c : Cursor) : Except Fault (Progress × Cursor) :=
  if 1 < c.column then .error ⟨.inlineComment, c⟩ else .ok (p, (c.skipWhile (· != '\n')).next)

def readHeading (p : Progress) (c : Cursor) : Except Fault (Progress × Cursor) := do
  let (name, after) ← readUntil [some ']'] c.next
  return ({ p with sections := ⟨some (trim name), []⟩ :: p.sections, current := some (trim name) },
    after.next)

def readItem (p : Progress) (c : Cursor) : Except Fault (Progress × Cursor) := do
  if p.key.isEmpty then throw ⟨.missingKey, c⟩
  let (value, after) ← readValue c
  return ({ p with sections := addItem p.current ⟨p.key, value⟩ p.sections, key := [] }, after)

def readKey (p : Progress) (c : Cursor) : Except Fault (Progress × Cursor) := do
  let (key, after) ← readUntil keyEnds c
  return ({ p with key := trim key }, after)

/-- A line that starts with blanks: they fall away in front of a heading, and with them a line end.
A key that cannot be read is given up, and reading goes on where it stopped. -/
def readIndented (p : Progress) (c : Cursor) : Progress × Cursor :=
  let inner := c.skipWhile isIndent
  match inner.head? with
  | none => (p, inner)
  | some x =>
    if x = '[' then (p, inner)
    else if isLineEnd x then (p, inner.next)
    else match readKey p inner with
      | .ok (p, after) => (p, after.toItem)
      | .error fault => (p, fault.cursor.toItem)

def readPart (p : Progress) (c : Cursor) (x : Char) : Except Fault (Progress × Cursor) :=
  let read := if x = ';' || x = '#' then readComment p c
    else if x = '[' then readHeading p c
    else if x = '=' || x = ':' then readItem p c
    else if isLineEnd x then .ok (p, c.next)
    else readKey p c
  read.map fun (p, after) => (p, after.toItem)

def readParts : Nat → Progress → Cursor → Except Fault Progress
  | 0, p, _ => .ok p
  | fuel + 1, p, c =>
    match c.head? with
    | none => .ok p
    | some x => do
      let (p, after) ← if isIndent x then .ok (readIndented p c) else readPart p c x
      readParts fuel p after

def parse (text : List Char) : Except Fault Ini := do
  let p ← readParts (text.length + 1) {} (Cursor.start text)
  return p.sections.reverse

end Stowage.Ini
