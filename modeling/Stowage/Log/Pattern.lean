import Stowage.Text.Alphanumeric
import Stowage.Text.Blank
import Stowage.Bytes

/-! Regular expressions for the values of fields, as far as it matters whether one can be used. A
value ends at its first closing brace, so that neither counted repetitions nor escapes in braces can
be written. Groups and classes, and repetitions of repetitions, may be nested to a limit. -/
namespace Stowage

inductive PatternFault
  | malformed
  | wordBoundary
deriving DecidableEq

def PatternFault.message : PatternFault → String
  | .malformed => "error building NFA"
  | .wordBoundary =>
    "unsupported regex feature for DFAs: cannot build DFAs for regexes with Unicode word boundaries; " ++
      "switch to ASCII word boundaries, or heuristically enable Unicode word boundaries or use a different regex engine"

namespace Pattern

def nestLimit : Nat := 250

/-- Whether blanks and comments are left out, and whether characters are all of Unicode or octets. A
pattern of octets may not match anything that is not UTF-8. -/
structure Flags where
  spaced : Bool := false
  unicode : Bool := true
deriving DecidableEq

def skipComment (cs : List Char) : List Char := (cs.dropWhile (· != '\n')).drop 1

def skipSpaces : Nat → List Char → List Char
  | 0, cs => cs
  | fuel + 1, cs =>
    match cs.dropWhile isBlank with
    | '#' :: rest => skipSpaces fuel (skipComment rest)
    | rest => rest

def Flags.skip (f : Flags) (cs : List Char) : List Char :=
  if f.spaced then skipSpaces (cs.length + 1) cs else cs

def Flags.peek? (f : Flags) (cs : List Char) : Option Char :=
  if !f.spaced then cs.head?
  else match cs.dropWhile isBlank with
    | '#' :: rest => (rest.dropWhile isBlank).head?
    | rest => rest.head?

inductive Atom
  | char (c : Char)
  | several
  | place (isWordBoundary : Bool)
deriving DecidableEq

def hexNumber (f : Flags) : Nat → Nat → List Char → Option (Nat × List Char)
  | 0, n, cs => some (n, cs)
  | count + 1, n, cs =>
    match f.skip cs with
    | [] => none
    | c :: rest => (hexValue? c).bind fun digit => hexNumber f count (n * 16 + digit) rest

def charOf? (n : Nat) : Option Char := if h : n.isValidChar then some (Char.ofNatAux n h) else none

def numbered? (f : Flags) (digits : Nat) (cs : List Char) : Option (Atom × List Char) := do
  let (n, rest) ← hexNumber f digits 0 cs
  if digits = 2 && !f.unicode && 0x80 ≤ n then none
  return (.char (← charOf? n), rest)

def category? (f : Flags) (cs : List Char) : Option (Atom × List Char) :=
  match f.skip cs with
  | [] => none
  | c :: rest =>
    if f.unicode && "clmnpsz".toList.contains c.toLower then some (.several, rest) else none

def control? : Char → Option Char
  | 'a' => some '\x07'
  | 'f' => some '\x0c'
  | 'n' => some '\n'
  | 'r' => some '\r'
  | 't' => some '\t'
  | 'v' => some '\x0b'
  | _ => none

def escape? (f : Flags) : List Char → Option (Atom × List Char)
  | [] => none
  | c :: cs =>
    if c = 'x' then numbered? f 2 cs
    else if c = 'u' then numbered? f 4 cs
    else if c = 'U' then numbered? f 8 cs
    else if c = 'p' || c = 'P' then category? f cs
    else if "dsw".toList.contains c then some (.several, cs)
    else if "DSW".toList.contains c then if f.unicode then some (.several, cs) else none
    else if "bB<>".toList.contains c then some (.place f.unicode, cs)
    else if c = 'A' || c = 'z' then some (.place false, cs)
    else match control? c with
      | some d => some (.char d, cs)
      | none => if c.toNat < 0x80 && !c.isAlphanum then some (.char c, cs) else none

def depthOf : List Nat → Nat
  | [] => 0
  | [d] => d
  | ds => ds.foldl max 0 + 1

def className (cs : List Char) : Bool :=
  ["alnum", "alpha", "ascii", "blank", "cntrl", "digit", "graph", "lower", "print", "punct",
    "space", "upper", "word", "xdigit"].contains (String.ofList cs)

def named? (cs : List Char) : Option (Bool × List Char) :=
  match cs with
  | ':' :: cs =>
    let negated := cs.head? == some '^'
    let cs := if negated then cs.drop 1 else cs
    match cs.dropWhile (· != ':') with
    | ':' :: ']' :: rest =>
      if className (cs.takeWhile (· != ':')) then some (negated, rest) else none
    | _ => none
  | _ => none

structure ClassLevel where
  parts : List Nat := []
  left : Option Nat := none
deriving DecidableEq

namespace ClassLevel

def add (l : ClassLevel) (depth : Nat) : ClassLevel := { l with parts := depth :: l.parts }

def depth (l : ClassLevel) : Nat :=
  match l.left with
  | none => depthOf l.parts
  | some d => max d (depthOf l.parts) + 1

def operator (l : ClassLevel) : ClassLevel := ⟨[], some l.depth⟩

end ClassLevel

/-- Minus signs at the start of a class stand for themselves. -/
def leadingMinus (f : Flags) : Nat → ClassLevel → List Char → Option (ClassLevel × List Char)
  | 0, l, cs => some (l, cs)
  | fuel + 1, l, cs =>
    match cs with
    | [] => none
    | c :: rest => if c = '-' then leadingMinus f fuel (l.add 0) (f.skip rest) else some (l, cs)

def openClass (f : Flags) (cs : List Char) : Option (ClassLevel × List Char) := do
  let cs := f.skip cs
  let negated := cs.head? == some '^'
  if negated && !f.unicode then none
  let (l, cs) ← leadingMinus f (cs.length + 1) {} (if negated then f.skip (cs.drop 1) else cs)
  match cs with
  | ']' :: rest =>
    if l.parts.isEmpty then if (f.skip rest).isEmpty then none else some (l.add 0, f.skip rest)
      else some (l, cs)
  | _ => some (l, cs)

def classAtom? (f : Flags) : List Char → Option (Atom × List Char)
  | [] => none
  | c :: cs =>
    match if c = '\\' then escape? f cs else some (.char c, cs) with
    | some (.char d, rest) => if f.unicode || d.toNat < 0x80 then some (.char d, rest) else none
    | some (.several, rest) => some (.several, rest)
    | _ => none

def classPart (f : Flags) (cs : List Char) : Option (List Char) := do
  let (first, rest) ← classAtom? f cs
  match f.skip rest with
  | [] => none
  | '-' :: rest =>
    if f.peek? rest = some ']' || f.peek? rest = some '-' then return '-' :: rest
    let (last, rest) ← classAtom? f (f.skip rest)
    match first, last with
    | .char a, .char b => if a ≤ b then some rest else none
    | _, _ => none
  | rest => return rest

def readClass (f : Flags) : Nat → ClassLevel → List ClassLevel → List Char →
    Option (Nat × List Char)
  | 0, _, _, _ => none
  | fuel + 1, l, outer, cs =>
    match f.skip cs with
    | [] => none
    | '[' :: rest =>
      match named? rest with
      | some (negated, rest) =>
        if negated && !f.unicode then none else readClass f fuel (l.add 0) outer rest
      | none =>
        (openClass f rest).bind fun (inner, rest) => readClass f fuel inner (l :: outer) rest
    | ']' :: rest =>
      match outer with
      | [] => some (l.depth + 1, rest)
      | above :: outer => readClass f fuel (above.add (l.depth + 1)) outer rest
    | '&' :: '&' :: rest => readClass f fuel l.operator outer rest
    | '-' :: '-' :: rest => readClass f fuel l.operator outer rest
    | '~' :: '~' :: rest => readClass f fuel l.operator outer rest
    | rest => (classPart f rest).bind fun rest => readClass f fuel (l.add 0) outer rest

def flags? (f : Flags) (cs : List Char) : Option Flags :=
  if !cs.all ("imsUuRx-".toList.contains ·) || cs.eraseDups ≠ cs || cs.getLast? = some '-' then none
  else
    let on := cs.takeWhile (· != '-')
    some ⟨(f.spaced || on.contains 'x') && (on.contains 'x' || !cs.contains 'x'),
      (f.unicode || on.contains 'u') && (on.contains 'u' || !cs.contains 'u')⟩

def isName (cs : List Char) : Bool :=
  (cs.head?.map fun c => c == '_' || isAlphabetic c).getD false &&
    (cs.drop 1).all fun c => c == '_' || c == '.' || c == '[' || c == ']' || isAlphanumeric c

/-- An open group: the flags that hold behind it, the depths of the parts of its branch, the last
one first, of which one that only sets flags has none, and the depths of the branches before. -/
structure Level where
  flags : Flags := {}
  parts : List (Option Nat) := []
  branches : List Nat := []
deriving DecidableEq

namespace Level

def branchDepth (l : Level) : Nat := depthOf (l.parts.map (·.getD 0))

def depth (l : Level) : Nat := depthOf (l.branchDepth :: l.branches)

def add (l : Level) (depth : Nat) : Level := { l with parts := some depth :: l.parts }

end Level

structure Progress where
  flags : Flags := {}
  level : Level := {}
  outer : List Level := []
  names : List (List Char) := []
  wordBoundary : Bool := false
deriving DecidableEq

namespace Progress

def add (p : Progress) (depth : Nat) : Progress := { p with level := p.level.add depth }

def addAtom (p : Progress) : Atom → Progress
  | .place true => { p.add 0 with wordBoundary := true }
  | _ => p.add 0

def openGroup (p : Progress) (inner : Flags) : Progress :=
  { p with flags := inner, level := { flags := p.flags }, outer := p.level :: p.outer }

def openNamed (p : Progress) (cs : List Char) : Option (Progress × List Char) :=
  let name := cs.takeWhile (· != '>')
  if name.length = cs.length || !isName name || p.names.contains name then none
  else some ({ p.openGroup p.flags with names := name :: p.names }, cs.drop (name.length + 1))

def openFlagged (p : Progress) (cs : List Char) : Option (Progress × List Char) := do
  let letters := cs.takeWhile fun c => c != ':' && c != ')'
  let inner ← flags? p.flags letters
  match cs.drop letters.length with
  | ':' :: rest => return (p.openGroup inner, rest)
  | ')' :: rest =>
    if letters.isEmpty then none
    return ({ p with flags := inner, level := { p.level with parts := none :: p.level.parts } },
      rest)
  | _ => none

def openBracket (p : Progress) (cs : List Char) : Option (Progress × List Char) :=
  match p.flags.skip cs with
  | '?' :: 'P' :: '<' :: rest => p.openNamed rest
  | '?' :: '<' :: rest => p.openNamed rest
  | '?' :: rest => p.openFlagged rest
  | rest => some (p.openGroup p.flags, rest)

def closeBracket (p : Progress) : Option Progress :=
  match p.outer with
  | [] => none
  | above :: outer =>
    some { p with flags := p.level.flags, level := above.add (p.level.depth + 1), outer := outer }

def bar (p : Progress) : Progress :=
  { p with level :=
    { p.level with parts := [], branches := p.level.branchDepth :: p.level.branches } }

def again (p : Progress) : Option Progress :=
  match p.level.parts with
  | some depth :: rest =>
    some { p with level := { p.level with parts := some (depth + 1) :: rest } }
  | _ => none

def step (p : Progress) (c : Char) (cs : List Char) : Option (Progress × List Char) :=
  match c with
  | '(' => p.openBracket cs
  | ')' => p.closeBracket.map (·, cs)
  | '|' => some (p.bar, cs)
  | '[' => do
    let (inner, rest) ← openClass p.flags cs
    let (depth, rest) ← readClass p.flags (rest.length + 1) inner [] rest
    return (p.add depth, rest)
  | '?' | '*' | '+' => p.again.map (·, if cs.head? = some '?' then cs.drop 1 else cs)
  | '\x7b' => none
  | '\\' => (escape? p.flags cs).map fun (atom, rest) => (p.addAtom atom, rest)
  | '.' => if p.flags.unicode then some (p.add 0, cs) else none
  | _ => some (p.add 0, cs)

def run : Nat → Progress → List Char → Option Progress
  | 0, _, _ => none
  | fuel + 1, p, cs =>
    match p.flags.skip cs with
    | [] => if p.outer.isEmpty && p.level.depth ≤ nestLimit then some p else none
    | c :: rest => (p.step c rest).bind fun (p, rest) => run fuel p rest

end Progress

def fault? (cs : List Char) : Option PatternFault :=
  match Progress.run (cs.length + 1) {} cs with
  | none => some .malformed
  | some p => if p.wordBoundary then some .wordBoundary else none

end Pattern
end Stowage
