import Stowage.Digest
import Stowage.Path
import Stowage.Text.Blank
import Stowage.Text.Decimal
import Stowage.Text.Lines
import Stowage.Text.Quoted

/-! The text of a checksum registry: each line that is not blank lists a file of the package by its
digest and its path. One line that cannot be read makes the whole text unreadable. -/
namespace Stowage

def registryFileName : String := "checksum.txt"

structure ListedFile where
  path : Path
  digest : String
deriving DecidableEq

inductive LineFault
  | noSeparator
  | noPath
  | notDigest (text : List Char)
  | leavesPackage (text : List Char)
  | notRelative (text : List Char)
  | emptyPath (text : List Char)
deriving DecidableEq

def LineFault.message : LineFault → String
  | .noSeparator => "expected a digest and a path"
  | .noPath => "missing path"
  | .notDigest text =>
    String.ofList (quoted text) ++ s!" is not a {Digest.length}-character hex digest"
  | .leavesPackage text => "path " ++ String.ofList (quoted text) ++ " escapes the package root"
  | .notRelative text => "path " ++ String.ofList (quoted text) ++ " is not relative"
  | .emptyPath text => "path " ++ String.ofList (quoted text) ++ " is empty"

namespace ListedFile

def lower (c : Char) : Char := if 'A' ≤ c && c ≤ 'Z' then Char.ofNat (c.toNat + 32) else c

def ofText (path : Path) (digest : List Char) : ListedFile :=
  ⟨path, String.ofList (digest.map lower)⟩

def pathText (f : ListedFile) : List Char :=
  ['/'].intercalate (f.path.components.map fun c => Utf8.decodeLossy c.octets)

def line (f : ListedFile) : List Char := f.digest.toList ++ [' ', ' '] ++ f.pathText ++ ['\n']

end ListedFile

def isHexDigit (c : Char) : Bool := isDigit c || ('a' ≤ c && c ≤ 'f') || ('A' ≤ c && c ≤ 'F')

def downwardNames (text : List Char) : List Component → Except LineFault (List Bytes)
  | [] => .ok []
  | .root :: _ => .error (.notRelative text)
  | .up :: _ => .error (.leavesPackage text)
  | .here :: rest => downwardNames text rest
  | .name s :: rest => (downwardNames text rest).map (s :: ·)

def Path.ofNames (names : List Bytes) : Path := ⟨[slash].intercalate names⟩

/-- The path of a listed file: relative, below the package, and more than dots. -/
def listedPath (text : List Char) : Except LineFault Path :=
  match downwardNames text (Path.mk (Utf8.encode text)).components with
  | .error fault => .error fault
  | .ok [] => .error (.emptyPath text)
  | .ok names => .ok (.ofNames names)

def cutAtBlank (cs : List Char) : Option (List Char × List Char) :=
  let front := cs.takeWhile fun c => !isBlank c
  match cs.drop front.length with
  | [] => none
  | _ :: rest => some (front, rest)

namespace Registry

def parseLine (line : List Char) : Except LineFault ListedFile := do
  match cutAtBlank (trimStart line) with
  | none => throw .noSeparator
  | some (digest, rest) =>
    let path := trimStart rest
    if path.isEmpty then throw .noPath
    if digest.length ≠ Digest.length || !digest.all isHexDigit then throw (.notDigest digest)
    return .ofText (← listedPath path) digest

/-- The listed files, or the number of the first line that lists none, blank lines being counted. -/
def parseLines (number : Nat) : List (List Char) → Except (Nat × LineFault) (List ListedFile)
  | [] => .ok []
  | line :: rest =>
    if line.all isBlank then parseLines (number + 1) rest
    else match parseLine line with
      | .error fault => .error (number, fault)
      | .ok file => (parseLines (number + 1) rest).map (file :: ·)

def parse (text : List Char) : Except (Nat × LineFault) (List ListedFile) :=
  parseLines 1 (lines text)

def print (files : List ListedFile) : List Char := files.flatMap ListedFile.line

end Registry
end Stowage
