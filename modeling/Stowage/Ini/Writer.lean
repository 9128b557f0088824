import Stowage.Bytes
import Stowage.Ini

/-! The text of settings: a heading for each section, a blank line between sections, and an item on
each line. Controls and backslashes are escaped in keys, values and headings alike. -/
namespace Stowage.Ini

def hexEscape (c : Char) : List Char :=
  ['\\', 'x', '0', '0', hexDigit (c.toNat / 16), hexDigit c.toNat]

def escape (c : Char) : List Char :=
  if c = '\\' then ['\\', '\\']
  else if c = '\x00' then ['\\', '0']
  else if c = '\x07' then ['\\', 'a']
  else if c = '\x08' then ['\\', 'b']
  else if c = '\x0c' then ['\\', 'f']
  else if c = '\x0b' then ['\\', 'v']
  else if c = '\n' then ['\\', 'n']
  else if c = '\t' then ['\\', 't']
  else if c = '\r' then ['\\', 'r']
  else if c.toNat < 0x20 || c.toNat = 0x7f then hexEscape c
  else [c]

def escapeAll (cs : List Char) : List Char := cs.flatMap escape

def itemLine (item : IniItem) : List Char :=
  escapeAll item.key ++ ['='] ++ escapeAll item.value ++ ['\n']

def sectionLines (s : IniSection) : List Char :=
  (match s.name with | some name => ['['] ++ escapeAll name ++ [']', '\n'] | none => []) ++
    s.items.flatMap itemLine

def print (ini : Ini) : List Char := ['\n'].intercalate (ini.map sectionLines)

def heading (name : List Char) : List Char := ['['] ++ escapeAll name ++ [']', '\n']

def sectionPieces (s : IniSection) : List (List Char) :=
  (s.name.map heading).toList ++ s.items.map itemLine

def pieces (ini : Ini) : List (List Char) := [['\n']].intercalate (ini.map sectionPieces)

def writeTo {m : Type → Type} [Monad m] (take : List Char → m Unit) (ini : Ini) : m Unit :=
  ini.pieces.forM take

end Stowage.Ini
