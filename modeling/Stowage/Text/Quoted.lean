import Stowage.Text.Hidden

/-! Texts as they are quoted in messages. A backslash stands before the closing quote and before
itself, the usual controls have letters, and any other character without a glyph is written by its
number. -/
namespace Stowage

def numberEscape (c : Char) : List Char :=
  ['\\', 'u', '\x7b'] ++ Nat.toDigits 16 c.toNat ++ ['\x7d']

def quoteChar (quote c : Char) : List Char :=
  if c = '\x00' then ['\\', '0']
  else if c = '\t' then ['\\', 't']
  else if c = '\r' then ['\\', 'r']
  else if c = '\n' then ['\\', 'n']
  else if c = '\\' || c = quote then ['\\', c]
  else if c.toNat < 0x20 || c.toNat = 0x7f || isHidden c then numberEscape c
  else [c]

def quoted (cs : List Char) : List Char := ['"'] ++ cs.flatMap (quoteChar '"') ++ ['"']

def quotedText (s : String) : String := String.ofList (quoted s.toList)

def quotedCharacter (c : Char) : String := String.ofList (['\''] ++ quoteChar '\'' c ++ ['\''])

end Stowage
