import Stowage.Bytes

/-! JSON text in lines, two spaces for each depth. A piece of text is made for the depth it stands
at. -/
namespace Stowage.Json

abbrev Printed := Nat → List Char

def escapeNumber (c : Char) : List Char :=
  ['\\', 'u', '0', '0', hexDigit (c.toNat / 16), hexDigit c.toNat]

def escape (c : Char) : List Char :=
  if c = '"' then ['\\', '"']
  else if c = '\\' then ['\\', '\\']
  else if c = '\x08' then ['\\', 'b']
  else if c = '\t' then ['\\', 't']
  else if c = '\n' then ['\\', 'n']
  else if c = '\x0c' then ['\\', 'f']
  else if c = '\r' then ['\\', 'r']
  else if c.toNat < 0x20 then escapeNumber c
  else [c]

def stringText (cs : List Char) : List Char := ['"'] ++ cs.flatMap escape ++ ['"']

def printText (s : String) : Printed := fun _ => stringText s.toList

def printNumber (n : Nat) : Printed := fun _ => Nat.toDigits 10 n

def indent (depth : Nat) : List Char := '\n' :: List.replicate (2 * depth) ' '

def printBlock (opening closing : Char) (items : List Printed) : Printed := fun depth =>
  match items with
  | [] => [opening, closing]
  | _ =>
    let lines := items.map fun item => indent (depth + 1) ++ item (depth + 1)
    [opening] ++ [','].intercalate lines ++ indent depth ++ [closing]

def printList (items : List Printed) : Printed := printBlock '[' ']' items

def printMember (name : String) (value : Printed) : Printed := fun depth =>
  stringText name.toList ++ [':', ' '] ++ value depth

def printObject (members : List (String × Printed)) : Printed :=
  printBlock '\x7b' '\x7d' (members.map fun (name, value) => printMember name value)

end Stowage.Json
