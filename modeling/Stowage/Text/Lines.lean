/-! The lines of a text. A newline ends a line, a carriage return just before it belongs to the
ending, and nothing follows the last ending unless a character does. -/
namespace Stowage

def dropReturn (line : List Char) : List Char :=
  match line.reverse with
  | '\r' :: front => front.reverse
  | _ => line

def linesFrom (line : List Char) : List Char → List (List Char)
  | [] => if line.isEmpty then [] else [line.reverse]
  | c :: cs =>
    if c = '\n' then dropReturn line.reverse :: linesFrom [] cs else linesFrom (c :: line) cs

def lines (cs : List Char) : List (List Char) := linesFrom [] cs

def textLines (s : String) : List String := (lines s.toList).map String.ofList

end Stowage
