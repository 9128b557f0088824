/-! Settings in sections: keys with values, in the order in which they were written. The first
section of a name and the first item of a key are the ones that count. -/
namespace Stowage

structure IniItem where
  key : List Char
  value : List Char
deriving DecidableEq

structure IniSection where
  name : Option (List Char)
  items : List IniItem
deriving DecidableEq

abbrev Ini := List IniSection

namespace Ini

def value? (ini : Ini) (name key : String) : Option (List Char) := do
  let s ← ini.find? fun s => s.name == some name.toList
  let item ← s.items.find? fun item => item.key == key.toList
  return item.value

def addItem (name : Option (List Char)) (item : IniItem) : Ini → Ini
  | [] => [⟨name, [item]⟩]
  | s :: rest =>
    if s.name = name then { s with items := s.items ++ [item] } :: rest
      else s :: addItem name item rest

end Ini
end Stowage
