import Stowage.Json.Skip

/-! Records: objects with named fields, which may also be written as lists of the fields in order.
Names that are no field are passed over. A record is built up in a draft, which says what has been
set so far. -/
namespace Stowage.Json

structure FieldRule (δ : Type) where
  name : String
  required : Bool
  isSet : δ → Bool
  read : Bytes → Scanned (δ → δ)

structure Shape (δ : Type) where
  label : String
  fields : List (FieldRule δ)

/-- A fault of the record as a whole has no place before its end has been looked for. -/
inductive Trouble
  | placed (fault : Fault)
  | unplaced (cause : Cause) (rest : Bytes)

abbrev Attempt (α : Type) := Except Trouble (α × Bytes)

def placing {α : Type} (scanned : Except Fault α) : Except Trouble α := scanned.mapError .placed

def nextKey (first : Bool) (bs : Bytes) : Except Fault (Option Bytes × Bytes) :=
  match skipSpace bs with
  | [] => .error (.ahead .endOfObject [])
  | b :: rest =>
    if b = octet '\x7d' then .ok (none, b :: rest)
    else if first then
      if b = octet '"' then .ok (some rest, rest) else .error (.ahead .keyNotString (b :: rest))
    else if b = octet ',' then
      match skipSpace rest with
      | [] => .error (.ahead .endOfValue [])
      | c :: rest =>
        if c = octet '"' then .ok (some rest, rest)
        else
          .error (.ahead (if c = octet '\x7d' then .trailingComma else .keyNotString) (c :: rest))
    else .error (.ahead .expectedObjectEnd (b :: rest))

def nextElement (first : Bool) (bs : Bytes) : Except Fault (Bool × Bytes) :=
  match skipSpace bs with
  | [] => .error (.ahead .endOfList [])
  | b :: rest =>
    if b = octet ']' then .ok (false, b :: rest)
    else if first then .ok (true, b :: rest)
    else if b = octet ',' then
      match skipSpace rest with
      | [] => .error (.ahead .endOfValue [])
      | c :: rest =>
        if c = octet ']' then .error (.ahead .trailingComma (c :: rest)) else .ok (true, c :: rest)
    else .error (.ahead .expectedListEnd (b :: rest))

def colon (bs : Bytes) : Except Fault Bytes :=
  match skipSpace bs with
  | [] => .error (.ahead .endOfObject [])
  | b :: rest => if b = octet ':' then .ok rest else .error (.ahead .expectedColon (b :: rest))

def closeObject (bs : Bytes) : Bytes × Option Cause :=
  match skipSpace bs with
  | [] => ([], some .endOfObject)
  | b :: rest =>
    if b = octet '\x7d' then (rest, none)
    else (b :: rest, some (if b = octet ',' then .trailingComma else .trailingCharacters))

def closeList (bs : Bytes) : Bytes × Option Cause :=
  match skipSpace bs with
  | [] => ([], some .endOfList)
  | b :: rest =>
    if b = octet ']' then (rest, none)
    else if b = octet ',' then
      let rest := skipSpace rest
      (rest, some (if rest.head? = some (octet ']') then .trailingComma else .trailingCharacters))
    else (b :: rest, some .trailingCharacters)

def finish {α : Type} (close : Bytes → Bytes × Option Cause) : Attempt α → Scanned α
  | .error (.placed fault) => .error fault
  | .error (.unplaced cause rest) => .error (.stopped cause (close rest).1)
  | .ok (value, rest) =>
    match close rest with
    | (rest, none) => .ok (value, rest)
    | (rest, some cause) => .error (.ahead cause rest)

namespace Shape

variable {δ : Type}

/-- The value behind a name, if that is the name of a field that is not set yet; else it is passed
over. -/
def member (s : Shape δ) (draft : δ) (name : List Char) (bs : Bytes) :
    Except Trouble (δ × Bytes) := do
  match s.fields.find? fun f => f.name.toList == name with
  | none => return (draft, ← placing (do skip (← colon bs)))
  | some field =>
    if field.isSet draft then throw (.unplaced (.duplicateField field.name) bs)
    let (set, rest) ← placing (do field.read (← colon bs))
    return (set draft, rest)

def missing? (s : Shape δ) (draft : δ) : Option (FieldRule δ) :=
  s.fields.find? fun f => f.required && !f.isSet draft

def members (s : Shape δ) : Nat → Bool → δ → Bytes → Except Trouble (δ × Bytes)
  | 0, _, draft, bs => .ok (draft, bs)
  | fuel + 1, first, draft, bs => do
    match ← placing (nextKey first bs) with
    | (none, rest) =>
      match s.missing? draft with
      | some field => throw (.unplaced (.missingField field.name) rest)
      | none => return (draft, rest)
    | (some key, _) =>
      let (name, rest) ← placing (string key)
      let (draft, rest) ← s.member draft name rest
      s.members fuel false draft rest

def lengthText (s : Shape δ) : String :=
  s!"{s.label} with {s.fields.length} " ++ if s.fields.length = 1 then "element" else "elements"

def elements (s : Shape δ) (index : Nat) (first : Bool) (draft : δ) (bs : Bytes) :
    List (FieldRule δ) → Except Trouble (δ × Bytes)
  | [] => .ok (draft, bs)
  | field :: fields => do
    let (found, rest) ← placing (nextElement first bs)
    if found then
      let (set, rest) ← placing (field.read rest)
      s.elements (index + 1) false (set draft) rest fields
    else if field.required then throw (.unplaced (.wrongLength index s.lengthText) rest)
    else s.elements (index + 1) first draft rest fields

/-- A record, read into an empty draft. Each member takes an octet, so that the octets bound their
number. -/
def read (s : Shape δ) (empty : δ) (bs : Bytes) : Scanned δ :=
  match skipSpace bs with
  | [] => .error (.ahead .endOfValue [])
  | b :: rest =>
    if b = octet '\x7b' then finish closeObject (s.members (rest.length + 1) true empty rest)
    else if b = octet '[' then finish closeList (s.elements 0 true empty rest s.fields)
    else .error (wrongType s.label (b :: rest))

end Shape

def itemsFrom {α : Type} (read : Bytes → Scanned α) :
    Nat → Bool → List α → Bytes → Except Fault (List α × Bytes)
  | 0, _, done, bs => .ok (done.reverse, bs)
  | fuel + 1, first, done, bs => do
    let (found, rest) ← nextElement first bs
    if found then
      let (value, rest) ← read rest
      itemsFrom read fuel false (value :: done) rest
    else return (done.reverse, rest)

def list {α : Type} (read : Bytes → Scanned α) (bs : Bytes) : Scanned (List α) :=
  match skipSpace bs with
  | [] => .error (.ahead .endOfValue [])
  | b :: rest =>
    if b = octet '[' then
      finish closeList (placing (itemsFrom read (rest.length + 1) true [] rest))
    else .error (wrongType "a sequence" (b :: rest))

def optional {α : Type} (read : Bytes → Scanned α) (bs : Bytes) : Scanned (Option α) :=
  match skipSpace bs with
  | b :: rest =>
    if b = octet 'n' then (literal (ascii "ull") rest).map (none, ·)
    else (read (b :: rest)).map fun (value, rest) => (some value, rest)
  | [] => (read []).map fun (value, rest) => (some value, rest)

def parse {α : Type} (read : Bytes → Scanned α) (text : Bytes) : Except Placed α :=
  match read text with
  | .error fault => .error (fault.place text)
  | .ok (value, rest) =>
    match skipSpace rest with
    | [] => .ok value
    | rest => .error ((Fault.ahead .trailingCharacters rest).place text)

end Stowage.Json
