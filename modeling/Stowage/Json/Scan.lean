import Stowage.Json.Fault
import Stowage.Text.Utf8

/-! Scanners of JSON text: each takes the octets that are left and gives a value with the octets
behind it. A fault stands either where reading stopped or at the octet looked at next. -/
namespace Stowage.Json

abbrev Scanned (α : Type) := Except Fault (α × Bytes)

def Fault.stopped (cause : Cause) (rest : Bytes) : Fault := ⟨cause, rest.length⟩

def Fault.ahead (cause : Cause) (rest : Bytes) : Fault := ⟨cause, rest.length - 1⟩

def isSpace (b : UInt8) : Bool := b == 0x20 || b == 0x0a || b == 0x09 || b == 0x0d

def skipSpace (bs : Bytes) : Bytes := bs.dropWhile isSpace

def octet (c : Char) : UInt8 := UInt8.ofNat c.toNat

def isDigitOctet (b : UInt8) : Bool := 0x30 ≤ b && b ≤ 0x39

def startsDigit (bs : Bytes) : Bool := (bs.head?.map isDigitOctet).getD false

def hexOf? (b : UInt8) : Option Nat :=
  if isDigitOctet b then some (b.toNat - 0x30)
  else if 0x61 ≤ b && b ≤ 0x66 then some (b.toNat - 0x57)
  else if 0x41 ≤ b && b ≤ 0x46 then some (b.toNat - 0x37)
  else none

def literal : Bytes → Bytes → Except Fault Bytes
  | [], bs => .ok bs
  | _ :: _, [] => .error (.stopped .endOfValue [])
  | e :: es, b :: bs => if b = e then literal es bs else .error (.stopped .expectedIdent bs)

/-- Where the reading of a string stands: in plain text, behind a backslash, among the four digits
of a number, or behind the first half of a pair, whose second half must follow. -/
inductive Mode
  | plain
  | escape
  | digits (left : Nat) (value : Option Nat) (lead : Option Nat)
  | backslash (lead : Nat)
  | letter (lead : Nat)
deriving DecidableEq

def simpleEscape? (b : UInt8) : Option UInt8 :=
  if b = octet '"' || b = octet '\\' || b = octet '/' then some b
  else if b = octet 'b' then some 0x08
  else if b = octet 'f' then some 0x0c
  else if b = octet 'n' then some 0x0a
  else if b = octet 'r' then some 0x0d
  else if b = octet 't' then some 0x09
  else none

def isTrail (n : Nat) : Bool := 0xdc00 ≤ n && n ≤ 0xdfff

def isLead (n : Nat) : Bool := 0xd800 ≤ n && n ≤ 0xdbff

def joinPair (lead trail : Nat) : Nat := (lead - 0xd800) * 0x400 + (trail - 0xdc00) + 0x10000

def pushChar (n : Nat) (done : Bytes) : Bytes :=
  (String.utf8EncodeChar (Char.ofNat n)).reverse ++ done

def stringOctets (mode : Mode) (done : Bytes) : Bytes → Scanned Bytes
  | [] => .error (.stopped .endOfString [])
  | b :: bs =>
    match mode with
    | .plain =>
      if b = octet '"' then .ok (done.reverse, bs)
      else if b = octet '\\' then stringOctets .escape done bs
      else if b < 0x20 then .error (.stopped .controlCharacter bs)
      else stringOctets .plain (b :: done) bs
    | .escape =>
      if b = octet 'u' then stringOctets (.digits 3 (some 0) none) done bs
      else match simpleEscape? b with
        | some e => stringOctets .plain (e :: done) bs
        | none => .error (.stopped .invalidEscape bs)
    | .digits (left + 1) value lead =>
      stringOctets (.digits left (value.bind fun v => (hexOf? b).map (v * 16 + ·)) lead) done bs
    | .digits 0 value lead =>
      match value.bind fun v => (hexOf? b).map (v * 16 + ·), lead with
      | none, _ => .error (.stopped .invalidEscape bs)
      | some n, none =>
        if isTrail n then .error (.stopped .loneSurrogate bs)
        else if isLead n then stringOctets (.backslash n) done bs
        else stringOctets .plain (pushChar n done) bs
      | some n, some first =>
        if isTrail n then stringOctets .plain (pushChar (joinPair first n) done) bs
        else .error (.stopped .loneSurrogate bs)
    | .backslash first =>
      if b = octet '\\' then stringOctets (.letter first) done bs
        else .error (.stopped .endOfHexEscape bs)
    | .letter first =>
      if b = octet 'u' then stringOctets (.digits 3 (some 0) (some first)) done bs
      else .error (.stopped .endOfHexEscape bs)

/-- The characters of a string whose opening quote has been read. A string that is not UTF-8 is read
to its end; the fault then stands as many octets before that as the string stands for from its first
bad one on. -/
def string (bs : Bytes) : Scanned (List Char) :=
  match stringOctets .plain [] bs with
  | .error f => .error f
  | .ok (octets, rest) =>
    match Utf8.decode? octets with
    | some cs => .ok (cs, rest)
    | none =>
      let good := ((Utf8.fault? octets).map Utf8.Fault.index).getD 0
      .error ⟨.invalidCodePoint, rest.length + (octets.length - good)⟩

def significand (value : Nat) : Bytes → Nat × Bytes
  | [] => (value, [])
  | b :: bs =>
    let next := value * 10 + (b.toNat - 0x30)
    if isDigitOctet b && next < wordLimit then significand next bs else (value, b :: bs)

def float (negative : Bool) (value : Nat) (exponent : Int) (rest : Bytes) : Scanned Found :=
  match Binary64.ofParts value exponent with
  | some x => .ok (.float negative x, rest)
  | none => .error (.stopped .numberOutOfRange rest)

def exponentLimit : Nat := 0x7fffffff

/-- The digits of an exponent behind its first. One too large leaves zero only if the sign makes it
so. -/
def exponentDigits (negative : Bool) (value : Nat) (start : Int) (down : Bool) (exponent : Nat) :
    Bytes → Scanned Found
  | [] => float negative value (if down then start - exponent else start + exponent) []
  | b :: bs =>
    if isDigitOctet b then
      let next := exponent * 10 + (b.toNat - 0x30)
      if next ≤ exponentLimit then exponentDigits negative value start down next bs
      else if value ≠ 0 && !down then .error (.stopped .numberOutOfRange bs)
      else .ok (.float negative .zero, bs.dropWhile isDigitOctet)
    else float negative value (if down then start - exponent else start + exponent) (b :: bs)

def exponent (negative : Bool) (value : Nat) (start : Int) (bs : Bytes) : Scanned Found :=
  let down := bs.head? == some (octet '-')
  let bs := if down || bs.head? == some (octet '+') then bs.drop 1 else bs
  match bs with
  | [] => .error (.stopped .endOfValue [])
  | b :: bs =>
    if isDigitOctet b then exponentDigits negative value start down (b.toNat - 0x30) bs
    else .error (.stopped .invalidNumber bs)

def isExponentMark (bs : Bytes) : Bool :=
  bs.head? == some (octet 'e') || bs.head? == some (octet 'E')

def exponentOrEnd (negative : Bool) (value : Nat) (start : Int) (bs : Bytes) : Scanned Found :=
  if isExponentMark bs then exponent negative value start (bs.drop 1)
    else float negative value start bs

def fraction (negative : Bool) (value : Nat) (start : Int) (bs : Bytes) : Scanned Found :=
  let (more, rest) := significand value bs
  let taken := bs.length - rest.length
  if startsDigit rest then exponentOrEnd negative more (start - taken) (rest.dropWhile isDigitOctet)
  else if taken = 0 then .error (.ahead (if rest.isEmpty then .endOfValue else .invalidNumber) rest)
  else exponentOrEnd negative more (start - taken) rest

def isPoint (bs : Bytes) : Bool := bs.head? == some (octet '.')

def afterInteger (negative : Bool) (value : Nat) (bs : Bytes) : Scanned Found :=
  if isPoint bs then fraction negative value 0 (bs.drop 1)
  else if isExponentMark bs then exponent negative value 0 (bs.drop 1)
  else if !negative then .ok (.integer value, bs)
  else if value = 0 || signedLimit < value then float true value 0 bs
  else .ok (.integer (-value), bs)

def number (negative : Bool) : Bytes → Scanned Found
  | [] => .error (.stopped .endOfValue [])
  | b :: bs =>
    if b = octet '0' then
      if startsDigit bs then .error (.ahead .invalidNumber bs) else afterInteger negative 0 bs
    else if isDigitOctet b then
      let (value, rest) := significand 0 (b :: bs)
      if startsDigit rest then
        let tail := rest.dropWhile isDigitOctet
        let dropped := rest.length - tail.length
        if isPoint tail then fraction negative value dropped (tail.drop 1)
        else exponentOrEnd negative value dropped tail
      else afterInteger negative value rest
    else .error (.stopped .invalidNumber bs)

/-- The fault of a value of another type. A list or an object is not read for it. -/
def wrongType (expected : String) (bs : Bytes) : Fault :=
  let said (scanned : Scanned Found) : Fault :=
    match scanned with
    | .ok (found, rest) => .stopped (.wrongType found expected) rest
    | .error f => f
  match bs with
  | [] => .ahead .expectedValue []
  | b :: rest =>
    if b = octet 'n' then said ((literal (ascii "ull") rest).map (Found.null, ·))
    else if b = octet 't' then said ((literal (ascii "rue") rest).map (Found.boolean true, ·))
    else if b = octet 'f' then said ((literal (ascii "alse") rest).map (Found.boolean false, ·))
    else if b = octet '-' then said (number true rest)
    else if isDigitOctet b then said (number false bs)
    else if b = octet '"' then said ((string rest).map fun (cs, rest) => (.text cs, rest))
    else if b = octet '[' then .stopped (.wrongType .sequence expected) bs
    else if b = octet '\x7b' then .stopped (.wrongType .map expected) bs
    else .ahead .expectedValue bs

def text (bs : Bytes) : Scanned String :=
  match skipSpace bs with
  | [] => .error (.ahead .endOfValue [])
  | b :: rest =>
    if b = octet '"' then (string rest).map fun (cs, rest) => (String.ofList cs, rest)
    else .error (wrongType "a string" (b :: rest))

def port (bs : Bytes) : Except Fault (UInt16 × Bytes) := do
  match skipSpace bs with
  | [] => throw (.ahead .endOfValue [])
  | b :: rest =>
    if b != octet '-' && !isDigitOctet b then throw (wrongType "u16" (b :: rest))
    let (found, rest) ← if b = octet '-' then number true rest else number false (b :: rest)
    match found with
    | .integer value =>
      if 0 ≤ value && value < 65536 then return (UInt16.ofNat value.toNat, rest)
      else throw (.stopped (.wrongValue found "u16") rest)
    | _ => throw (.stopped (.wrongType found "u16") rest)

end Stowage.Json
