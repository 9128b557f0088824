import Stowage.Json.Scan

/-! Passing over a value that nothing asks for. Its brackets, commas, names and words are checked,
and the escapes of its strings are, but its strings need not be text and its numbers may be of any
size. -/
namespace Stowage.Json

inductive SkipMode
  | plain
  | escape
  | digits (left : Nat) (valid : Bool)
deriving DecidableEq

def skipString (mode : SkipMode) : Bytes → Except Fault Bytes
  | [] => .error (.stopped .endOfString [])
  | b :: bs =>
    match mode with
    | .plain =>
      if b = octet '"' then .ok bs
      else if b = octet '\\' then skipString .escape bs
      else if b < 0x20 then .error (.stopped .controlCharacter (b :: bs))
      else skipString .plain bs
    | .escape =>
      if b = octet 'u' then skipString (.digits 3 true) bs
      else if (simpleEscape? b).isSome then skipString .plain bs
      else .error (.stopped .invalidEscape bs)
    | .digits (left + 1) valid => skipString (.digits left (valid && (hexOf? b).isSome)) bs
    | .digits 0 valid =>
      if valid && (hexOf? b).isSome then skipString .plain bs
        else .error (.stopped .invalidEscape bs)

def skipExponent (bs : Bytes) : Except Fault Bytes :=
  let bs := if bs.head? == some (octet '+') || bs.head? == some (octet '-') then bs.drop 1 else bs
  if startsDigit bs then .ok (bs.dropWhile isDigitOctet)
    else .error (.stopped .invalidNumber (bs.drop 1))

def skipFraction (bs : Bytes) : Except Fault Bytes :=
  let rest := bs.dropWhile isDigitOctet
  if !startsDigit bs then .error (.ahead .invalidNumber rest)
  else if isExponentMark rest then skipExponent (rest.drop 1)
  else .ok rest

def skipNumber : Bytes → Except Fault Bytes
  | [] => .error (.stopped .invalidNumber [])
  | b :: bs =>
    let tail (rest : Bytes) : Except Fault Bytes :=
      if isPoint rest then skipFraction (rest.drop 1)
      else if isExponentMark rest then skipExponent (rest.drop 1)
      else .ok rest
    if b = octet '0' then if startsDigit bs then .error (.ahead .invalidNumber bs) else tail bs
    else if isDigitOctet b then tail (bs.dropWhile isDigitOctet)
    else .error (.stopped .invalidNumber bs)

inductive Frame
  | list
  | object
deriving DecidableEq

def Frame.closing : Frame → UInt8
  | .list => octet ']'
  | .object => octet '\x7d'

def Frame.endFault (frame : Frame) : Fault :=
  match frame with
  | .list => .ahead .endOfList []
  | .object => .ahead .endOfObject []

def skipKey (frame : Frame) (bs : Bytes) : Except Fault Bytes :=
  match frame with
  | .list => .ok bs
  | .object => do
    match skipSpace bs with
    | [] => throw (.ahead .endOfObject [])
    | b :: rest =>
      if b ≠ octet '"' then throw (.ahead .keyNotString (b :: rest))
      match skipSpace (← skipString .plain rest) with
      | [] => throw (.ahead .endOfObject [])
      | c :: rest =>
        if c = octet ':' then return rest else throw (.ahead .expectedColon (c :: rest))

def leave : List Frame → Bytes → Except Fault (List Frame × Bytes)
  | [], bs => .ok ([], bs)
  | frame :: frames, bs =>
    match skipSpace bs with
    | [] => .error frame.endFault
    | b :: rest =>
      if b = octet ',' then (skipKey frame rest).map (frame :: frames, ·)
      else if b = frame.closing then leave frames rest
      else
        .error (.ahead
          (match frame with | .list => .expectedListEnd | .object => .expectedObjectEnd)
          (b :: rest))

def enter (frame : Frame) (frames : List Frame) (bs : Bytes) : Except Fault (List Frame × Bytes) :=
  match skipSpace bs with
  | [] => .error frame.endFault
  | b :: rest =>
    if b = frame.closing then leave frames rest
      else (skipKey frame (b :: rest)).map (frame :: frames, ·)

def skipToken (frames : List Frame) (b : UInt8) (rest : Bytes) :
    Except Fault (List Frame × Bytes) := do
  if b = octet '[' then enter .list frames rest
  else if b = octet '\x7b' then enter .object frames rest
  else
    let after ←
      if b = octet 'n' then literal (ascii "ull") rest
      else if b = octet 't' then literal (ascii "rue") rest
      else if b = octet 'f' then literal (ascii "alse") rest
      else if b = octet '-' then skipNumber rest
      else if isDigitOctet b then skipNumber (b :: rest)
      else if b = octet '"' then skipString .plain rest
      else throw (.ahead .expectedValue (b :: rest))
    leave frames after

def skipFrom : Nat → List Frame → Bytes → Except Fault Bytes
  | 0, _, bs => .ok bs
  | fuel + 1, frames, bs => do
    match skipSpace bs with
    | [] => throw (.ahead .endOfValue [])
    | b :: rest =>
      let (frames, rest) ← skipToken frames b rest
      if frames.isEmpty then return rest else skipFrom fuel frames rest

def skip (bs : Bytes) : Except Fault Bytes := skipFrom (bs.length + 1) [] bs

end Stowage.Json
