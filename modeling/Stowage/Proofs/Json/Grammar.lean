import Stowage.Json.Skip
import Stowage.Proofs.Json.Scan

/-! The grammar of JSON texts, apart from what reads them. A value is a tree whose leaves hold the
octets that spell them; a text of it has its tokens in a row, with blanks between them. Two texts of
one tree differ in their blanks and in nothing else. -/
namespace Stowage.Json

/-- Octets of which the first is no blank, so that it is seen where they start. -/
structure Token where
  first : UInt8
  more : Bytes
  solid : isSpace first = false

def Token.octets (t : Token) : Bytes := t.first :: t.more

section Leaves

inductive Word
  | null
  | true
  | false

def Word.token : Word → Token
  | .null => ⟨octet 'n', ascii "ull", rfl⟩
  | .true => ⟨octet 't', ascii "rue", rfl⟩
  | .false => ⟨octet 'f', ascii "alse", rfl⟩

structure Digits where
  first : UInt8
  more : Bytes
  digit : isDigitOctet first
  digits : ∀ b ∈ more, isDigitOctet b

def Digits.octets (ds : Digits) : Bytes := ds.first :: ds.more

structure Exponent where
  mark : UInt8
  sign : Option UInt8
  digits : Digits
  isMark : mark = octet 'e' ∨ mark = octet 'E'
  isSign : ∀ b ∈ sign, b = octet '+' ∨ b = octet '-'

def Exponent.octets (e : Exponent) : Bytes := e.mark :: (e.sign.toList ++ e.digits.octets)

/-- A number; zero is the only one whose digits begin with a zero. -/
structure Numeral where
  negative : Bool
  whole : Digits
  fraction : Option Digits
  exponent : Option Exponent
  shortest : whole.first = octet '0' → whole.more = []

def Numeral.fractionOctets (n : Numeral) : Bytes :=
  n.fraction.elim [] fun ds => octet '.' :: ds.octets

def Numeral.exponentOctets (n : Numeral) : Bytes := n.exponent.elim [] Exponent.octets

def Numeral.behind (n : Numeral) : Bytes := n.fractionOctets ++ n.exponentOctets

theorem not_isSpace_of_isDigitOctet {b : UInt8} (h : isDigitOctet b) : isSpace b = false := by
  simp only [isDigitOctet, Bool.and_eq_true, decide_eq_true_eq, UInt8.le_iff_toNat_le,
    UInt8.reduceToNat] at h
  simp only [isSpace, Bool.or_eq_false_iff, beq_eq_false_iff_ne, ne_eq, ← UInt8.toNat_inj,
    UInt8.reduceToNat]
  omega

def Numeral.token (n : Numeral) : Token :=
  if n.negative then ⟨octet '-', n.whole.octets ++ n.behind, rfl⟩
  else ⟨n.whole.first, n.whole.more ++ n.behind, not_isSpace_of_isDigitOctet n.whole.digit⟩

def Numeral.natural? (n : Numeral) : Option Nat :=
  if n.negative || n.fraction.isSome || n.exponent.isSome then none
    else some (decimalFrom 0 n.whole.octets)

structure HexDigit where
  octet : UInt8
  value : Nat
  known : hexOf? octet = some value

/-- A part of a string: an octet of a character, a letter behind a backslash, or a number of four
digits, which is a character or half of one. -/
inductive Piece
  | plain (b : UInt8) (quote : b ≠ octet '"') (backslash : b ≠ octet '\\') (printable : ¬ b < 0x20)
  | escape (letter meant : UInt8) (known : simpleEscape? letter = some meant)
  | unit (a b c d : HexDigit)

def Piece.octets : Piece → Bytes
  | .plain b .. => [b]
  | .escape letter .. => [octet '\\', letter]
  | .unit a b c d => [octet '\\', octet 'u', a.octet, b.octet, c.octet, d.octet]

def unitValue (a b c d : HexDigit) : Nat := ((a.value * 16 + b.value) * 16 + c.value) * 16 + d.value

def encodeUnit (n : Nat) : Bytes := String.utf8EncodeChar (Char.ofNat n)

def before (front : Bytes) (others : Option Bytes) : Option Bytes := others.map (front ++ ·)

/-- The octets that a string stands for, if it has both halves of each character. The first half may
have been seen. -/
def meantBy : Option Nat → List Piece → Option Bytes
  | none, [] => some []
  | none, .plain b .. :: ps => before [b] (meantBy none ps)
  | none, .escape _ meant _ :: ps => before [meant] (meantBy none ps)
  | none, .unit a b c d :: ps =>
    if isTrail (unitValue a b c d) then none
    else if isLead (unitValue a b c d) then meantBy (some (unitValue a b c d)) ps
    else before (encodeUnit (unitValue a b c d)) (meantBy none ps)
  | some lead, .unit a b c d :: ps =>
    if isTrail (unitValue a b c d)
      then before (encodeUnit (joinPair lead (unitValue a b c d))) (meantBy none ps) else none
  | some _, _ => none

structure Quoted where
  pieces : List Piece

def Quoted.body (q : Quoted) : Bytes := q.pieces.flatMap Piece.octets

def Quoted.token (q : Quoted) : Token := ⟨octet '"', q.body ++ [octet '"'], rfl⟩

def Quoted.chars? (q : Quoted) : Option (List Char) := (meantBy none q.pieces).bind Utf8.decode?

end Leaves

section Trees

inductive Value
  | word (w : Word)
  | number (n : Numeral)
  | text (q : Quoted)
  | list (items : List Value)
  | object (members : List (Quoted × Value))

abbrev Member := Quoted × Value

@[elab_as_elim, induction_eliminator]
theorem Value.induction {P : Value → Prop} (word : ∀ w, P (.word w)) (number : ∀ n, P (.number n))
    (text : ∀ q, P (.text q)) (list : ∀ items, (∀ v ∈ items, P v) → P (.list items))
    (object : ∀ members : List Member, (∀ m ∈ members, P m.2) → P (.object members)) (v : Value) :
    P v :=
  @Value.rec P (fun items => ∀ v ∈ items, P v) (fun members => ∀ m ∈ members, P m.2) (fun m =>
    P m.2)
    word number text list object (List.forall_mem_nil _)
    (fun _ _ first others => List.forall_mem_cons.mpr ⟨first, others⟩) (List.forall_mem_nil _)
    (fun _ _ first others => List.forall_mem_cons.mpr ⟨first, others⟩) (fun _ _ own => own) v

def comma : Token := ⟨octet ',', [], rfl⟩

def colonToken : Token := ⟨octet ':', [], rfl⟩

def Frame.opens : Frame → Token
  | .list => ⟨octet '[', [], rfl⟩
  | .object => ⟨octet '\x7b', [], rfl⟩

def Frame.closes (frame : Frame) : Token := ⟨frame.closing, [], by cases frame <;> rfl⟩

/-- The entries of a list or of an object up to its end. One that is not the first has a comma
before it. -/
def block (frame : Frame) : Bool → List (List Token) → List Token
  | _, [] => [frame.closes]
  | true, entry :: entries => entry ++ block frame false entries
  | false, entry :: entries => comma :: (entry ++ block frame false entries)

mutual

def Value.tokens : Value → List Token
  | .word w => [w.token]
  | .number n => [n.token]
  | .text q => [q.token]
  | .list items => Frame.list.opens :: block .list true (itemEntries items)
  | .object members => Frame.object.opens :: block .object true (memberEntries members)

def itemEntries : List Value → List (List Token)
  | [] => []
  | v :: items => v.tokens :: itemEntries items

def memberEntries : List (Quoted × Value) → List (List Token)
  | [] => []
  | (key, v) :: members => (key.token :: colonToken :: v.tokens) :: memberEntries members

end

theorem itemEntries_eq_map (items : List Value) : itemEntries items = items.map Value.tokens := by
  induction items with
  | nil => rfl
  | cons v items ih => rw [itemEntries, ih, List.map_cons]

theorem memberEntries_eq_map (members : List Member) :
    memberEntries members = members.map fun m => m.1.token :: colonToken :: m.2.tokens := by
  induction members with
  | nil => rfl
  | cons m members ih => rw [memberEntries, ih, List.map_cons]

end Trees

section Texts

/-- Tokens in a row, with blanks before each of them, and what stands behind them. -/
inductive Spread : List Token → Bytes → Bytes → Prop
  | nil (rest : Bytes) : Spread [] rest rest
  | cons {t : Token} {ts : List Token} {blank more rest : Bytes} (blanks : ∀ b ∈ blank, isSpace b)
      (others : Spread ts more rest) : Spread (t :: ts) (blank ++ (t.octets ++ more)) rest

def Spells (v : Value) (text : Bytes) : Prop :=
  ∃ rest, Spread v.tokens text rest ∧ ∀ b ∈ rest, isSpace b

/-- What can stand behind a value: a blank, a comma or a closing bracket, or nothing. -/
def Bounds (rest : Bytes) : Prop :=
  ∀ b ∈ rest.head?, isSpace b ∨ b = octet ',' ∨ b = octet ']' ∨ b = octet '\x7d'

variable {t : Token} {ts us : List Token} {bs rest : Bytes} {frame : Frame}
    {entries : List (List Token)}

theorem Token.skipSpace_octets (t : Token) (more : Bytes) :
    skipSpace (t.octets ++ more) = t.octets ++ more :=
  skipSpace_cons t.solid _

theorem Spread.uncons (h : Spread (t :: ts) bs rest) :
    ∃ more, skipSpace bs = t.octets ++ more ∧ more.length < bs.length ∧ Spread ts more rest := by
  cases h with
  | cons blanks others =>
    refine ⟨_, (skipSpace_append blanks _).trans (t.skipSpace_octets _), ?_, others⟩
    simp only [Token.octets, List.length_append, List.length_cons]
    omega

theorem Spread.token (t : Token) (h : Spread ts bs rest) : Spread (t :: ts) (t.octets ++ bs) rest :=
  .cons (List.forall_mem_nil _) h

theorem Spread.skipped (h : Spread (t :: ts) bs rest) : Spread (t :: ts) (skipSpace bs) rest := by
  obtain ⟨more, shown, -, others⟩ := h.uncons
  rw [shown]
  exact others.token t

theorem spread_append :
    Spread (ts ++ us) bs rest ↔ ∃ middle, Spread ts bs middle ∧ Spread us middle rest := by
  induction ts generalizing bs with
  | nil => exact ⟨fun h => ⟨bs, .nil bs, h⟩, fun ⟨_, .nil _, h⟩ => h⟩
  | cons t ts ih =>
    constructor
    · rintro (_ | ⟨blanks, others⟩)
      obtain ⟨middle, front, back⟩ := ih.mp others
      exact ⟨middle, .cons blanks front, back⟩
    · rintro ⟨middle, _ | ⟨blanks, front⟩, back⟩
      exact .cons blanks (ih.mpr ⟨middle, front, back⟩)

theorem Spread.length_le (h : Spread ts bs rest) : rest.length + ts.length ≤ bs.length := by
  induction h with
  | nil => exact Nat.le_refl _
  | cons blanks others ih =>
    simp only [Token.octets, List.length_append, List.length_cons]
    omega

def spaced (blank : Bytes) (ts : List Token) : Bytes := ts.flatMap fun t => blank ++ t.octets

theorem spread_spaced {blank : Bytes} (blanks : ∀ b ∈ blank, isSpace b) (ts : List Token)
    (rest : Bytes) :
    Spread ts (spaced blank ts ++ rest) rest := by
  induction ts with
  | nil => exact .nil rest
  | cons t ts ih =>
    have whole :
        spaced blank (t :: ts) ++ rest = blank ++ (t.octets ++ (spaced blank ts ++ rest)) := by
      simp only [spaced, List.flatMap_cons, List.append_assoc]
    rw [whole]
    exact .cons blanks ih

theorem spells_spaced {blank : Bytes} (blanks : ∀ b ∈ blank, isSpace b) (v : Value) :
    Spells v (spaced blank v.tokens ++ blank) :=
  ⟨blank, spread_spaced blanks v.tokens blank, blanks⟩

theorem Value.exists_tokens (v : Value) : ∃ t ts, v.tokens = t :: ts := by
  cases v <;> exact ⟨_, _, rfl⟩

theorem Spread.length_lt {v : Value} (h : Spread v.tokens bs rest) : rest.length < bs.length := by
  obtain ⟨t, ts, eq⟩ := v.exists_tokens
  have less := h.length_le
  rw [eq, List.length_cons] at less
  omega

theorem bounds_of_blank (h : ∀ b ∈ rest, isSpace b) : Bounds rest :=
  fun b mem => .inl (h b (List.mem_of_mem_head? mem))

theorem bounds_of_spread (h : Spread (t :: ts) bs rest)
    (mark : t.first = octet ',' ∨ t.first = octet ']' ∨ t.first = octet '\x7d') :
    Bounds bs := by
  cases h with
  | @cons _ _ blank more _ blanks others =>
    intro b mem
    cases blank with
    | nil =>
      cases Option.some.inj mem
      exact .inr mark
    | cons c blank =>
      cases Option.some.inj mem
      exact .inl (blanks _ List.mem_cons_self)

theorem bounds_block (h : Spread (block frame false entries) bs rest) : Bounds bs := by
  cases entries with
  | nil =>
    refine bounds_of_spread h (.inr ?_)
    cases frame
    · exact .inl rfl
    · exact .inr rfl
  | cons entry entries => exact bounds_of_spread h (.inl rfl)

theorem Bounds.head (h : Bounds rest) : startsDigit rest = false ∧ isPoint rest = false ∧
    isExponentMark rest = false := by
  cases rest with
  | nil => exact ⟨rfl, rfl, rfl⟩
  | cons b rest =>
    have each : ∀ b : UInt8, isSpace b ∨ b = octet ',' ∨ b = octet ']' ∨ b = octet '\x7d' →
        isDigitOctet b = false ∧ (some b == some (octet '.')) = false ∧
          (some b == some (octet 'e') || some b == some (octet 'E')) = false := by
      simp only [isSpace, Bool.or_eq_true, beq_iff_eq]
      rintro b ((((rfl | rfl) | rfl) | rfl) | rfl | rfl | rfl) <;> decide
    exact each b (h b rfl)

end Texts

end Stowage.Json
