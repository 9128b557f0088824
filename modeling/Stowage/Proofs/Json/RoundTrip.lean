import Stowage.Json.Record
import Stowage.Proofs.Json.Scan
import Stowage.Proofs.Outcome

/-! Values that are printed are read back, at whatever depth they stand. A number ends where
something else begins, so that a reader of values is asked only about what stands before a comma or
a new line. -/
namespace Stowage.Json

section Indent

theorem encode_indent (depth : Nat) :
    Utf8.encode (indent depth) = 0x0a :: List.replicate (2 * depth) 0x20 := by
  have ascii : ∀ c ∈ indent depth, c.toNat ≤ 0x7f := by
    intro c hc
    rcases List.mem_cons.mp hc with rfl | hc
    · decide
    · rw [List.eq_of_mem_replicate hc]
      decide
  rw [encode_of_ascii ascii, indent, List.map_cons, List.map_replicate]
  rfl

theorem isSpace_of_mem_indent {depth : Nat} {b : UInt8} (h : b ∈ Utf8.encode (indent depth)) :
    isSpace b := by
  rw [encode_indent] at h
  rcases List.mem_cons.mp h with rfl | h
  · decide
  · rw [List.eq_of_mem_replicate h]
    decide

theorem skipSpace_indent (depth : Nat) (bs : Bytes) :
    skipSpace (Utf8.encode (indent depth) ++ bs) = skipSpace bs :=
  skipSpace_append (fun _ => isSpace_of_mem_indent) bs

end Indent

def Ends (rest : Bytes) : Prop := rest.head? = some (octet ',') ∨ rest.head? = some newline

def Reads {α : Type} (read : Bytes → Scanned α) (printed : Printed) (value : α) : Prop :=
  ∀ depth bs rest, skipSpace bs = skipSpace (Utf8.encode (printed depth) ++ rest) → Ends rest →
    read bs = .ok (value, rest)

theorem encode_stringText (cs : List Char) (rest : Bytes) :
    Utf8.encode (stringText cs) ++ rest =
      octet '"' :: (Utf8.encode (cs.flatMap escape) ++ octet '"' :: rest) := by
  have quote : Utf8.encode ['"'] = [octet '"'] := by decide
  rw [stringText, Utf8.encode_append, Utf8.encode_append, quote, List.append_assoc,
    List.append_assoc]
  rfl

theorem reads_text (s : String) : Reads text (printText s) s := by
  intro depth bs rest h _
  rw [printText, encode_stringText, skipSpace_cons (by decide)] at h
  rw [text, h]
  dsimp only
  rw [if_pos rfl, string_escaped]
  exact congrArg (fun s => Except.ok (s, rest)) (String.ofList_toList)

section Numbers

variable {rest : Bytes} {n : Nat}

theorem Ends.head (h : Ends rest) : startsDigit rest = false ∧ isPoint rest = false ∧
    isExponentMark rest = false := by
  rcases h with h | h <;>
    · simp only [startsDigit, isPoint, isExponentMark, h]
      decide

theorem toNat_octet_of_isDigit {c : Char} (h : isDigit c) : (octet c).toNat = c.toNat := by
  have high := (isDigit_iff.mp h).2
  rw [octet, UInt8.toNat_ofNat', Nat.mod_eq_of_lt (by omega)]

theorem isDigitOctet_octet {c : Char} (h : isDigit c) : isDigitOctet (octet c) := by
  obtain ⟨low, high⟩ := isDigit_iff.mp h
  simp only [isDigitOctet, Bool.and_eq_true, decide_eq_true_eq, UInt8.le_iff_toNat_le,
    UInt8.reduceToNat, toNat_octet_of_isDigit h]
  omega

theorem decimalFrom_octets {cs : List Char} (digits : ∀ c ∈ cs, isDigit c) (v : Nat) :
    decimalFrom v (cs.map octet) = cs.foldl (fun v c => v * 10 + digitValue c) v := by
  rw [decimalFrom, List.foldl_map]
  refine List.foldl_ext _ _ v fun v c mem => ?_
  rw [toNat_octet_of_isDigit (digits c mem), digitValue]

theorem exists_toDigits_cons (h : 0 < n) : ∃ d ds, Nat.toDigits 10 n = Nat.digitChar d :: ds ∧
    0 < d ∧ d < 10 := by
  induction n using Nat.strongRecOn with
  | ind n ih =>
    rw [Nat.toDigits_eq_if (by decide)]
    split
    · rename_i small
      exact ⟨n, [], rfl, h, small⟩
    · obtain ⟨d, ds, eq, pos, small⟩ := ih (n / 10) (by omega) (by omega)
      exact ⟨d, ds ++ [(n % 10).digitChar], by rw [eq]; rfl, pos, small⟩

theorem octet_digitChar : ∀ d < 10, 0 < d → octet (Nat.digitChar d) ≠ octet '0' := by decide

theorem encode_toDigits (n : Nat) :
    Utf8.encode (Nat.toDigits 10 n) = (Nat.toDigits 10 n).map octet := by
  refine encode_of_ascii fun c hc => ?_
  have high := (isDigit_iff.mp (isDigit_of_mem_toDigits (by decide) (by decide) hc)).2
  omega

theorem number_toDigits (fits : n < wordLimit) (h : Ends rest) :
    number false (Utf8.encode (Nat.toDigits 10 n) ++ rest) = .ok (.integer n, rest) := by
  obtain ⟨stop, point, mark⟩ := h.head
  have after (v : Nat) : afterInteger false v rest = .ok (.integer v, rest) := by
    rw [afterInteger, point, mark]
    rfl
  rw [encode_toDigits]
  rcases Nat.eq_zero_or_pos n with rfl | pos
  · change number false (octet '0' :: rest) = _
    rw [number, if_pos rfl, stop]
    exact after 0
  · have digits : ∀ c ∈ Nat.toDigits 10 n, isDigit c :=
      fun c hc => isDigit_of_mem_toDigits (by decide) (by decide) hc
    have octets : ∀ b ∈ (Nat.toDigits 10 n).map octet, isDigitOctet b :=
      List.forall_mem_map.mpr fun c mem => isDigitOctet_octet (digits c mem)
    have value : decimalFrom 0 ((Nat.toDigits 10 n).map octet) = n :=
      (decimalFrom_octets digits 0).trans (decimalValue_toDigits n)
    have taken := (significand_octets octets stop (by decide : 0 < wordLimit)).1 (by rwa [value])
    obtain ⟨d, ds, eq, positive, small⟩ := exists_toDigits_cons pos
    have own : isDigit (Nat.digitChar d) := digits _ (eq ▸ List.mem_cons_self)
    rw [value] at taken
    rw [eq, List.map_cons, List.cons_append] at taken ⊢
    rw [number, if_neg (octet_digitChar d small positive), if_pos (isDigitOctet_octet own), taken]
    dsimp only
    rw [stop, if_neg Bool.false_ne_true]
    exact after n

theorem reads_port (n : UInt16) : Reads port (printNumber n.toNat) n := by
  intro depth bs rest h ends
  have bound := n.toNat_lt
  have read := number_toDigits (n := n.toNat) (by simp only [wordLimit]; omega) ends
  obtain ⟨c, cs, eq⟩ := List.exists_cons_of_ne_nil (l := Nat.toDigits 10 n.toNat) (by simp)
  have digit :=
    isDigitOctet_octet (isDigit_of_mem_toDigits (by decide) (by decide) (eq ▸
      List.mem_cons_self : c ∈ _))
  have apart (b : UInt8) (h : isDigitOctet b) : isSpace b = false ∧ b ≠ octet '-' := by
    have minus : (octet '-').toNat = 45 := by decide
    simp only [isDigitOctet, Bool.and_eq_true, decide_eq_true_eq, UInt8.le_iff_toNat_le,
      UInt8.reduceToNat] at h
    simp only [isSpace, Bool.or_eq_false_iff, beq_eq_false_iff_ne, ne_eq, ← UInt8.toNat_inj,
      UInt8.reduceToNat, minus]
    omega
  obtain ⟨shown, plus⟩ := apart _ digit
  rw [printNumber] at h
  rw [encode_toDigits, eq, List.map_cons, List.cons_append] at h read
  rw [skipSpace_cons shown] at h
  have small : (0 : Int) ≤ n.toNat ∧ (n.toNat : Int) < 65536 := by omega
  rw [port, h]
  simp only [plus, digit, read, small, bind, Except.bind, pure, Except.pure, Bool.not_true,
    Bool.and_false, Bool.and_self, Bool.false_eq_true, if_false, if_true, decide_true,
    Int.toNat_natCast, UInt16.ofNat_toNat]

end Numbers

section Blocks

variable {rest : Bytes} {closing : Char} {depth : Nat}

def blockEnd (closing : Char) (depth : Nat) (items : List Printed) : List Char :=
  (items.flatMap fun item => ',' :: (indent (depth + 1) ++ item (depth + 1))) ++
    (indent depth ++ [closing])

theorem intercalate_cons (line : List Char) (lines : List (List Char)) :
    [','].intercalate (line :: lines) = line ++ lines.flatMap fun l => ',' :: l := by
  induction lines generalizing line with
  | nil => simp
  | cons next lines ih => rw [List.intercalate_cons_cons, ih, List.flatMap_cons]; simp

theorem printBlock_cons (opening closing : Char) (item : Printed) (items : List Printed)
    (depth : Nat) :
    printBlock opening closing (item :: items) depth =
      opening :: (indent (depth + 1) ++ (item (depth + 1) ++ blockEnd closing depth items)) := by
  simp only [printBlock, List.map_cons, intercalate_cons, blockEnd, List.flatMap_map]
  simp

theorem encode_cons_ascii {c : Char} (h : String.utf8EncodeChar c = [octet c]) (cs : List Char) :
    Utf8.encode (c :: cs) = octet c :: Utf8.encode cs := by
  rw [Utf8.encode_cons, h]
  rfl

theorem encode_blockEnd_nil (own : String.utf8EncodeChar closing = [octet closing]) (rest : Bytes) :
    Utf8.encode (blockEnd closing depth []) ++ rest = Utf8.encode (indent depth) ++
      octet closing :: rest := by
  rw [blockEnd, List.flatMap_nil, List.nil_append, Utf8.encode_append, encode_cons_ascii own,
    Utf8.encode_nil, List.append_assoc]
  rfl

theorem encode_blockEnd_cons (item : Printed) (items : List Printed) (rest : Bytes) :
    Utf8.encode (blockEnd closing depth (item :: items)) ++ rest =
      octet ',' :: (Utf8.encode (indent (depth + 1)) ++ (Utf8.encode (item (depth + 1)) ++
        (Utf8.encode (blockEnd closing depth items) ++ rest))) := by
  rw [blockEnd, List.flatMap_cons, List.cons_append, List.cons_append,
    encode_cons_ascii (by decide), List.append_assoc, List.append_assoc, Utf8.encode_append,
    Utf8.encode_append, List.cons_append, List.append_assoc, List.append_assoc]
  rfl

theorem ends_blockEnd (own : String.utf8EncodeChar closing = [octet closing])
    (items : List Printed) :
    Ends (Utf8.encode (blockEnd closing depth items) ++ rest) := by
  cases items with
  | nil =>
    rw [encode_blockEnd_nil own, encode_indent]
    exact .inr rfl
  | cons item items =>
    rw [encode_blockEnd_cons]
    exact .inl rfl

end Blocks

section Readers

variable {α β : Type} {read : Bytes → Scanned α} {printed : Printed} {value : α}

theorem Reads.map (h : Reads read printed value) (f : α → β) :
    Reads (fun bs => (read bs).map fun (v, rest) => (f v, rest)) printed (f value) := by
  intro depth bs rest shown ends
  dsimp only
  rw [h depth bs rest shown ends]
  rfl

def Opens (printed : Printed) (b : UInt8) : Prop :=
  ∀ depth, ∃ tail, Utf8.encode (printed depth) = b :: tail

theorem opens_block {opening closing : Char} (own : String.utf8EncodeChar opening = [octet opening])
    (items : List Printed) :
    Opens (printBlock opening closing items) (octet opening) := by
  intro depth
  cases items with
  | nil => exact ⟨_, encode_cons_ascii own _⟩
  | cons item items => exact ⟨_, by rw [printBlock_cons, encode_cons_ascii own]⟩

theorem opens_object (members : List (String × Printed)) : Opens (printObject members)
    (octet '\x7b') :=
  opens_block (by decide) _

theorem opens_list (items : List Printed) : Opens (printList items) (octet '[') :=
  opens_block (by decide) _

theorem skipSpace_opens {b : UInt8} (opens : Opens printed b) (shown : isSpace b = false)
    (depth : Nat) (rest : Bytes) :
    ∃ tail, Utf8.encode (printed depth) ++ rest = b :: tail ∧
    skipSpace (Utf8.encode (printed depth) ++ rest) = b :: tail := by
  obtain ⟨tail, eq⟩ := opens depth
  rw [eq, List.cons_append]
  exact ⟨_, rfl, skipSpace_cons shown _⟩

theorem reads_optional (h : Reads read printed value) (opens : Opens printed (octet '\x7b')) :
    Reads (optional read) printed (some value) := by
  intro depth bs rest shown ends
  obtain ⟨tail, eq, first⟩ := skipSpace_opens opens (by decide) depth rest
  have whole := h depth _ rest (congrArg skipSpace eq.symm) ends
  rw [optional, shown, first]
  dsimp only
  rw [if_neg (by decide), whole]
  rfl

end Readers

section Records

variable {δ : Type} {s : Shape δ} {draft filled : δ} {members : List (String × Printed)}
    {name : String} {value : Printed}
  {rest : Bytes} {depth : Nat} {closing : Char}

theorem encodeChar_brace : String.utf8EncodeChar '\x7d' = [octet '\x7d'] := by decide

/-- Members that fill a draft: each is printed for a field that is not set yet, and sets it. -/
inductive Fills (s : Shape δ) : δ → List (String × Printed) → δ → Prop
  | done (draft : δ) : Fills s draft [] draft
  | field {draft filled : δ} {name : String} {value : Printed} {members : List (String × Printed)}
  {field : FieldRule δ}
      {set : δ → δ} (named : s.fields.find? (fun f => f.name.toList == name.toList) = some field)
      (unset : field.isSet draft = false) (reads : Reads field.read value set)
      (others : Fills s (set draft) members filled) :
      Fills s draft ((name, value) :: members) filled

theorem Fills.append {middle : δ} {more : List (String × Printed)}
    (h : Fills s draft members middle) (k : Fills s middle more filled) :
    Fills s draft (members ++ more) filled := by
  induction h with
  | done => exact k
  | field named unset reads _ ih => exact .field named unset reads (ih k)

theorem encode_member (name : String) (value : Printed) (depth : Nat) (rest : Bytes) :
    ∃ key, Utf8.encode (printMember name value depth) ++ rest = octet '"' :: key ∧
      string key = .ok (name.toList,
        octet ':' :: octet ' ' :: (Utf8.encode (value depth) ++ rest)) := by
  refine ⟨_, ?_, string_escaped name.toList _⟩
  have separator : Utf8.encode [':', ' '] = [octet ':', octet ' '] := by decide
  rw [printMember, List.append_assoc, Utf8.encode_append, List.append_assoc, encode_stringText,
    Utf8.encode_append, separator]
  rfl

theorem member_eq_ok (depth : Nat) {field : FieldRule δ} {set : δ → δ}
    (named : s.fields.find? (fun f => f.name.toList == name.toList) = some field)
    (unset : field.isSet draft = false) (reads : Reads field.read value set) (ends : Ends rest) :
    s.member draft name.toList (octet ':' :: octet ' ' :: (Utf8.encode (value depth) ++ rest)) =
      .ok (set draft, rest) := by
  have behind : colon (octet ':' :: octet ' ' :: (Utf8.encode (value depth) ++ rest)) =
      .ok (octet ' ' :: (Utf8.encode (value depth) ++ rest)) := rfl
  have blank : ∀ b ∈ [octet ' '], isSpace b := by
    intro b hb
    rw [List.mem_singleton.mp hb]
    decide
  have whole := reads depth (octet ' ' :: (Utf8.encode (value depth) ++ rest)) rest
    (skipSpace_append blank _) ends
  rw [Shape.member, named]
  simp only [unset, behind, whole, placing, bind, Except.bind, pure, Except.pure, Except.mapError,
    Bool.false_eq_true, if_false]

theorem members_step (depth : Nat) {field : FieldRule δ} {set : δ → δ} {first : Bool} {bs : Bytes}
    (named : s.fields.find? (fun f => f.name.toList == name.toList) = some field)
    (unset : field.isSet draft = false) (reads : Reads field.read value set) (ends : Ends rest)
    (next : ∀ key, Utf8.encode (printMember name value depth) ++ rest = octet '"' :: key →
      nextKey first bs = .ok (some key, key)) (fuel : Nat) :
    s.members (fuel + 1) first draft bs = s.members fuel false (set draft) rest := by
  obtain ⟨key, eq, known⟩ := encode_member name value depth rest
  have whole := member_eq_ok depth named unset reads ends
  rw [Shape.members, next key eq]
  simp only [known, whole, placing, bind, Except.bind, Except.mapError]

theorem nextKey_first {bs key : Bytes} (h : skipSpace bs = octet '"' :: key) :
    nextKey true bs = .ok (some key, key) := by
  rw [nextKey, h]
  rfl

theorem nextKey_comma {bs key : Bytes} (h : skipSpace bs = octet '"' :: key) :
    nextKey false (octet ',' :: bs) = .ok (some key, key) := by
  rw [nextKey, skipSpace_cons (by decide)]
  dsimp only
  rw [if_neg (by decide), if_neg Bool.false_ne_true, if_pos rfl, h]
  rfl

theorem members_end {bs : Bytes} (full : s.missing? filled = none)
    (shown : skipSpace bs = octet '\x7d' :: rest) (fuel : Nat) (first : Bool) :
    s.members (fuel + 1) first filled bs = .ok (filled, octet '\x7d' :: rest) := by
  have last : nextKey first bs = .ok (none, octet '\x7d' :: rest) := by
    rw [nextKey, shown]
    rfl
  rw [Shape.members, last]
  simp only [full, placing, bind, Except.bind, pure, Except.pure, Except.mapError]

theorem members_blockEnd (h : Fills s draft members filled) (full : s.missing? filled = none)
    {fuel : Nat} (enough : members.length < fuel) :
    s.members fuel false draft
        (Utf8.encode (blockEnd '\x7d' depth (members.map fun (name, value) =>
          printMember name value)) ++ rest) =
      .ok (filled, octet '\x7d' :: rest) := by
  obtain ⟨fuel, rfl⟩ := Nat.exists_eq_add_one_of_ne_zero (Nat.ne_zero_of_lt enough)
  induction h generalizing fuel with
  | done draft =>
    rw [List.map_nil, encode_blockEnd_nil encodeChar_brace]
    exact members_end full (skipSpace_indent depth _) fuel false
  | @field draft filled name value members field set named unset reads others ih =>
    rw [List.map_cons, encode_blockEnd_cons]
    have fueled : fuel ≠ 0 := by
      simp only [List.length_cons] at enough
      omega
    obtain ⟨fuel, rfl⟩ := Nat.exists_eq_add_one_of_ne_zero fueled
    rw [members_step (depth + 1) named unset reads (ends_blockEnd encodeChar_brace _) fun key eq =>
      nextKey_comma (by rw [skipSpace_indent, eq, skipSpace_cons (by decide)])]
    exact ih full fuel (by simpa using enough)

theorem length_lt_blockEnd (own : String.utf8EncodeChar closing = [octet closing])
    (items : List Printed) (depth : Nat) (rest : Bytes) :
    items.length < (Utf8.encode (blockEnd closing depth items) ++ rest).length := by
  induction items with
  | nil =>
    rw [encode_blockEnd_nil own, List.length_append, List.length_cons, List.length_nil]
    omega
  | cons item items ih =>
    rw [encode_blockEnd_cons]
    simp only [List.length_cons, List.length_append] at ih ⊢
    omega

theorem finish_object (value : δ) (rest : Bytes) :
    finish closeObject (.ok (value, octet '\x7d' :: rest)) = .ok (value, rest) := rfl

/-- Members that fill a record are read from the object they are printed in, whatever stands behind
it. -/
theorem read_object {empty : δ} (h : Fills s empty members filled) (full : s.missing? filled = none)
    {bs : Bytes}
    (shown : skipSpace bs = skipSpace (Utf8.encode (printObject members depth) ++ rest)) :
    s.read empty bs = .ok (filled, rest) := by
  obtain ⟨tail, eq, first⟩ := skipSpace_opens (opens_object members) (by decide) depth rest
  rw [Shape.read, shown, first]
  dsimp only
  rw [if_pos rfl]
  -- The first member is read apart: no comma stands before it.
  cases h with
  | done =>
    have own : tail = octet '\x7d' :: rest := (List.cons.inj eq).2.symm
    rw [own, members_end full (skipSpace_cons (by decide) rest), finish_object]
  | @field _ _ name value members field set named unset reads others =>
    have own : tail = Utf8.encode (indent (depth + 1)) ++
        (Utf8.encode (printMember name value (depth + 1)) ++
          (Utf8.encode (blockEnd '\x7d' depth (members.map fun (name, value) =>
            printMember name value)) ++ rest)) := by
      rw [printObject, List.map_cons, printBlock_cons, encode_cons_ascii (by decide)] at eq
      simpa only [Utf8.encode_append, List.cons_append, List.append_assoc, List.cons.injEq,
        true_and] using eq.symm
    have enough := length_lt_blockEnd encodeChar_brace
      (members.map fun (name, value) => printMember name value) depth rest
    rw [own,
      members_step (depth + 1) named unset reads (ends_blockEnd encodeChar_brace _) fun key eq =>
      nextKey_first (by rw [skipSpace_indent, eq, skipSpace_cons (by decide)]),
      members_blockEnd others full
        (by simp only [List.length_append, List.length_map] at enough ⊢; omega), finish_object]

theorem reads_object {empty : δ} (h : Fills s empty members filled)
    (full : s.missing? filled = none) :
    Reads (s.read empty) (printObject members) filled :=
  fun _ _ _ shown _ => read_object h full shown

end Records

section Lists

variable {α : Type} {read : Bytes → Scanned α} {print : α → Printed} {values done : List α}
    {rest : Bytes} {depth : Nat}

theorem encodeChar_bracket : String.utf8EncodeChar ']' = [octet ']'] := by decide

theorem itemsFrom_step {first : Bool} {bs shown : Bytes} {value : α}
    (next : nextElement first bs = .ok (true, shown)) (item : read shown = .ok (value, rest))
    (fuel : Nat) :
    itemsFrom read (fuel + 1) first done bs = itemsFrom read fuel false (value :: done) rest := by
  rw [itemsFrom, next]
  simp only [item, bind, Except.bind, if_true]

theorem itemsFrom_blockEnd (reads : ∀ v ∈ values, Reads read (print v) v)
    (opens : ∀ v ∈ values, Opens (print v) (octet '\x7b')) {fuel : Nat}
    (enough : values.length < fuel) :
    itemsFrom read fuel false done (Utf8.encode (blockEnd ']' depth (values.map print)) ++ rest) =
      .ok (done.reverse ++ values, octet ']' :: rest) := by
  obtain ⟨fuel, rfl⟩ := Nat.exists_eq_add_one_of_ne_zero (Nat.ne_zero_of_lt enough)
  induction values generalizing fuel done with
  | nil =>
    have last : nextElement false (Utf8.encode (indent depth) ++ octet ']' :: rest) = .ok (false,
        octet ']' :: rest) := by
      rw [nextElement, skipSpace_indent, skipSpace_cons (by decide)]
      rfl
    rw [List.map_nil, encode_blockEnd_nil encodeChar_bracket, itemsFrom, last, List.append_nil]
    rfl
  | cons value values ih =>
    have fueled : fuel ≠ 0 := by
      simp only [List.length_cons] at enough
      omega
    obtain ⟨fuel, rfl⟩ := Nat.exists_eq_add_one_of_ne_zero fueled
    obtain ⟨tail, eq, shown⟩ :=
      skipSpace_opens (opens value List.mem_cons_self) (by decide) (depth + 1)
      (Utf8.encode (blockEnd ']' depth (values.map print)) ++ rest)
    have next :
        nextElement false
          (octet ',' :: (Utf8.encode (indent (depth + 1)) ++ (octet '\x7b' :: tail))) =
        .ok (true, octet '\x7b' :: tail) := by
      rw [nextElement, skipSpace_cons (by decide)]
      dsimp only
      rw [if_neg (by decide), if_neg Bool.false_ne_true, if_pos rfl, skipSpace_indent,
        skipSpace_cons (by decide)]
      rfl
    rw [List.map_cons, encode_blockEnd_cons, eq, itemsFrom_step next
      (reads value List.mem_cons_self (depth + 1) _ _ (congrArg skipSpace eq.symm)
        (ends_blockEnd encodeChar_bracket _)),
      ih (fun v hv => reads v (List.mem_cons_of_mem _ hv)) (fun v hv =>
        opens v (List.mem_cons_of_mem _ hv)) fuel
        (by simpa using enough), List.reverse_cons, List.append_assoc]
    rfl

theorem finish_list (values : List α) (rest : Bytes) :
    finish closeList (placing (.ok (values, octet ']' :: rest))) = .ok (values, rest) := rfl

theorem reads_list (reads : ∀ v ∈ values, Reads read (print v) v)
    (opens : ∀ v ∈ values, Opens (print v) (octet '\x7b')) :
    Reads (list read) (printList (values.map print)) values := by
  intro depth bs rest shown _
  obtain ⟨tail, eq, first⟩ := skipSpace_opens (opens_list (values.map print)) (by decide) depth rest
  rw [list, shown, first]
  dsimp only
  rw [if_pos rfl]
  cases values with
  | nil =>
    have own : tail = octet ']' :: rest := (List.cons.inj eq).2.symm
    have last : nextElement true (octet ']' :: rest) = .ok (false, octet ']' :: rest) := by
      rw [nextElement, skipSpace_cons (by decide)]
      rfl
    rw [own, itemsFrom, last]
    exact finish_list [] rest
  | cons value values =>
    obtain ⟨behind, same, shown⟩ :=
      skipSpace_opens (opens value List.mem_cons_self) (by decide) (depth + 1)
      (Utf8.encode (blockEnd ']' depth (values.map print)) ++ rest)
    have own : tail = Utf8.encode (indent (depth + 1)) ++ octet '\x7b' :: behind := by
      rw [← same]
      rw [printList, List.map_cons, printBlock_cons, encode_cons_ascii (by decide)] at eq
      simpa only [Utf8.encode_append, List.cons_append, List.append_assoc, List.cons.injEq,
        true_and] using eq.symm
    have next : nextElement true (Utf8.encode (indent (depth + 1)) ++ octet '\x7b' :: behind) =
        .ok (true, octet '\x7b' :: behind) := by
      rw [nextElement, skipSpace_indent, skipSpace_cons (by decide)]
      rfl
    have enough : values.length < tail.length := by
      have bound := length_lt_blockEnd encodeChar_bracket (values.map print) depth rest
      rw [own, ← same]
      simp only [List.length_append, List.length_map] at bound ⊢
      omega
    rw [own] at enough ⊢
    rw [itemsFrom_step next
      (reads value List.mem_cons_self (depth + 1) _ _ (congrArg skipSpace same.symm)
        (ends_blockEnd encodeChar_bracket _)),
      itemsFrom_blockEnd (fun v hv => reads v (List.mem_cons_of_mem _ hv)) (fun v hv =>
        opens v (List.mem_cons_of_mem _ hv))
        enough]
    exact finish_list (value :: values) rest

end Lists

end Stowage.Json
