import Stowage.Proofs.Archive.RoundTrip

/-! What is found in an archive that ends early. A name is found if the archive goes on to where the
data of its first entry start, whatever is cut before; of the data there is what the archive still
has, and the cut is not noticed. -/
namespace Stowage.Archive

open Stowage.Path

variable {full part body rest : Bytes} {k fuel : Nat} {c : Cursor} {h : Header} {target : Path}
    {notes : Notes}

theorem slice_take (full : Bytes) (k start length : Nat) :
    slice (full.take k) start length = (slice full start length).take (k - start) := by
  rw [slice, slice, List.drop_take, List.take_take, List.take_take, Nat.min_comm]

theorem length_slice_le (bs : Bytes) (start length : Nat) :
    (slice bs start length).length ≤ length := by
  rw [slice, List.length_take]
  exact Nat.min_le_left ..

theorem slice_take_of_le {start length : Nat} (h : start + length ≤ k) :
    slice (full.take k) start length = slice full start length := by
  rw [slice_take, List.take_of_length_le (Nat.le_trans (length_slice_le ..) (by omega))]

theorem le_of_blockAt_take {position : Nat} {block : Bytes}
    (found : blockAt (full.take k) position = .ok (some block)) :
    position + blockSize ≤ k := by
  rw [blockAt] at found
  split at found
  · cases found
  · rename_i eq
    split at found
    · cases found
    · rename_i long
      have size : (slice (full.take k) position blockSize).length ≤ k - position := by
        rw [slice_take]
        exact List.length_take_le ..
      have block_eq : blockSize = 512 := rfl
      omega

theorem nextMember_take {extension : Option Bytes} (whole : c.next + blockSize ≤ k) :
    nextMember ⟨full.take k, none⟩ c extension = nextMember ⟨full, none⟩ c extension := by
  have same : blockAt (full.take k) c.next = blockAt full c.next := by
    rw [blockAt, blockAt, slice_take_of_le whole]
  rw [nextMember, nextMember, same]

theorem le_of_nextMember_take {extension : Option Bytes} {found : Member × Cursor}
    (next : nextMember ⟨full.take k, none⟩ c extension = .ok (some found)) :
    c.next + blockSize ≤ k := by
  unfold nextMember at next
  rcases there : blockAt (full.take k) c.next with fault | _ | block
  · simp only [there, bind, Except.bind] at next
    split_ifs at next
  · simp only [there, bind, Except.bind] at next
    split_ifs at next
    cases next
  · exact le_of_blockAt_take there

theorem next_le_of_search (found : search ⟨full.take k, none⟩ target fuel c notes =
      .ok (some part)) : c.next + blockSize ≤ k := by
  cases fuel with
  | zero => cases found
  | succ fuel =>
    rw [search] at found
    obtain ⟨_ | ⟨m, c'⟩, next, found⟩ := bind_eq_ok.mp found
    · dsimp only at found
      split at found <;> cases found
    · exact le_of_nextMember_take next

theorem search_file_take (placed : Placed full c.next h body rest)
    (near : c.next - c.position < signedLimit) (short : full.length < signedLimit)
    (kind : h.kind = fileKind) (plain : notes.extension = none) (whole : c.next + blockSize ≤ k) :
    search ⟨full.take k, none⟩ target (fuel + 1) c notes =
      if (nameOf h.encode notes).same target then .ok (some (body.take (k - (c.next + blockSize))))
      else search ⟨full.take k, none⟩ target fuel ⟨c.next + blockSize,
        behind c.next body.length⟩ {} := by
  rw [search, plain, nextMember_take whole, placed.nextMember_eq (s := ⟨full, none⟩) near rfl short]
  simp only [bind, Except.bind, pure, Except.pure, noteKind?_file placed.room kind,
    layoutOf_file placed.room kind, readRuns, slice_take, placed.body_eq, List.append_nil]

theorem search_longName_take {name : Bytes} (placed : Placed full c.next h (name ++ [0]) rest)
    (near : c.next - c.position < signedLimit) (short : full.length < signedLimit)
    (kind : h.kind = longNameKind) (whole : c.next + blockSize ≤ k) :
    search ⟨full.take k, none⟩ target (fuel + 1) c {} =
      let front := (name ++ [0]).take (k - (c.next + blockSize))
      search ⟨full.take k, none⟩ target fuel
        ⟨c.next + blockSize + front.length, behind c.next (name ++ [0]).length⟩
        { longName := some front } := by
  rw [search, nextMember_take whole, placed.nextMember_eq (s := ⟨full, none⟩) near rfl short]
  simp only [bind, Except.bind, noteKind?_longName placed.room kind, slice_take, placed.body_eq]
  rfl

def leadLength (p : Path) : Nat :=
  if (storeName (zeros nameSize) false p).2.isNone then blockSize
    else (longName p.spelling).length + blockSize

def Entry.length (e : Entry) : Nat := leadLength e.path + (fill e.data).length

def dataStart (target : Path) : List Entry → Nat
  | [] => 0
  | e :: rest => if e.path.same target then leadLength e.path else e.length + dataStart target rest

variable {modified : Nat} {room data bytes name : Bytes} {p : Path}

theorem length_content (size : room.length = nameSize) (modified : Nat) (data : Bytes) :
    (content room modified data).length = blockSize + (fill data).length := by
  rw [content, List.length_append, length_encode size]

theorem length_member (written : member modified p data = .ok bytes) :
    bytes.length = (Entry.mk p data).length := by
  have empty : (zeros nameSize).length = nameSize := List.length_replicate
  have whole := length_storeName empty false p
  rw [Entry.length, leadLength]
  unfold member at written
  split at written
  · rename_i room stored
    rw [stored] at whole ⊢
    cases written
    exact length_content whole modified data
  · rename_i room fault stored
    rw [stored] at whole ⊢
    split at written
    · cases written
    · have part := length_storeName whole true (cutName p.spelling)
      split at written
      · rename_i behind cut
        rw [cut] at part
        cases written
        rw [List.length_append, length_content part, ← Nat.add_assoc]
        rfl
      · cases written

theorem behind_eq (position : Nat) (data : Bytes) :
    behind position data.length = position + blockSize + (fill data).length := by
  rw [behind, length_fill]

theorem length_longName (name : Bytes) :
    (longName name).length = blockSize + (fill (name ++ [0])).length := by
  have room : (ascii "././@LongLink" ++ zeros (nameSize - (ascii "././@LongLink").length)).length =
      nameSize := by decide
  rw [longName, List.length_append, length_encode room]

theorem search_member_cut (written : member modified p data = .ok bytes)
    (dotless : .here ∉ p.components) (octets : full.drop c.next = bytes ++ rest)
    (near : c.next - c.position < signedLimit) (short : full.length < signedLimit)
    (cut : k < c.next + leadLength p) :
    search ⟨full.take k, none⟩ target fuel c {} ≠ .ok (some part) := by
  intro found
  have first := next_le_of_search found
  have length := length_member written
  rw [Entry.length] at length
  obtain ⟨room, size, ⟨rfl, -⟩ | rfl⟩ := member_eq_ok written dotless
  · rw [length_content size] at length
    dsimp only at length
    omega
  · rw [List.length_append, length_content size, length_longName] at length
    rw [List.append_assoc] at octets
    obtain ⟨head, kind, placed⟩ := placed_longName octets
    cases fuel with
    | zero => cases found
    | succ fuel =>
      rw [search_longName_take placed near short kind first] at found
      have second := next_le_of_search found
      dsimp only at second length
      rw [behind_eq] at second
      omega

/-- The search finds what is there of the data, which start at the place, under this path, or goes
on behind them with nothing noted. -/
def PassesPart (full : Bytes) (k : Nat) (target p : Path) (data rest : Bytes) (start fuel : Nat)
    (c : Cursor) (notes : Notes) : Prop :=
  ∃ fuel' c', full.drop c'.next = rest ∧ c'.next = start + (fill data).length ∧
    c'.next - c'.position < signedLimit ∧
    k - c'.next < fuel' ∧ search ⟨full.take k, none⟩ target fuel c notes =
      if p.same target then .ok (some (data.take (k - start)))
        else search ⟨full.take k, none⟩ target fuel' c' {}

theorem passesPart_content (size : room.length = nameSize)
    (octets : full.drop c.next = content room modified data ++ rest)
    (near : c.next - c.position < signedLimit) (short : full.length < signedLimit)
    (plain : notes.extension = none)
    (named : (nameOf (Header.encode ⟨room, data.length, modified, fileKind⟩) notes).same target =
      p.same target)
    (enough : k - c.next < fuel) (reached : c.next + blockSize ≤ k) :
    PassesPart full k target p data rest (c.next + blockSize) fuel c notes := by
  have block_eq : blockSize = 512 := rfl
  obtain ⟨fuel, rfl⟩ := Nat.exists_eq_add_one.mpr (Nat.zero_lt_of_lt enough)
  rw [content, List.append_assoc] at octets
  have placed : Placed full c.next ⟨room, data.length, modified, fileKind⟩ data rest :=
    ⟨size, rfl, octets⟩
  have most := placed.behind_le
  have next := behind_eq c.next data
  refine ⟨fuel, ⟨c.next + blockSize, behind c.next data.length⟩, placed.drop_behind, next, ?_, ?_,
    ?_⟩
  · dsimp only
    omega
  · dsimp only
    omega
  · rw [search_file_take placed near short rfl plain reached, named]

theorem passesPart_member (target : Path) (written : member modified p data = .ok bytes)
    (dotless : .here ∉ p.components) (octets : full.drop c.next = bytes ++ rest)
    (near : c.next - c.position < signedLimit) (short : full.length < signedLimit)
    (enough : k - c.next < fuel) (reached : c.next + leadLength p ≤ k) :
    PassesPart full k target p data rest (c.next + leadLength p) fuel c {} := by
  have block_eq : blockSize = 512 := rfl
  have length := length_member written
  rw [Entry.length] at length
  dsimp only at length
  obtain ⟨room, size, ⟨rfl, named⟩ | rfl⟩ := member_eq_ok written dotless
  · have lead : leadLength p = blockSize := by
      rw [length_content size] at length
      omega
    rw [lead] at reached ⊢
    refine passesPart_content size octets near short rfl ?_ enough reached
    rw [nameOf_header size, same_congr (same_iff.mpr named) target]
  · rw [List.append_assoc] at octets
    obtain ⟨head, kind, placed⟩ := placed_longName octets
    have next := behind_eq c.next (p.spelling ++ [0])
    have named := add_blockSize_le_behind c.next (p.spelling ++ [0]).length
    have tight := behind_lt c.next (p.spelling ++ [0]).length
    have lead : c.next + leadLength p = behind c.next (p.spelling ++ [0]).length + blockSize := by
      rw [List.length_append, length_content size, length_longName] at length
      omega
    rw [lead] at reached ⊢
    obtain ⟨fuel, rfl⟩ := Nat.exists_eq_add_one.mpr (Nat.zero_lt_of_lt enough)
    have whole : (p.spelling ++ [0]).take (k - (c.next + blockSize)) = p.spelling ++ [0] :=
      List.take_of_length_le (by omega)
    rw [PassesPart, search_longName_take placed near short kind (by omega), whole]
    have limit : signedLimit = 0x8000000000000000 := rfl
    let noted : Cursor :=
      ⟨c.next + blockSize + (p.spelling ++ [0]).length, behind c.next (p.spelling ++ [0]).length⟩
    refine passesPart_content (c := noted) size placed.drop_behind ?_ short rfl ?_ ?_ reached
    · dsimp only [noted]
      omega
    · rw [nameOf_longName]
    · dsimp only [noted]
      omega

theorem search_ending_take (octets : full.drop c.next = ending) :
    search ⟨full.take k, none⟩ target fuel c {} ≠ .ok (some part) := by
  intro found
  have whole := next_le_of_search found
  cases fuel with
  | zero => cases found
  | succ fuel =>
    rw [search, nextMember_take whole, nextMember, blockAt_ending octets] at found
    simp only [bind, Except.bind, pure, Except.pure, all_zeros, if_true] at found
    split_ifs at found
    cases found

theorem search_entries_take {entries : List Entry} {members : List Bytes}
    (written : entries.mapM (fun e => member modified e.path e.data) = .ok members)
    (dotless : ∀ e ∈ entries, .here ∉ e.path.components)
    (octets : full.drop c.next = members.flatten ++ ending)
    (near : c.next - c.position < signedLimit) (short : full.length < signedLimit)
    (enough : k - c.next < fuel) :
    search ⟨full.take k, none⟩ target fuel c {} = .ok (some part) ↔
      ∃ e, entries.find? (fun e => e.path.same target) = some e ∧
      c.next + dataStart target entries ≤ k ∧
        part = e.data.take (k - (c.next + dataStart target entries)) := by
  induction entries generalizing members c fuel with
  | nil =>
    cases written
    refine ⟨fun found => absurd found (search_ending_take octets), ?_⟩
    rintro ⟨e, nothing, -⟩
    cases nothing
  | cons e entries ih =>
    obtain ⟨bytes, rest, first, others, rfl⟩ := mapM_cons_eq_ok.mp written
    have length := length_member first
    rw [List.flatten_cons, List.append_assoc] at octets
    have own := dotless e List.mem_cons_self
    have least : leadLength e.path ≤ dataStart target (e :: entries) := by
      rw [dataStart, Entry.length]
      split <;> omega
    by_cases reached : c.next + leadLength e.path ≤ k
    · obtain ⟨fuel', c', octets', next, near', enough', eq⟩ :=
        passesPart_member target first own octets near short enough reached
      rw [eq, dataStart, List.find?_cons]
      by_cases same : e.path.same target
      · rw [if_pos same, if_pos same, same]
        simp [reached, eq_comm]
      · rw [if_neg same, if_neg same, Bool.eq_false_iff.mpr same,
          ih others (fun d hd => dotless d (List.mem_cons_of_mem _ hd)) octets' near' enough', next,
          Entry.length]
        simp only [Nat.add_assoc]
    · refine ⟨fun found => absurd found (search_member_cut first own octets near short (by omega)),
        ?_⟩
      rintro ⟨d, -, later, -⟩
      omega

section Whole

variable {bs : Bytes} {entries : List Entry} {first e : Entry}

theorem find?_take_iff (written : write modified entries = .ok bs)
    (dotless : ∀ e ∈ entries, .here ∉ e.path.components) (short : bs.length < signedLimit)
    (inside : k ≤ bs.length) :
    find? ⟨bs.take k, none⟩ target = .ok (some part) ↔
      ∃ e, entries.find? (fun e => e.path.same target) = some e ∧ dataStart target entries ≤ k ∧
        part = e.data.take (k - dataStart target entries) := by
  obtain ⟨members, each, eq⟩ := bind_eq_ok.mp written
  cases eq
  have enough : k - (⟨0, 0⟩ : Cursor).next < ((members.flatten ++ ending).take k).length + 1 := by
    rw [List.length_take_of_le inside]
    exact Nat.lt_succ_self k
  refine (search_entries_take each dotless rfl (by decide) short enough).trans ?_
  rw [Nat.zero_add]

theorem exists_take_eq (bs : Bytes) (k : Nat) : ∃ m, m ≤ bs.length ∧ bs.take k = bs.take m :=
  ⟨min k bs.length, Nat.min_le_right .., List.take_eq_take_min ..⟩

/-- Whatever is found in an archive that ends early is the front of what the name has in the whole
archive. -/
theorem find?_take (written : write modified entries = .ok bs)
    (dotless : ∀ e ∈ entries, .here ∉ e.path.components) (short : bs.length < signedLimit)
    (found : find? ⟨bs.take k, none⟩ target = .ok (some part)) :
    ∃ data, (entries.find? fun e => e.path.same target).map Entry.data = some data ∧
    part <+: data := by
  obtain ⟨m, inside, eq⟩ := exists_take_eq bs k
  rw [eq, find?_take_iff written dotless short inside] at found
  obtain ⟨e, first, -, rfl⟩ := found
  exact ⟨e.data, by rw [first]; rfl, List.take_prefix _ _⟩

theorem eq_of_find?_take {name : Path} {data : Bytes}
    (written : write modified (first :: entries) = .ok bs) (dotless : .here ∉ first.path.components)
    (short : bs.length < signedLimit) (apart : first.path.same target = false)
    (later : find? ⟨bs.take k, none⟩ target = .ok (some part)) (same : first.path.same name)
    (found : find? ⟨bs.take k, none⟩ name = .ok (some data)) : data = first.data := by
  obtain ⟨m, inside, eq⟩ := exists_take_eq bs k
  rw [eq, find?] at later found
  have enough : m - (⟨0, 0⟩ : Cursor).next < (bs.take m).length + 1 := by
    rw [List.length_take_of_le inside]
    exact Nat.lt_succ_self m
  obtain ⟨members, each, eq⟩ := bind_eq_ok.mp written
  cases eq
  obtain ⟨bytes, rest, own, -, rfl⟩ := mapM_cons_eq_ok.mp each
  have octets : ((bytes :: rest).flatten ++ ending).drop (⟨0, 0⟩ : Cursor).next =
      bytes ++ (rest.flatten ++ ending) := by
    rw [List.drop_zero, List.flatten_cons, List.append_assoc]
  have start : (⟨0, 0⟩ : Cursor).next - (⟨0, 0⟩ : Cursor).position < signedLimit := by decide
  have reached : (⟨0, 0⟩ : Cursor).next + leadLength first.path ≤ m :=
    Nat.le_of_not_lt fun cut => search_member_cut own dotless octets start short cut found
  obtain ⟨_, _, -, next, -, -, passed⟩ :=
    passesPart_member target own dotless octets start short enough reached
  obtain ⟨_, _, -, -, -, -, stopped⟩ :=
    passesPart_member name own dotless octets start short enough reached
  rw [passed, apart, if_neg Bool.false_ne_true] at later
  rw [stopped, if_pos same] at found
  cases found
  have behind := next_le_of_search later
  have filled :
      (fill first.data).length =
      first.data.length + (zeros (fillLength first.data.length)).length :=
    List.length_append
  exact List.take_of_length_le (by omega)

theorem exists_lead (written : member modified p data = .ok bytes)
    (dotless : .here ∉ p.components) :
    ∃ lead, lead.length = leadLength p ∧ bytes = lead ++ fill data := by
  have length := length_member written
  rw [Entry.length] at length
  obtain ⟨lead, rfl⟩ : ∃ lead, bytes = lead ++ fill data := by
    obtain ⟨room, -, ⟨rfl, -⟩ | rfl⟩ := member_eq_ok written dotless
    · exact ⟨_, rfl⟩
    · exact ⟨_, (List.append_assoc ..).symm⟩
  rw [List.length_append] at length
  exact ⟨lead, Nat.add_right_cancel length, rfl⟩

theorem data_isPrefix_drop_flatten {members : List Bytes} {rest : Bytes}
    (written : entries.mapM (fun e => member modified e.path e.data) = .ok members)
    (dotless : ∀ e ∈ entries, .here ∉ e.path.components)
    (first : entries.find? (fun e => e.path.same target) = some e) :
    e.data <+: (members.flatten ++ rest).drop (dataStart target entries) := by
  induction entries generalizing members with
  | nil => cases first
  | cons d entries ih =>
    obtain ⟨bytes, others, own, later, rfl⟩ := mapM_cons_eq_ok.mp written
    obtain ⟨lead, length, eq⟩ := exists_lead own (dotless d List.mem_cons_self)
    rw [List.find?_cons] at first
    rw [dataStart, List.flatten_cons, List.append_assoc]
    by_cases same : d.path.same target
    · rw [same] at first
      cases first
      rw [if_pos same, eq, List.append_assoc, List.drop_left' length, fill, List.append_assoc]
      exact List.prefix_append _ _
    · rw [Bool.eq_false_iff.mpr same] at first
      rw [if_neg same, ← length_member own, ← List.drop_drop, List.drop_left]
      exact ih later (fun c hc => dotless c (List.mem_cons_of_mem _ hc)) first

theorem dataStart_add_length_le {members : List Bytes}
    (written : entries.mapM (fun e => member modified e.path e.data) = .ok members)
    (first : entries.find? (fun e => e.path.same target) = some e) :
    dataStart target entries + e.data.length ≤ members.flatten.length := by
  induction entries generalizing members with
  | nil => cases first
  | cons d entries ih =>
    obtain ⟨bytes, others, own, later, rfl⟩ := mapM_cons_eq_ok.mp written
    have length := length_member own
    rw [List.find?_cons] at first
    rw [dataStart, List.flatten_cons, List.length_append, length]
    by_cases same : d.path.same target
    · rw [same] at first
      cases first
      rw [if_pos same, Entry.length, fill, List.length_append]
      dsimp only
      omega
    · rw [Bool.eq_false_iff.mpr same] at first
      rw [if_neg same]
      exact Nat.add_assoc .. ▸ Nat.add_le_add_left (ih later first) _

theorem find?_take_of_ending (written : write modified entries = .ok bs)
    (dotless : ∀ e ∈ entries, .here ∉ e.path.components) (short : bs.length < signedLimit)
    (inside : k ≤ bs.length) (enough : bs.length ≤ k + ending.length)
    (first : entries.find? (fun e => e.path.same target) = some e) :
    find? ⟨bs.take k, none⟩ target = .ok (some e.data) := by
  obtain ⟨members, each, eq⟩ := bind_eq_ok.mp written
  have before := dataStart_add_length_le each first
  have length : bs.length = members.flatten.length + ending.length := by
    cases eq
    exact List.length_append
  rw [find?_take_iff written dotless short inside]
  exact ⟨e, first, by omega, (List.take_of_length_le (by omega)).symm⟩

theorem data_isPrefix_drop (written : write modified entries = .ok bs)
    (dotless : ∀ e ∈ entries, .here ∉ e.path.components)
    (first : entries.find? (fun e => e.path.same target) = some e) :
    e.data <+: bs.drop (dataStart target entries) := by
  obtain ⟨members, each, eq⟩ := bind_eq_ok.mp written
  cases eq
  exact data_isPrefix_drop_flatten each dotless first

end Whole

theorem readEntry_eq_ok_iff {bs data : Bytes} {target : String} :
    readEntry ⟨.ok bs, none⟩ target = .ok data ↔
    find? ⟨bs, none⟩ (ofString target) = .ok (some data) := by
  rw [readEntry]
  dsimp only
  rcases find? ⟨bs, none⟩ (ofString target) with fault | _ | found <;> simp

section Entries

variable {entries : List (String × Bytes)} {target : String}

def first? (target : String) (entries : List (String × Bytes)) : Option (String × Bytes) :=
  entries.find? fun e => (ofString e.1).same (ofString target)

/-- An answer that is no part of an entry: a failure, or all the data of the first entry that has
the name. -/
def Unshortened (entries : List (String × Bytes)) (target : String)
    (answer : Except EntryError Bytes) : Prop :=
  (∃ e, answer = .error e) ∨ ∃ e, first? target entries = some e ∧ answer = .ok e.2

theorem find?_map_entryOf (entries : List (String × Bytes)) (target : String) :
    (entries.map entryOf).find? (fun e => e.path.same (ofString target)) =
      (first? target entries).map entryOf :=
  List.find?_map ..

theorem here_not_mem_entryOf (h : ∀ e ∈ entries, IsEntryName e.1) :
    ∀ e ∈ entries.map entryOf, .here ∉ e.path.components := by
  intro e he
  obtain ⟨t, ht, rfl⟩ := List.mem_map.mp he
  exact (h t ht).plain.not_mem.2.1

/-- The front of an archive answers with part of the data of an entry, and with no failure, exactly
if it ends inside of these data. -/
theorem readEntry_of_isPrefix_iff (h : ∀ e ∈ entries, IsEntryName e.1) (modified : Nat) :
    ∃ bs, write modified (entries.map entryOf) = .ok bs ∧ (bs.length < signedLimit →
      ∀ (target : String) (front : Bytes), front <+: bs →
        let start := dataStart (ofString target) (entries.map entryOf)
        (Unshortened entries target (readEntry ⟨.ok front, none⟩ target) ↔
          ∀ e, first? target entries = some e → front.length < start ∨
          start + e.2.length ≤ front.length) ∧
        ∀ e, first? target entries = some e → e.2 <+: bs.drop start ∧
          (start ≤ front.length →
            readEntry ⟨.ok front, none⟩ target = .ok (e.2.take (front.length - start)))) := by
  obtain ⟨bs, written⟩ := exists_write h modified
  refine ⟨bs, written, fun short target front cut => ?_⟩
  intro start
  have dotless := here_not_mem_entryOf h
  obtain ⟨k, inside, length, rfl⟩ : ∃ k, k ≤ bs.length ∧ (bs.take k).length = k ∧
      front = bs.take k :=
    ⟨front.length, cut.length_le, List.length_take_of_le cut.length_le,
      List.prefix_iff_eq_take.mp cut⟩
  rw [length]
  have read (data : Bytes) : readEntry ⟨.ok (bs.take k), none⟩ target = .ok data ↔
      ∃ e, first? target entries = some e ∧ start ≤ k ∧ data = e.2.take (k - start) := by
    rw [readEntry_eq_ok_iff, find?_take_iff written dotless short inside, find?_map_entryOf]
    simp [entryOf, start]
  have part (e : String × Bytes) (first : first? target entries = some e) (reached : start ≤ k) :
      readEntry ⟨.ok (bs.take k), none⟩ target = .ok (e.2.take (k - start)) :=
        (read _).mpr ⟨e, first, reached, rfl⟩
  refine ⟨⟨?_, fun apart => ?_⟩, fun e first => ⟨?_, part e first⟩⟩
  · intro unshortened e first
    by_contra cut
    rw [not_or, Nat.not_lt, Nat.not_le] at cut
    have answer := part e first cut.1
    rcases unshortened with ⟨fault, failed⟩ | ⟨d, first', whole⟩
    · rw [failed] at answer
      cases answer
    · rw [first] at first'
      cases first'
      rw [whole] at answer
      have size := congrArg List.length (Except.ok.inj answer)
      rw [List.length_take] at size
      omega
  · rcases answer : readEntry ⟨.ok (bs.take k), none⟩ target with fault | data
    · exact .inl ⟨fault, rfl⟩
    · obtain ⟨e, first, reached, rfl⟩ := (read data).mp answer
      have whole := (apart e first).resolve_left (Nat.not_lt.mpr reached)
      exact .inr ⟨e, first, congrArg Except.ok (List.take_of_length_le (by omega))⟩
  · have first' : (entries.map entryOf).find? (fun e => e.path.same (ofString target)) =
        some (entryOf e) := by
      rw [find?_map_entryOf, first]
      rfl
    exact data_isPrefix_drop written dotless first'

theorem readEntry_of_isPrefix_iff_inside :
    let entries : List (String × Bytes) := [("data//a", [1, 2]), ("data/a", [3])]
    ∃ bs, write 7 (entries.map entryOf) = .ok bs ∧ readEntry ⟨.ok (bs.take 513), none⟩ "data/a" =
      .ok [1] ∧
      Unshortened entries "data/a" (readEntry ⟨.ok (bs.take 514), none⟩ "data/a") := by
  intro entries
  have names : ∀ e ∈ entries, IsEntryName e.1 := by
    simp only [entries, List.forall_mem_cons, List.not_mem_nil, false_imp_iff, implies_true,
      and_true]
    exact ⟨⟨by decide, by decide, by decide⟩, ⟨by decide, by decide, by decide⟩⟩
  obtain ⟨bs, written, read⟩ := readEntry_of_isPrefix_iff names 7
  have size : (write 7 (entries.map entryOf)).toOption.all fun bs => 514 < bs.length &&
      bs.length < signedLimit := by
    decide +kernel
  rw [written] at size
  obtain ⟨long, short⟩ : 514 < bs.length ∧ bs.length < signedLimit := by
    simpa [Except.toOption] using size
  have first : first? "data/a" entries = some ("data//a", [1, 2]) := by decide
  have start : dataStart (ofString "data/a") (entries.map entryOf) = 512 := by decide +kernel
  refine ⟨bs, written, ?_, ?_⟩
  · have answer := ((read short "data/a" _ (List.take_prefix 513 bs)).2 _ first).2
    rw [start, List.length_take_of_le (by omega)] at answer
    exact answer (by decide)
  · refine (read short "data/a" _ (List.take_prefix 514 bs)).1.mpr fun e own => .inr ?_
    rw [first] at own
    cases own
    rw [start, List.length_take_of_le (by omega)]
    decide

/-- An archive cut inside of the data of an entry is read as if it had less data. -/
theorem not_unshortened_of_isPrefix :
    ¬ ∀ (entries : List (String × Bytes)) (modified : Nat) (bs front : Bytes) (target : String),
      (∀ e ∈ entries, IsEntryName e.1) → write modified (entries.map entryOf) = .ok bs →
      front <+: bs →
        Unshortened entries target (readEntry ⟨.ok front, none⟩ target) := by
  intro honest
  let entries : List (String × Bytes) := [("data/a", ascii "hello")]
  have names : ∀ e ∈ entries, IsEntryName e.1 := by
    simp only [entries, List.forall_mem_cons, List.not_mem_nil, false_imp_iff, implies_true,
      and_true]
    exact ⟨by decide, by decide, by decide⟩
  obtain ⟨bs, written⟩ := exists_write names 0
  have read : (write 0 (entries.map entryOf)).toOption.all fun bs =>
      (readEntry ⟨.ok (bs.take 514), none⟩ "data/a").toOption == some (ascii "he") := by
        decide +kernel
  rw [written] at read
  have answer : (readEntry ⟨.ok (bs.take 514), none⟩ "data/a").toOption = some (ascii "he") := by
    simpa [Except.toOption] using read
  rcases honest entries 0 bs (bs.take 514) "data/a" names written (List.take_prefix 514 bs) with
    ⟨e, failed⟩ | ⟨e, first, whole⟩
  · rw [failed] at answer
    cases answer
  · rw [show first? "data/a" entries = some ("data/a", ascii "hello") by decide] at first
    cases first
    rw [whole] at answer
    exact absurd answer (by decide)

end Entries

end Stowage.Archive
