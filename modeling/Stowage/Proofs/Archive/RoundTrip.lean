import Stowage.Backup.Inspect
import Stowage.Proofs.Archive.Name

/-! What was written is found again: the search passes over whole members, each with the header of
its long name if it has one, and stops at the first that has the name asked for. -/
namespace Stowage.Archive

open Stowage.Path

theorem length_fill (bs : Bytes) :
    (fill bs).length = (bs.length + (blockSize - 1)) / blockSize * blockSize := by
  rw [fill, List.length_append, length_zeros, fillLength, blockSize]
  omega

section Scan

variable {s : Source} {c : Cursor} {h : Header}

theorem blockAt_encode (room : h.name.length = nameSize)
    (block : slice s.octets c.next blockSize = h.encode) :
    blockAt s.octets c.next = .ok (some h.encode) := by
  have size := length_encode room
  rw [blockAt, block]
  split
  · rename_i empty
    rw [empty] at size
    exact absurd size (by decide)
  · rw [if_neg (by omega)]

theorem nextMember_encode (room : h.name.length = nameSize)
    (block : slice s.octets c.next blockSize = h.encode) (near : c.next - c.position < signedLimit)
    (free : s.reach = none)
    (bound : c.next + blockSize + (h.size + (blockSize - 1)) / blockSize * blockSize < wordLimit) :
    nextMember s c none = .ok (some (⟨h.encode, h.size⟩, ⟨c.next + blockSize,
      c.next + blockSize + (h.size + (blockSize - 1)) / blockSize * blockSize⟩)) := by
  have whole : h.size ≤ (h.size + (blockSize - 1)) / blockSize * blockSize := by
    rw [show blockSize = 512 from rfl]
    omega
  have block_eq : blockSize = 512 := rfl
  have fits : ¬ wordLimit ≤ h.size + (blockSize - 1) := by omega
  have known := sizeOf_encode room (by omega)
  unfold nextMember
  rw [if_neg (Nat.not_le_of_lt near), free, blockAt_encode room block]
  simp only [bind, Except.bind, pure, Except.pure, Option.any_none, Bool.false_eq_true, if_false,
    not_all_zero room, verifyChecksum_encode room, known, if_neg fits,
    if_neg (Nat.not_le_of_lt bound)]

def behind (position size : Nat) : Nat :=
  position + blockSize + (size + (blockSize - 1)) / blockSize * blockSize

theorem add_blockSize_le_behind (position size : Nat) :
    position + blockSize + size ≤ behind position size := by
  rw [behind, show blockSize = 512 from rfl]
  omega

theorem behind_lt (position size : Nat) :
    behind position size < position + blockSize + size + blockSize := by
  rw [behind, show blockSize = 512 from rfl]
  omega

structure Placed (octets : Bytes) (position : Nat) (h : Header) (body rest : Bytes) : Prop where
  room : h.name.length = nameSize
  size : h.size = body.length
  octets : octets.drop position = h.encode ++ (fill body ++ rest)

namespace Placed

variable {octets body rest : Bytes} {position : Nat}

theorem block (placed : Placed octets position h body rest) :
    slice octets position blockSize = h.encode := by
  rw [slice, placed.octets]
  exact List.take_left' (length_encode placed.room)

theorem drop_block (placed : Placed octets position h body rest) :
    octets.drop (position + blockSize) = fill body ++ rest := by
  rw [← List.drop_drop, placed.octets]
  exact List.drop_left' (length_encode placed.room)

theorem body_eq (placed : Placed octets position h body rest) :
    slice octets (position + blockSize) h.size = body := by
  rw [slice, placed.drop_block, placed.size, fill, List.append_assoc]
  exact List.take_left

theorem drop_behind (placed : Placed octets position h body rest) :
    octets.drop (behind position body.length) = rest := by
  rw [behind, ← List.drop_drop, placed.drop_block]
  exact List.drop_left' (length_fill body)

theorem behind_le (placed : Placed octets position h body rest) :
    behind position body.length ≤ octets.length := by
  have whole := congrArg List.length placed.octets
  rw [List.length_drop, List.length_append, List.length_append, length_encode placed.room,
    length_fill] at whole
  rw [behind]
  have block_eq : blockSize = 512 := rfl
  omega

theorem nextMember_eq (placed : Placed s.octets c.next h body rest)
    (near : c.next - c.position < signedLimit) (free : s.reach = none)
    (short : s.octets.length < signedLimit) :
    nextMember s c none =
      .ok (some (⟨h.encode, h.size⟩, ⟨c.next + blockSize, behind c.next body.length⟩)) := by
  have bound : behind c.next body.length < wordLimit :=
    Nat.lt_trans (Nat.lt_of_le_of_lt placed.behind_le short) (by decide)
  rw [← placed.size] at bound ⊢
  exact nextMember_encode placed.room placed.block near free bound

end Placed

theorem noteKind?_file (room : h.name.length = nameSize) (kind : h.kind = fileKind) :
    noteKind? h.encode = none := by
  rw [noteKind?, kindOf_encode room, kind]
  exact ite_self _

theorem noteKind?_longName (room : h.name.length = nameSize) (kind : h.kind = longNameKind) :
    noteKind? h.encode = some .name := by
  rw [noteKind?, isGnu_encode room, kindOf_encode room, kind]
  rfl

theorem layoutOf_file (room : h.name.length = nameSize) (kind : h.kind = fileKind) (bs : Bytes)
    (c : Cursor) :
    layoutOf bs ⟨h.encode, h.size⟩ c = .ok (c, [.stored h.size]) := by
  rw [layoutOf, if_pos (by rw [kindOf_encode room, kind]; decide)]
  rfl

variable {body rest : Bytes} {target : Path} {fuel : Nat} {notes : Notes}

theorem search_file (placed : Placed s.octets c.next h body rest)
    (near : c.next - c.position < signedLimit) (free : s.reach = none)
    (short : s.octets.length < signedLimit) (kind : h.kind = fileKind)
    (plain : notes.extension = none) :
    search s target (fuel + 1) c notes =
      if (nameOf h.encode notes).same target then .ok (some body)
      else search s target fuel ⟨c.next + blockSize, behind c.next body.length⟩ {} := by
  rw [search, plain, placed.nextMember_eq near free short]
  simp only [bind, Except.bind, pure, Except.pure, noteKind?_file placed.room kind,
    layoutOf_file placed.room kind, readRuns, placed.body_eq, List.append_nil]

theorem search_longName {name : Bytes} (placed : Placed s.octets c.next h (name ++ [0]) rest)
    (near : c.next - c.position < signedLimit) (free : s.reach = none)
    (short : s.octets.length < signedLimit) (kind : h.kind = longNameKind) :
    search s target (fuel + 1) c {} =
      search s target fuel ⟨c.next + blockSize + (name ++ [0]).length,
        behind c.next (name ++ [0]).length⟩
        { longName := some (name ++ [0]) } := by
  rw [search, placed.nextMember_eq near free short]
  simp only [bind, Except.bind, noteKind?_longName placed.room kind, placed.body_eq]
  rfl

theorem nameOf_longName (name : Bytes) :
    nameOf h.encode { longName := some (name ++ [0]) } = ⟨name⟩ := by
  simp [nameOf, dropLastZero]

theorem nameOf_header (room : h.name.length = nameSize) : nameOf h.encode {} = ⟨untilZero h.name⟩ :=
  congrArg Path.mk (headerName_encode room)

/-- The search finds these data under this path, or goes on behind them with nothing noted. -/
def Passes (s : Source) (target p : Path) (data rest : Bytes) (fuel : Nat) (c : Cursor) : Prop :=
  ∃ fuel' c', s.octets.drop c'.next = rest ∧ c'.next - c'.position < signedLimit ∧
    s.octets.length - c'.next < fuel' ∧
    search s target fuel c {} = if p.same target then .ok (some data)
      else search s target fuel' c' {}

variable {modified : Nat} {room data name : Bytes} {p : Path}

theorem passes_content (size : room.length = nameSize)
    (named : components ⟨untilZero room⟩ = p.components)
    (octets : s.octets.drop c.next = content room modified data ++ rest)
    (near : c.next - c.position < signedLimit) (free : s.reach = none)
    (short : s.octets.length < signedLimit) (enough : s.octets.length - c.next < fuel) :
    Passes s target p data rest fuel c := by
  have block_eq : blockSize = 512 := rfl
  obtain ⟨fuel, rfl⟩ := Nat.exists_eq_add_one.mpr (Nat.zero_lt_of_lt enough)
  rw [content, List.append_assoc] at octets
  have placed : Placed s.octets c.next ⟨room, data.length, modified, fileKind⟩ data rest :=
    ⟨size, rfl, octets⟩
  have least := add_blockSize_le_behind c.next data.length
  have most := placed.behind_le
  refine ⟨fuel, ⟨c.next + blockSize, behind c.next data.length⟩, placed.drop_behind, ?_, ?_, ?_⟩
  · dsimp only
    omega
  · dsimp only
    omega
  · rw [search_file placed near free short rfl rfl, nameOf_header placed.room,
      same_congr (same_iff.mpr named) target]

theorem placed_longName {octets : Bytes} {position : Nat}
    (h : octets.drop position = longName name ++ rest) :
    ∃ head : Header, head.kind = longNameKind ∧ Placed octets position head (name ++ [0]) rest := by
  have room : (ascii "././@LongLink" ++ zeros (nameSize - (ascii "././@LongLink").length)).length =
      nameSize := by decide
  refine ⟨⟨_, name.length + 1, 0, longNameKind⟩, rfl, room,
    by rw [List.length_append, List.length_singleton], ?_⟩
  rw [h, longName, List.append_assoc]

theorem passes_longName (size : room.length = nameSize)
    (octets : s.octets.drop c.next = longName name ++ (content room modified data ++ rest))
    (near : c.next - c.position < signedLimit) (free : s.reach = none)
    (short : s.octets.length < signedLimit) (enough : s.octets.length - c.next < fuel) :
    Passes s target ⟨name⟩ data rest fuel c := by
  have block_eq : blockSize = 512 := rfl
  obtain ⟨head, kind, first⟩ := placed_longName octets
  have second : Placed s.octets (behind c.next (name ++ [0]).length)
      ⟨room, data.length, modified, fileKind⟩ data rest := by
    refine ⟨size, rfl, first.drop_behind.trans ?_⟩
    rw [content, List.append_assoc]
  have least := add_blockSize_le_behind c.next (name ++ [0]).length
  have tight := behind_lt c.next (name ++ [0]).length
  have least' := add_blockSize_le_behind (behind c.next (name ++ [0]).length) data.length
  have most := second.behind_le
  have limit : signedLimit = 0x8000000000000000 := rfl
  -- Two members are passed, but the fuel counts octets, of which each of them has a block at least.
  obtain ⟨fuel, rfl⟩ : ∃ n, fuel = n + 2 := ⟨fuel - 2, by omega⟩
  let noted : Cursor :=
    ⟨c.next + blockSize + (name ++ [0]).length, behind c.next (name ++ [0]).length⟩
  have near' : noted.next - noted.position < signedLimit := by
    dsimp only [noted]
    omega
  refine ⟨fuel, ⟨noted.next + blockSize, behind noted.next data.length⟩, second.drop_behind, ?_, ?_,
    ?_⟩
  · dsimp only [noted]
    omega
  · dsimp only [noted]
    omega
  · rw [search_longName first near free short kind,
      search_file (c := noted) second near' free short rfl rfl, nameOf_longName]

theorem passes_member {bytes : Bytes} (written : member modified p data = .ok bytes)
    (dotless : .here ∉ p.components) (octets : s.octets.drop c.next = bytes ++ rest)
    (near : c.next - c.position < signedLimit) (free : s.reach = none)
    (short : s.octets.length < signedLimit) (enough : s.octets.length - c.next < fuel) :
    Passes s target p data rest fuel c := by
  obtain ⟨room, size, ⟨rfl, named⟩ | rfl⟩ := member_eq_ok written dotless
  · exact passes_content size named octets near free short enough
  · rw [List.append_assoc] at octets
    exact passes_longName size octets near free short enough

theorem blockAt_ending {octets : Bytes} {position : Nat} (h : octets.drop position = ending) :
    blockAt octets position = .ok (some (zeros blockSize)) := by
  have front : slice octets position blockSize = zeros blockSize := by
    rw [slice, h, ending, zeros, List.take_replicate]
    rfl
  rw [blockAt, front, zeros, show blockSize = 511 + 1 from rfl, List.replicate_succ]
  dsimp only
  rw [if_neg (by rw [List.length_cons, List.length_replicate]; omega)]

theorem all_zeros : (zeros blockSize).all (· == 0) = true := List.all_replicate.trans (by decide)

theorem search_ending (octets : s.octets.drop c.next = ending)
    (near : c.next - c.position < signedLimit) (free : s.reach = none) (fuel : Nat) :
    search s target fuel c {} = .ok none := by
  cases fuel with
  | zero => rfl
  | succ fuel =>
    rw [search, nextMember, if_neg (Nat.not_le_of_lt near), free, blockAt_ending octets]
    simp only [bind, Except.bind, pure, Except.pure, Option.any_none, Bool.false_eq_true, if_false,
      all_zeros, if_true]
    rfl

theorem search_entries {entries : List Entry} {members : List Bytes}
    (written : entries.mapM (fun e => member modified e.path e.data) = .ok members)
    (dotless : ∀ e ∈ entries, .here ∉ e.path.components)
    (octets : s.octets.drop c.next = members.flatten ++ ending)
    (near : c.next - c.position < signedLimit) (free : s.reach = none)
    (short : s.octets.length < signedLimit) (enough : s.octets.length - c.next < fuel) :
    search s target fuel c {} =
      .ok ((entries.find? fun e => e.path.same target).map Entry.data) := by
  induction entries generalizing members c fuel with
  | nil =>
    cases written
    exact search_ending octets near free fuel
  | cons e entries ih =>
    obtain ⟨bytes, rest, first, others, rfl⟩ := mapM_cons_eq_ok.mp written
    rw [List.flatten_cons, List.append_assoc] at octets
    obtain ⟨fuel', c', octets', near', enough', eq⟩ :=
      passes_member first (dotless e List.mem_cons_self) octets near free short enough
    rw [eq]
    by_cases h : e.path.same target
    · rw [if_pos h, List.find?_cons, h]
      rfl
    · rw [if_neg h, List.find?_cons, Bool.eq_false_iff.mpr h]
      exact ih others (fun d hd => dotless d (List.mem_cons_of_mem _ hd)) octets' near' enough'

end Scan

theorem find?_of_write {modified : Nat} {entries : List Entry} {bs : Bytes}
    (written : write modified entries = .ok bs) (dotless : ∀ e ∈ entries, .here ∉ e.path.components)
    (short : bs.length < signedLimit) (target : Path) :
    find? ⟨bs, none⟩ target = .ok ((entries.find? fun e => e.path.same target).map Entry.data) := by
  obtain ⟨members, each, eq⟩ := bind_eq_ok.mp written
  cases eq
  exact search_entries each dotless rfl (by decide) rfl short (Nat.lt_succ_self _)

/-- A text of names with slashes between them, without zeros. -/
structure IsEntryName (text : String) : Prop where
  nonempty : text ≠ ""
  plain : (ofString text).Plain
  clean : 0 ∉ Utf8.ofString text

def entryOf (e : String × Bytes) : Entry := ⟨ofString e.1, e.2⟩

theorem exists_write {entries : List (String × Bytes)} (h : ∀ e ∈ entries, IsEntryName e.1)
    (modified : Nat) :
    ∃ bs, write modified (entries.map entryOf) = .ok bs := by
  have each : ∀ e ∈ entries.map entryOf, ∃ bytes, member modified e.path e.data = .ok bytes := by
    intro e he
    obtain ⟨⟨text, data⟩, ht, rfl⟩ := List.mem_map.mp he
    obtain ⟨nonempty, plain, clean⟩ := h _ ht
    have filled : (ofString text).spelling ≠ [] := fun empty => nonempty (by
      rw [← String.toList_eq_nil_iff]
      exact Utf8.encode_eq_nil_iff.mp empty)
    exact exists_member rfl filled plain clean modified data
  obtain ⟨members, written⟩ := exists_mapM_eq_ok each
  exact ⟨members.flatten ++ ending, bind_eq_ok.mpr ⟨members, written, rfl⟩⟩

/-- Entries of any lengths are all written, and each name gives the data of the first entry that has
it. No more octets than a vector can hold are read. -/
theorem readEntry_of_write {entries : List (String × Bytes)} (h : ∀ e ∈ entries, IsEntryName e.1)
    (modified : Nat) :
    ∃ bs, write modified (entries.map entryOf) = .ok bs ∧
      (bs.length < signedLimit → ∀ target : String,
        readEntry ⟨.ok bs, none⟩ target =
          match entries.find? fun e => (ofString e.1).same (ofString target) with
          | some e => .ok e.2
          | none => .error (.absent target)) := by
  obtain ⟨bs, written⟩ := exists_write h modified
  refine ⟨bs, written, fun short target => ?_⟩
  have dotless : ∀ e ∈ entries.map entryOf, .here ∉ e.path.components := by
    intro e he
    obtain ⟨t, ht, rfl⟩ := List.mem_map.mp he
    exact (h t ht).plain.not_mem.2.1
  have found : find? ⟨bs, none⟩ (ofString target) =
      .ok ((entries.find? fun e => (ofString e.1).same (ofString target)).map Prod.snd) := by
    rw [find?_of_write written dotless short, List.find?_map, Option.map_map]
    rfl
  rw [readEntry]
  dsimp only
  rw [found]
  cases entries.find? fun e => (ofString e.1).same (ofString target) <;> rfl

theorem readEntry_of_write_repeated :
    ∃ bs, write 7 ([("data/./a", [1]), ("data//a", [2])].map entryOf) = .ok bs ∧
      readEntry ⟨.ok bs, none⟩ "data/a" = .ok [1] ∧
      readEntry ⟨.ok bs, none⟩ "a" = .error (.absent "a") := by
  have names : ∀ e ∈ [("data/./a", ([1] : Bytes)), ("data//a", [2])], IsEntryName e.1 := by
    simp only [List.forall_mem_cons, List.not_mem_nil, false_imp_iff, implies_true, and_true]
    exact ⟨⟨by decide, by decide, by decide⟩, ⟨by decide, by decide, by decide⟩⟩
  obtain ⟨bs, written, read⟩ := readEntry_of_write names 7
  have size : (write 7 ([("data/./a", [1]), ("data//a", [2])].map entryOf)).toOption.all (·.length <
      signedLimit) := by
    decide +kernel
  rw [written] at size
  have short : bs.length < signedLimit := by simpa [Except.toOption] using size
  exact ⟨bs, written, (read short _).trans (by decide), (read short _).trans (by decide)⟩

end Stowage.Archive
