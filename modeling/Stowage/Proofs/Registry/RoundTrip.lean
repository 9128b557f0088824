import Stowage.Proofs.Digest.Streaming
import Stowage.Proofs.Outcome
import Stowage.Proofs.Path.Text
import Stowage.Proofs.Text.Blank
import Stowage.Proofs.Text.Decimal
import Stowage.Registry

/-! A registry that is printed is read back: the same digests, and paths with the same
components. -/
namespace Stowage

theorem linesFrom_append {line : List Char} (h : '\n' ∉ line) (before rest : List Char) :
    linesFrom before (line ++ '\n' :: rest) =
      dropReturn (before.reverse ++ line) :: linesFrom [] rest := by
  induction line generalizing before with
  | nil => rw [List.nil_append, linesFrom, if_pos rfl, List.append_nil]
  | cons c line ih =>
    rw [List.mem_cons, not_or] at h
    rw [List.cons_append, linesFrom, if_neg (Ne.symm h.1), ih h.2, List.reverse_cons,
      List.append_assoc]
    rfl

theorem dropReturn_of_getLast? {line : List Char} (h : line.getLast? ≠ some '\r') :
    dropReturn line = line := by
  unfold dropReturn
  split
  · rename_i front eq
    refine absurd ?_ h
    rw [← List.reverse_reverse line, eq, List.reverse_cons, List.getLast?_concat]
  · rfl

theorem range_of_isHexDigit {c : Char} (h : isHexDigit c) :
    48 ≤ c.toNat ∧ c.toNat ≤ 57 ∨ 97 ≤ c.toNat ∧ c.toNat ≤ 102 ∨ 65 ≤ c.toNat ∧ c.toNat ≤ 70 := by
  simp only [isHexDigit, isDigit, Bool.or_eq_true, Bool.and_eq_true, decide_eq_true_eq, Char.le_def,
    UInt32.le_iff_toNat_le] at h
  rcases h with (digit | small) | large
  · exact .inl digit
  · exact .inr (.inl small)
  · exact .inr (.inr large)

theorem not_isBlank_of_isHexDigit {c : Char} (h : isHexDigit c) : isBlank c = false := by
  have range := range_of_isHexDigit h
  simp only [isBlank, Bool.or_eq_false_iff, Bool.and_eq_false_iff, decide_eq_false_iff_not,
    beq_eq_false_iff_ne]
  omega

namespace ListedFile

open Stowage.Path

structure Printable (f : ListedFile) : Prop where
  length : f.digest.toList.length = Digest.length
  hex (c : Char) : c ∈ f.digest.toList → isHexDigit c ∧ lower c = c
  plain : f.path.Plain
  text : Utf8.encode f.pathText = [slash].intercalate (f.path.components.map Component.octets)
  line : '\n' ∉ f.pathText
  start : ∃ c cs, f.pathText = c :: cs ∧ isBlank c = false
  ending : f.pathText.getLast? ≠ some '\r'

/-- How a file is listed once its line was read: under a path that has no more than its
components. -/
def asRead (f : ListedFile) : ListedFile :=
  ⟨.ofNames (f.path.components.map Component.octets), f.digest⟩

variable {f : ListedFile}

theorem downwardNames_map_name (text : List Char) (names : List Bytes) :
    downwardNames text (names.map .name) = .ok names := by
  induction names with
  | nil => rfl
  | cons s names ih =>
    rw [List.map_cons, downwardNames, ih]
    rfl

theorem map_octets_map_name (names : List Bytes) :
    (names.map Component.name).map Component.octets = names := by
  simp [Function.comp_def, Component.octets]

theorem Printable.listedPath_eq (h : f.Printable) : listedPath f.pathText = .ok f.asRead.path := by
  obtain ⟨names, eq, isName⟩ := h.plain.exists_names
  have text := h.text
  rw [eq, map_octets_map_name] at text
  have components : (Path.mk (Utf8.encode f.pathText)).components = names.map .name := by
    rw [text]
    exact components_intercalate isName
  rw [listedPath, components, downwardNames_map_name]
  cases names with
  | nil =>
    obtain ⟨c, cs, start, -⟩ := h.start
    rw [start] at text
    exact absurd (Utf8.encode_eq_nil_iff.mp text) (List.cons_ne_nil _ _)
  | cons s names =>
    rw [asRead, eq, map_octets_map_name]

theorem Printable.asRead_same (h : f.Printable) : f.asRead.path.components = f.path.components := by
  obtain ⟨names, eq, isName⟩ := h.plain.exists_names
  rw [asRead, eq, map_octets_map_name]
  exact components_intercalate isName

theorem encode_pathText {cs : List Char} (text : f.path.spelling = Utf8.encode cs)
    (plain : f.path.Plain) :
    Utf8.encode f.pathText = [slash].intercalate (f.path.components.map Component.octets) := by
  rw [pathText, encode_intercalate, List.map_map]
  exact congrArg _ (List.map_congr_left fun c hc => encode_decodeLossy_octets text plain hc)

/-- A path that a line has room for: a text of names, without a newline and without a carriage
return at its end. -/
structure Recordable (path : Path) : Prop where
  text : (Utf8.decode? path.spelling).isSome
  plain : path.Plain
  line : 0x0a ∉ path.spelling
  ending : path.spelling.getLast? ≠ some 0x0d

theorem Recordable.pathText (h : Recordable f.path) :
    Utf8.encode f.pathText = [slash].intercalate (f.path.components.map Component.octets) := by
  obtain ⟨text, decoded⟩ := Option.isSome_iff_exists.mp h.text
  exact encode_pathText (Utf8.decode?_eq_some_iff.mp decoded) h.plain

theorem Recordable.newline_not_mem (h : Recordable f.path) : '\n' ∉ f.pathText := by
  intro mem
  have octet : (0x0a : UInt8) ∈ Utf8.encode f.pathText :=
    List.mem_flatMap.mpr ⟨'\n', mem, by decide⟩
  rw [h.pathText] at octet
  rcases mem_intercalate octet with between | ⟨s, hs, own⟩
  · exact absurd between (by decide)
  · obtain ⟨d, hd, rfl⟩ := List.mem_map.mp hs
    rw [h.plain.components_eq] at hd
    obtain ⟨t, ht, rfl, -⟩ := exists_of_mem_inside hd
    exact h.line (mem_of_mem_split ht (octets_ofOctets t ▸ own))

theorem Recordable.getLast?_pathText (h : Recordable f.path) (down : f.path.components ≠ [])
    (ending : ∀ s, f.path.components.getLast? = some (.name s) →
      f.path.spelling.getLast? = s.getLast?) :
    f.pathText.getLast? ≠ some '\r' := by
  intro last
  obtain ⟨names, eq, isName⟩ := h.plain.exists_names
  rcases List.eq_nil_or_concat' names with rfl | ⟨before, s, rfl⟩
  · exact down eq
  · have full : s ≠ [] := (isName s (List.mem_append_right _ List.mem_cons_self)).1
    have own : f.path.components.getLast? = some (.name s) := by
      rw [eq, List.map_append]
      exact List.getLast?_concat
    obtain ⟨front, cut⟩ := List.getLast?_eq_some_iff.mp last
    obtain ⟨pre, whole⟩ := exists_intercalate_concat before s
    have spelled := h.pathText
    rw [eq, map_octets_map_name, whole, cut, Utf8.encode_append] at spelled
    have octets := congrArg List.getLast? spelled
    rw [List.getLast?_append_of_ne_nil _ full, ← ending s own,
      List.getLast?_append_of_ne_nil _ (by decide)] at octets
    exact h.ending octets.symm

theorem Recordable.printable {data : Bytes} {c : Char} {cs : List Char} {rest : List Component}
    (h : Recordable f.path) (digest : f.digest = Stowage.digest data)
    (start : f.path.components = .name (Utf8.encode (c :: cs)) :: rest) (shown : isBlank c = false)
    (ending : ∀ s, f.path.components.getLast? = some (.name s) →
      f.path.spelling.getLast? = s.getLast?) :
    f.Printable := by
  have down : f.path.components ≠ [] := start ▸ List.cons_ne_nil _ _
  refine ⟨?_, fun d hd => ?_, h.plain, h.pathText, h.newline_not_mem, ?_,
    h.getLast?_pathText down ending⟩
  · rw [digest, String.length_toList]
    exact digest_length data
  · have hex : ∀ n < 16, isHexDigit (Nat.digitChar n) ∧
        lower (Nat.digitChar n) = Nat.digitChar n := by decide
    obtain ⟨n, small, rfl⟩ := mem_digest (digest ▸ hd)
    exact hex n small
  · have octets : Utf8.decodeLossy (Component.name (Utf8.encode (c :: cs))).octets = c :: cs :=
      Utf8.decodeLossy_encode _
    rw [ListedFile.pathText, start, List.map_cons, octets]
    cases rest with
    | nil => exact ⟨c, cs, List.intercalate_singleton, shown⟩
    | cons d rest => exact ⟨c, _, List.intercalate_cons_cons, shown⟩

end ListedFile

namespace Registry

open ListedFile

variable {f : ListedFile} {files : List ListedFile}

theorem cutAtBlank_append {front : List Char} (h : ∀ c ∈ front, isBlank c = false)
    (rest : List Char) :
    cutAtBlank (front ++ ' ' :: rest) = some (front, rest) := by
  have shown : ∀ c ∈ front, (!isBlank c) = true := fun c hc => by rw [h c hc]; rfl
  have cut : (front ++ ' ' :: rest).takeWhile (fun c => !isBlank c) = front := by
    rw [List.takeWhile_append_of_pos shown, List.takeWhile_cons_of_neg (by decide), List.append_nil]
  rw [cutAtBlank, cut, List.drop_left]

theorem not_isBlank_of_mem_digest (h : f.Printable) : ∀ c ∈ f.digest.toList, isBlank c = false :=
  fun c hc => not_isBlank_of_isHexDigit (h.hex c hc).1

theorem exists_digest_cons (length : f.digest.toList.length = Digest.length) :
    ∃ d ds, f.digest.toList = d :: ds :=
  List.exists_cons_of_length_pos (by rw [length]; decide)

theorem not_all_isBlank (length : f.digest.toList.length = Digest.length)
    (hex : ∀ c ∈ f.digest.toList, isHexDigit c ∧ lower c = c) (rest : List Char) :
    (f.digest.toList ++ [' ', ' '] ++ rest).all isBlank = false := by
  obtain ⟨d, ds, digest⟩ := exists_digest_cons length
  rw [digest, List.append_assoc, List.cons_append, List.all_cons,
    not_isBlank_of_isHexDigit (hex d (digest ▸ List.mem_cons_self)).1]
  rfl

theorem parseLine_append (length : f.digest.toList.length = Digest.length)
    (hex : ∀ c ∈ f.digest.toList, isHexDigit c ∧ lower c = c) (rest : List Char) :
    parseLine (f.digest.toList ++ [' ', ' '] ++ rest) =
      if (trimStart rest).isEmpty then .error .noPath
      else (listedPath (trimStart rest)).map fun path => ⟨path, f.digest⟩ := by
  have apart : ∀ c ∈ f.digest.toList, isBlank c = false :=
    fun c hc => not_isBlank_of_isHexDigit (hex c hc).1
  obtain ⟨d, ds, digest⟩ := exists_digest_cons length
  have first : trimStart (f.digest.toList ++ [' ', ' '] ++ rest) = f.digest.toList ++
      ' ' :: ' ' :: rest := by
    rw [List.append_assoc, digest]
    exact trimStart_of_head (apart d (digest ▸ List.mem_cons_self)) _
  have second : trimStart (' ' :: rest) = trimStart rest := List.dropWhile_cons_of_pos (by decide)
  have all : f.digest.toList.all isHexDigit = true := List.all_eq_true.mpr fun c hc => (hex c hc).1
  have lowered : f.digest.toList.map lower = f.digest.toList :=
    (List.map_congr_left fun c hc => (hex c hc).2).trans (List.map_id _)
  rw [parseLine, first, cutAtBlank_append apart]
  simp only [second, length, all, ne_eq, not_true_eq_false, decide_false, Bool.not_true,
    Bool.or_false, Bool.false_eq_true, if_false, ofText, lowered, String.ofList_toList]
  split
  · rfl
  · cases listedPath (trimStart rest) <;> rfl

theorem parseLine_line (h : f.Printable) :
    parseLine (f.digest.toList ++ [' ', ' '] ++ f.pathText) = .ok f.asRead := by
  obtain ⟨c, cs, start, shown⟩ := h.start
  have full : f.pathText.isEmpty = false := by rw [start]; rfl
  have untrimmed : trimStart f.pathText = f.pathText := by
    rw [start]
    exact trimStart_of_head shown cs
  rw [parseLine_append h.length h.hex, untrimmed, full, h.listedPath_eq]
  rfl

theorem lines_print (h : ∀ f ∈ files, f.Printable) :
    lines (print files) = files.map fun f => f.digest.toList ++ [' ', ' '] ++ f.pathText := by
  induction files with
  | nil => rfl
  | cons f files ih =>
    have own := h f List.mem_cons_self
    have clean : '\n' ∉ f.digest.toList ++ [' ', ' '] ++ f.pathText := by
      rw [List.mem_append, List.mem_append, not_or, not_or]
      refine ⟨⟨fun mem => ?_, by decide⟩, own.line⟩
      exact absurd (not_isBlank_of_mem_digest own _ mem) (by decide)
    have ending : (f.digest.toList ++ [' ', ' '] ++ f.pathText).getLast? ≠ some '\r' := by
      obtain ⟨c, cs, start, -⟩ := own.start
      rw [List.getLast?_append_of_ne_nil _ (by rw [start]; exact List.cons_ne_nil _ _)]
      exact own.ending
    rw [print, List.flatMap_cons, ListedFile.line, List.append_assoc _ _ (List.flatMap ..),
      List.singleton_append, lines, linesFrom_append clean, List.reverse_nil, List.nil_append,
      dropReturn_of_getLast? ending, List.map_cons]
    exact congrArg (_ :: ·) (ih fun g hg => h g (List.mem_cons_of_mem _ hg))

theorem parseLines_print (h : ∀ f ∈ files, f.Printable) (number : Nat) :
    parseLines number (files.map fun f => f.digest.toList ++ [' ', ' '] ++ f.pathText) =
      .ok (files.map asRead) := by
  induction files generalizing number with
  | nil => rfl
  | cons f files ih =>
    have own := h f List.mem_cons_self
    rw [List.map_cons, parseLines, not_all_isBlank own.length own.hex, parseLine_line own,
      ih fun g hg => h g (List.mem_cons_of_mem _ hg)]
    rfl

theorem parse_print (h : ∀ f ∈ files, f.Printable) :
    parse (print files) = .ok (files.map asRead) := by
  rw [parse, lines_print h, parseLines_print h]

end Registry
end Stowage
