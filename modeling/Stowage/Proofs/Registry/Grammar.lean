import Mathlib.Data.List.Forall2
import Stowage.Proofs.Registry.Paths
import Stowage.Proofs.Registry.RoundTrip
import Stowage.Registry.Tree

/-! The grammar of a registry, told by its lines alone: a line is blank, or it has a digest and a
path in two columns. A text of such lines lists one file for each line that is not blank; of any
other text, the first line that is neither blank nor in two columns is reported. -/
namespace Stowage

open Stowage.Path

variable {text line digest path : List Char} {f : ListedFile}

/-- A line in two columns. Blanks may stand in front and one at least stands between; the path runs
from its first character, which is not blank, to the end of the line. -/
structure Columns (line digest path : List Char) : Prop where
  cut : ∃ front gap, line = front ++ digest ++ gap ++ path ∧
    (∀ c ∈ front, isBlank c) ∧ gap ≠ [] ∧ ∀ c ∈ gap, isBlank c
  length : digest.length = 64
  hex (c : Char) : c ∈ digest → isHexDigit c
  start : ∃ c rest, path = c :: rest ∧ isBlank c = false

/-- A relative path without a way up that has at least one name. -/
structure LeadsDown (p : Path) : Prop where
  relative : .root ∉ p.components
  inside : .up ∉ p.components
  named : ∃ s, .name s ∈ p.components

/-- The line lists the file: under the digest of its first column in lowercase, and under the names
in the path of its second column, spelled with a slash between each two. -/
def Lists (line : List Char) (f : ListedFile) : Prop :=
  ∃ digest path, Columns line digest path ∧ LeadsDown ⟨Utf8.encode path⟩ ∧
    f.digest.toList = digest.map Char.toLower ∧
    f.path.components = (components ⟨Utf8.encode path⟩).filter Component.isName ∧
    f.path.spelling = [slash].intercalate (f.path.components.map Component.octets)

def Fits (line : List Char) : Prop := (∀ c ∈ line, isBlank c) ∨ ∃ f, Lists line f

def shownLines (text : List Char) : List (List Char) :=
  (lines text).filter fun line => !line.all isBlank

/-- The first line that a registry may not have is the one of this number, counted from one. -/
def FirstUnfit (lines : List (List Char)) (number : Nat) : Prop :=
  ∃ before line after, lines = before ++ line :: after ∧ number = before.length + 1 ∧
    (∀ l ∈ before, Fits l) ∧ ¬ Fits line

theorem listedPath_eq_ok_iff {p : Path} :
    listedPath path = .ok p ↔
      LeadsDown ⟨Utf8.encode path⟩ ∧
      p.components = (components ⟨Utf8.encode path⟩).filter Component.isName ∧
      p.spelling = [slash].intercalate (p.components.map Component.octets) := by
  constructor
  · intro listed
    obtain ⟨names, down, nonempty, isName, rfl⟩ := exists_names_of_listedPath listed
    have components : (ofNames names).components = names.map .name := components_intercalate isName
    obtain ⟨s, rest, rfl⟩ := List.exists_cons_of_ne_nil nonempty
    obtain ⟨relative, inside, eq⟩ := downwardNames_eq_ok_iff.mp down
    refine ⟨⟨relative, inside, s, ?_⟩, components.trans eq.symm, ?_⟩
    · exact name_mem_of_downwardNames down s List.mem_cons_self
    · rw [components, ListedFile.map_octets_map_name]
      rfl
  · rintro ⟨⟨relative, inside, s, named⟩, names, spelled⟩
    obtain ⟨parts, eq⟩ : ∃ parts : List Bytes,
        (components ⟨Utf8.encode path⟩).filter Component.isName = parts.map .name :=
      exists_map_name fun c hc => (List.mem_filter.mp hc).2
    have down : downwardNames path (components ⟨Utf8.encode path⟩) = .ok parts :=
      downwardNames_eq_ok_iff.mpr ⟨relative, inside, eq⟩
    rw [names, eq, ListedFile.map_octets_map_name] at spelled
    have nonempty : parts ≠ [] := by
      rintro rfl
      have kept : Component.name s ∈ (components ⟨Utf8.encode path⟩).filter Component.isName :=
        List.mem_filter.mpr ⟨named, rfl⟩
      rw [eq] at kept
      exact List.not_mem_nil kept
    rw [listedPath, down]
    obtain ⟨t, rest, rfl⟩ := List.exists_cons_of_ne_nil nonempty
    exact congrArg Except.ok (congrArg Path.mk spelled.symm)

section Cut

variable {front rest cs : List Char}

theorem trimStart_append (blank : ∀ c ∈ front, isBlank c) (cs : List Char) :
    trimStart (front ++ cs) = trimStart cs :=
  List.dropWhile_append_of_pos blank

theorem cutAtBlank_eq_some_iff :
    cutAtBlank cs = some (front, rest) ↔
      ∃ b, isBlank b ∧ cs = front ++ b :: rest ∧ ∀ c ∈ front, isBlank c = false := by
  have whole := List.takeWhile_append_dropWhile (p := fun c => !isBlank c) (l := cs)
  constructor
  · intro cut
    unfold cutAtBlank at cut
    dsimp only at cut
    split at cut
    · cases cut
    · rename_i b later eq
      cases cut
      let p : Char → Bool := fun c => !isBlank c
      have behind : (cs.takeWhile p ++ cs.dropWhile p).drop (cs.takeWhile p).length =
          cs.dropWhile p := List.drop_left
      rw [whole, eq] at behind
      refine ⟨b, ?_, by rw [behind, whole], fun c hc => by simpa using List.mem_takeWhile_imp hc⟩
      have first := List.head?_dropWhile_not p cs
      rw [← behind] at first
      simpa [p] using first
  · rintro ⟨b, blank, rfl, apart⟩
    have taken : (front ++ b :: rest).takeWhile (fun c => !isBlank c) = front := by
      rw [List.takeWhile_append_of_pos fun c hc => by rw [apart c hc]; rfl,
        List.takeWhile_cons_of_neg (by rw [blank]; decide), List.append_nil]
    rw [cutAtBlank, taken, List.drop_left]

end Cut

theorem columns_iff :
    Columns line digest path ↔
      ∃ rest, cutAtBlank (trimStart line) = some (digest, rest) ∧ trimStart rest = path ∧
        path ≠ [] ∧ digest.length = 64 ∧ ∀ c ∈ digest, isHexDigit c := by
  constructor
  · rintro ⟨⟨front, gap, rfl, blank, nonempty, between⟩, length, hex, c, rest, rfl, shown⟩
    have apart : ∀ d ∈ digest, isBlank d = false := fun d hd => not_isBlank_of_isHexDigit (hex d hd)
    obtain ⟨b, gap, rfl⟩ := List.exists_cons_of_ne_nil nonempty
    obtain ⟨d, ds, rfl⟩ := List.exists_cons_of_length_pos (l := digest) (by omega)
    refine ⟨gap ++ c :: rest, cutAtBlank_eq_some_iff.mpr ⟨b, between b List.mem_cons_self, ?_,
      apart⟩, ?_, List.cons_ne_nil _ _, length, hex⟩
    · rw [List.append_assoc, List.append_assoc, trimStart_append blank, List.cons_append,
        trimStart_of_head (apart d List.mem_cons_self), List.cons_append, List.cons_append]
    · rw [trimStart_append fun e he => between e (List.mem_cons_of_mem _ he),
        trimStart_of_head shown]
  · rintro ⟨rest, cut, rfl, nonempty, length, hex⟩
    obtain ⟨b, blank, eq, -⟩ := cutAtBlank_eq_some_iff.mp cut
    obtain ⟨front, before, first⟩ := exists_trimStart line
    obtain ⟨gap, between, second⟩ := exists_trimStart rest
    obtain ⟨c, later, start⟩ := List.exists_cons_of_ne_nil nonempty
    refine ⟨⟨front, b :: gap, ?_, before, List.cons_ne_nil _ _,
      List.forall_mem_cons.mpr ⟨blank, between⟩⟩, length, hex, c, later, start, ?_⟩
    · rw [List.append_assoc, List.append_assoc, List.cons_append, ← second, ← eq, ← first]
    · refine isBlank_head?_trimStart rest c ?_
      rw [start]
      rfl

theorem ListedFile.lower_eq_toLower (c : Char) : lower c = c.toLower := by
  have range : c.val ≥ 'A'.val ∧ c.val ≤ 'Z'.val ↔ 65 ≤ c.toNat ∧ c.toNat ≤ 90 :=
    and_congr UInt32.le_iff_toNat_le UInt32.le_iff_toNat_le
  have capital : ('A' ≤ c && c ≤ 'Z') = true ↔ 65 ≤ c.toNat ∧ c.toNat ≤ 90 := by
    rw [← range, Bool.and_eq_true, decide_eq_true_eq, decide_eq_true_eq, Char.le_def, Char.le_def]
  unfold lower Char.toLower
  by_cases h : 65 ≤ c.toNat ∧ c.toNat ≤ 90
  · have value : (Char.ofNat (c.toNat + 32)).toNat = c.toNat + 32 :=
      Utf8.toNat_ofNat_of_valid (by omega)
    rw [if_pos (capital.mpr h), dif_pos (range.mpr h)]
    apply Char.ext
    apply UInt32.toNat_inj.mp
    refine value.trans ?_
    rw [UInt32.toNat_add]
    change c.toNat + 32 = (c.toNat + 32) % 4294967296
    omega
  · rw [if_neg (capital.not.mpr h), dif_neg (range.not.mpr h)]

theorem ListedFile.ofText_eq_iff {p : Path} :
    ofText p digest = f ↔ f.path = p ∧ f.digest.toList = digest.map Char.toLower := by
  have lowered : digest.map lower = digest.map Char.toLower :=
    List.map_congr_left fun c _ => lower_eq_toLower c
  obtain ⟨q, name⟩ := f
  rw [ofText, lowered, mk.injEq, eq_comm (a := p), ← String.toList_inj, String.toList_ofList,
    eq_comm (b := name.toList)]

namespace Lists

theorem plain (lists : Lists line f) : f.path.Plain := by
  obtain ⟨digest, path, columns, down, lowered, components, spelled⟩ := lists
  rw [Plain, components]
  exact fun c hc => (List.mem_filter.mp hc).2

theorem components_ne_nil (lists : Lists line f) : f.path.components ≠ [] := by
  obtain ⟨digest, path, columns, ⟨-, -, s, named⟩, lowered, components, spelled⟩ := lists
  have kept : .name s ∈ f.path.components := components ▸ List.mem_filter.mpr ⟨named, rfl⟩
  exact List.ne_nil_of_mem kept

end Lists

namespace Registry

variable {files : List ListedFile}

theorem parseLine_eq_ok_iff : parseLine line = .ok f ↔ Lists line f := by
  constructor
  · intro read
    unfold parseLine at read
    split at read
    · cases read
    · rename_i digest rest cut
      dsimp only at read
      split at read
      · cases read
      · rename_i nonempty
        split at read
        · cases read
        · rename_i sound
          obtain ⟨p, listed, eq⟩ := bind_eq_ok.mp read
          obtain ⟨path, lowered⟩ := ListedFile.ofText_eq_iff.mp (Except.ok.inj eq)
          obtain ⟨down, components, spelled⟩ := listedPath_eq_ok_iff.mp (path ▸ listed)
          simp only [Bool.or_eq_true, decide_eq_true_eq, Bool.not_eq_true', not_or,
            Bool.not_eq_false, List.all_eq_true, Decidable.not_not] at sound
          refine ⟨digest, trimStart rest, columns_iff.mpr ⟨rest, cut, rfl, ?_, sound.1, sound.2⟩,
            down, lowered, components, spelled⟩
          simpa using nonempty
  · rintro ⟨digest, path, columns, down, lowered, components, spelled⟩
    obtain ⟨rest, cut, rfl, nonempty, length, hex⟩ := columns_iff.mp columns
    have listed := listedPath_eq_ok_iff.mpr ⟨down, components, spelled⟩
    have all : digest.all isHexDigit = true := List.all_eq_true.mpr hex
    have full : (trimStart rest).isEmpty = false := by simpa using nonempty
    have file : ListedFile.ofText f.path digest = f := ListedFile.ofText_eq_iff.mpr ⟨rfl, lowered⟩
    have sound : (decide (digest.length ≠ Digest.length) || !digest.all isHexDigit) = false := by
      rw [length, all]
      rfl
    rw [parseLine, cut]
    simp only [full, sound, listed, Bool.false_eq_true, if_false]
    exact congrArg Except.ok file

theorem fits_iff : Fits line ↔ line.all isBlank ∨ ∃ f, parseLine line = .ok f := by
  rw [Fits, List.all_eq_true]
  simp only [parseLine_eq_ok_iff]

theorem parseLines_of_fits {ls : List (List Char)} (fits : ∀ line ∈ ls, Fits line) (number : Nat) :
    ∃ files, parseLines number ls = .ok files := by
  induction ls generalizing number with
  | nil => exact ⟨[], rfl⟩
  | cons line ls ih =>
    obtain ⟨files, later⟩ := ih (fun l hl => fits l (List.mem_cons_of_mem _ hl)) (number + 1)
    rw [parseLines, later]
    rcases fits_iff.mp (fits line List.mem_cons_self) with blank | ⟨f, read⟩
    · exact ⟨files, if_pos blank⟩
    · rw [read]
      split
      · exact ⟨files, rfl⟩
      · exact ⟨f :: files, rfl⟩

theorem parseLines_eq_ok_iff {ls : List (List Char)} {number : Nat} :
    parseLines number ls = .ok files ↔
    List.Forall₂ Lists (ls.filter fun line => !line.all isBlank) files := by
  induction ls generalizing number files with
  | nil => simp [parseLines, eq_comm]
  | cons line ls ih =>
    rw [parseLines, List.filter_cons]
    by_cases blank : line.all isBlank
    · rw [if_pos blank, blank]
      exact ih
    · rw [if_neg blank, Bool.eq_false_iff.mpr blank, Bool.not_false, if_pos rfl,
        List.forall₂_cons_left_iff]
      simp only [← parseLine_eq_ok_iff]
      rcases parseLine line with fault | f
      · simp
      · simp only [map_eq_ok, ih, Except.ok.injEq]
        constructor
        · rintro ⟨rest, lists, rfl⟩
          exact ⟨f, rest, rfl, lists, rfl⟩
        · rintro ⟨f, rest, rfl, lists, rfl⟩
          exact ⟨rest, lists, rfl⟩

theorem exists_lists_of_mem {ls : List (List Char)} (h : List.Forall₂ Lists ls files) :
    ∀ f ∈ files, ∃ line ∈ ls, Lists line f := by
  induction h with
  | nil => exact fun f hf => absurd hf List.not_mem_nil
  | cons lists others ih =>
    refine List.forall_mem_cons.mpr ⟨⟨_, List.mem_cons_self, lists⟩, fun f hf => ?_⟩
    obtain ⟨line, hl, lists⟩ := ih f hf
    exact ⟨line, List.mem_cons_of_mem _ hl, lists⟩

/-- The paths of a registry lead to what is below its directory, however the registry came about. -/
theorem plain_of_parse (h : parse text = .ok files) : ∀ f ∈ files, f.path.components ≠ [] ∧
    f.path.Plain := by
  intro f hf
  obtain ⟨line, -, lists⟩ := exists_lists_of_mem (parseLines_eq_ok_iff.mp h) f hf
  exact ⟨lists.components_ne_nil, lists.plain⟩

theorem parseLines_of_unfit {before after : List (List Char)} (fits : ∀ l ∈ before, Fits l)
    (unfit : ¬ Fits line) (number : Nat) : ∃ fault, parseLines number (before ++ line :: after) =
      .error (number + before.length, fault) := by
  induction before generalizing number with
  | nil =>
    rw [fits_iff, not_or, not_exists] at unfit
    obtain ⟨shown, unread⟩ := unfit
    rw [List.nil_append, parseLines, if_neg shown]
    rcases read : parseLine line with fault | f
    · exact ⟨fault, rfl⟩
    · exact absurd read (unread f)
  | cons l before ih =>
    obtain ⟨fault, later⟩ := ih (fun m hm => fits m (List.mem_cons_of_mem _ hm)) (number + 1)
    refine ⟨fault, ?_⟩
    rw [List.cons_append, parseLines, later, List.length_cons, Nat.add_comm before.length,
      ← Nat.add_assoc]
    split
    · rfl
    · rename_i shown
      obtain ⟨f, read⟩ := (fits_iff.mp (fits l List.mem_cons_self)).resolve_left shown
      rw [read]
      rfl

theorem exists_firstUnfit {ls : List (List Char)} (h : ¬ ∀ line ∈ ls, Fits line) :
    ∃ number, FirstUnfit ls number := by
  induction ls with
  | nil => exact absurd (fun line hl => absurd hl List.not_mem_nil) h
  | cons l ls ih =>
    by_cases fits : Fits l
    · have later : ¬ ∀ line ∈ ls, Fits line := fun all => h (List.forall_mem_cons.mpr ⟨fits, all⟩)
      obtain ⟨_, before, line, after, rfl, -, all, unfit⟩ := ih later
      exact ⟨_, l :: before, line, after, rfl, rfl, List.forall_mem_cons.mpr ⟨fits, all⟩, unfit⟩
    · exact ⟨_, [], l, ls, rfl, rfl, fun l hl => absurd hl List.not_mem_nil, fits⟩

theorem parseText_eq_ok {text : List Char} : parseText text = .ok files ↔
    parse text = .ok files := by
  rw [parseText]
  rcases parse text with ⟨number, fault⟩ | read <;> simp

/-- A text is a registry exactly if all of its lines fit, and then it lists what they list, one file
for each line that is not blank. Otherwise the first line that does not fit is reported. -/
theorem parseText_iff_fits (text : List Char) :
    ((∃ files, parseText text = .ok files) ↔ ∀ line ∈ lines text, Fits line) ∧
      (∀ files, parseText text = .ok files ↔ List.Forall₂ Lists (shownLines text) files) ∧
      ((¬ ∀ line ∈ lines text, Fits line) →
        ∃ number fault, FirstUnfit (lines text) number ∧
        parseText text = .error (.malformedLine number fault)) := by
  have reported (h : ¬ ∀ line ∈ lines text, Fits line) :
      ∃ number fault, FirstUnfit (lines text) number ∧
      parseText text = .error (.malformedLine number fault) := by
    obtain ⟨number, first⟩ := exists_firstUnfit h
    have ⟨before, line, after, eq, own, fits, unfit⟩ := first
    obtain ⟨fault, read⟩ : ∃ fault, parseLines 1 (before ++ line :: after) =
        .error (1 + before.length, fault) :=
      parseLines_of_unfit fits unfit 1
    rw [← eq, Nat.add_comm, ← own] at read
    exact ⟨number, fault, first, by rw [parseText, parse, read]⟩
  refine ⟨⟨?_, fun fits => ?_⟩, fun files => ?_, reported⟩
  · rintro ⟨files, read⟩
    by_contra unfit
    obtain ⟨number, fault, -, refused⟩ := reported unfit
    rw [read] at refused
    cases refused
  · obtain ⟨files, read⟩ := parseLines_of_fits fits 1
    exact ⟨files, parseText_eq_ok.mpr read⟩
  · exact parseText_eq_ok.trans parseLines_eq_ok_iff

example :
    let digest : List Char := List.replicate 32 'A' ++ List.replicate 32 '0'
    let text : List Char := '\r' :: '\n' :: '\u00a0' :: digest ++ "\t.//a b \r\n".toList ++ digest
    parseText text = .error (.malformedLine 3 .noSeparator) ∧
      (lines text).map parseLine = [.error .noSeparator, .ok (.ofText (.ofString "a b ") digest),
        .error .noSeparator] := by
  decide +kernel

end Registry
end Stowage
