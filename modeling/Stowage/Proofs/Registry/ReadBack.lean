import Mathlib.Data.Bool.AllAny
import Mathlib.Data.List.Flatten
import Mathlib.Data.List.Forall2
import Mathlib.Data.List.TakeWhile
import Stowage.Proofs.Archive.Name
import Stowage.Proofs.Registry.Paths
import Stowage.Proofs.Registry.RoundTrip

/-! Which registries are read back as they were printed: those in which each path fits on its line.
Any other path is read as a shorter one, if the registry can be read at all. -/
namespace Stowage

open Stowage.Path

variable {text : List Char}

theorem linesFrom_append_newline (before text rest : List Char) :
    linesFrom before (text ++ '\n' :: rest) = linesFrom before (text ++ ['\n']) ++
      linesFrom [] rest := by
  induction text generalizing before with
  | nil => rfl
  | cons c text ih =>
    rw [List.cons_append, List.cons_append, linesFrom, linesFrom]
    split
    · rw [ih, List.cons_append]
    · exact ih (c :: before)

theorem exists_linesFrom_cons (before text : List Char) :
    ∃ more, linesFrom before (text ++ ['\n']) =
      dropReturn (before.reverse ++ text.takeWhile (· != '\n')) :: more := by
  induction text generalizing before with
  | nil => exact ⟨[], by rw [List.takeWhile_nil, List.append_nil]; rfl⟩
  | cons c text ih =>
    rw [List.cons_append, linesFrom]
    by_cases h : c = '\n'
    · subst h
      rw [if_pos rfl, List.takeWhile_cons_of_neg (by decide), List.append_nil]
      exact ⟨_, rfl⟩
    · obtain ⟨more, eq⟩ := ih (c :: before)
      refine ⟨more, ?_⟩
      rw [if_neg h, eq, List.takeWhile_cons_of_pos (by simpa using h), List.reverse_cons,
        List.append_assoc]
      rfl

theorem dropReturn_isPrefix (line : List Char) : dropReturn line <+: line := by
  unfold dropReturn
  split
  · rename_i front eq
    exact ⟨['\r'], by rw [← List.reverse_cons, ← eq, List.reverse_reverse]⟩
  · exact List.prefix_rfl

theorem dropReturn_append_return (line : List Char) : dropReturn (line ++ ['\r']) = line := by
  rw [dropReturn, List.reverse_append]
  exact List.reverse_reverse line

theorem getLast?_of_dropReturn {line : List Char} (h : dropReturn line = line) :
    line.getLast? ≠ some '\r' := by
  intro last
  obtain ⟨front, rfl⟩ := List.getLast?_eq_some_iff.mp last
  rw [dropReturn_append_return] at h
  exact List.cons_ne_nil _ _ (List.self_eq_append_right.mp h)

theorem dropReturn_append {front : List Char} (h : front.getLast? ≠ some '\r') (line : List Char) :
    dropReturn (front ++ line) = front ++ dropReturn line := by
  rcases List.eq_nil_or_concat' line with rfl | ⟨line, c, rfl⟩
  · rw [List.append_nil, dropReturn_of_getLast? h]
    exact (List.append_nil _).symm
  · by_cases last : c = '\r'
    · rw [last, ← List.append_assoc, dropReturn_append_return, dropReturn_append_return]
    · have other (ds : List Char) : (ds ++ [c]).getLast? ≠ some '\r' := by
        rw [List.getLast?_concat]
        exact fun e => last (Option.some.inj e)
      rw [← List.append_assoc, dropReturn_of_getLast? (other _), dropReturn_of_getLast? (other _),
        List.append_assoc]

def keptOnLine (text : List Char) : List Char := trimStart (dropReturn (text.takeWhile (· != '\n')))

/-- Has no newline, and neither a blank in front nor a carriage return behind that would fall
away. -/
structure FitsLine (text : List Char) : Prop where
  line : '\n' ∉ text
  ending : text.getLast? ≠ some '\r'
  start (c : Char) : c ∈ text.head? → isBlank c = false

theorem keptOnLine_sublist (text : List Char) : (keptOnLine text).Sublist text :=
  (List.dropWhile_sublist _).trans
    ((dropReturn_isPrefix _).sublist.trans (List.takeWhile_sublist _))

theorem fitsLine_of_keptOnLine (h : keptOnLine text = text) : FitsLine text := by
  -- None of the three steps to what is kept has taken anything away.
  have bound : (keptOnLine text).length ≤ (dropReturn (text.takeWhile (· != '\n'))).length :=
    (List.dropWhile_sublist isBlank).length_le
  rw [h] at bound
  have taken : text.takeWhile (· != '\n') = text :=
    (List.takeWhile_sublist _).eq_of_length_le (bound.trans (dropReturn_isPrefix _).length_le)
  rw [taken] at bound
  have unreturned : dropReturn text = text :=
    (dropReturn_isPrefix text).sublist.eq_of_length_le bound
  refine ⟨fun mem => ?_, getLast?_of_dropReturn unreturned, fun c hc => ?_⟩
  · have other := List.mem_takeWhile_imp (taken.symm ▸ mem)
    exact absurd other (by decide)
  · rw [← h] at hc
    exact isBlank_head?_trimStart _ c hc

theorem sum_length_downwardNames {cs : List Component} {names : List Bytes}
    (h : downwardNames text cs = .ok names) :
    (names.map fun s => s.length + 1).sum ≤ (cs.map fun c => c.octets.length + 1).sum := by
  induction cs generalizing names with
  | nil =>
    cases h
    exact Nat.le_refl _
  | cons c cs ih =>
    cases c with
    | root => cases h
    | up => cases h
    | here => exact Nat.le_trans (ih h) (Nat.le_add_left _ _)
    | name s =>
      obtain ⟨rest, later, rfl⟩ := map_eq_ok.mp h
      exact Nat.add_le_add_left (ih later) _

theorem length_intercalate {names : List Bytes} (nonempty : names ≠ []) :
    ([slash].intercalate names).length + 1 = (names.map fun s => s.length + 1).sum := by
  induction names with
  | nil => exact absurd rfl nonempty
  | cons s names ih =>
    cases names with
    | nil => simp
    | cons t names =>
      rw [List.intercalate_cons_cons, List.map_cons, List.sum_cons, ← ih (List.cons_ne_nil _ _),
        List.length_append, List.length_append, List.length_singleton]
      omega

theorem length_listedPath {p : Path} (h : listedPath text = .ok p) :
    p.spelling.length ≤ (Utf8.encode text).length := by
  obtain ⟨names, down, nonempty, -, rfl⟩ := exists_names_of_listedPath h
  have relative : ¬ isRooted ⟨Utf8.encode text⟩ := by
    intro rooted
    rw [components_eq, if_pos rooted] at down
    cases down
  -- A dot at the head is the only component that does not count among those inside, and it is no
  -- name.
  have inner : downwardNames text (inside (Utf8.encode text)) = .ok names := by
    rw [components_unrooted relative] at down
    split at down
    · exact down
    · exact down
  have bound := (sum_length_downwardNames inner).trans (Archive.sum_length_inside _)
  rw [← length_intercalate nonempty] at bound
  exact Nat.le_of_succ_le_succ bound

namespace ListedFile

def Same (f g : ListedFile) : Prop := f.path.same g.path ∧ f.digest = g.digest

/-- What is listed of a file: the digest in lowercase, and a path of names that is a text. -/
structure Listable (f : ListedFile) : Prop where
  length : f.digest.toList.length = Digest.length
  hex (c : Char) : c ∈ f.digest.toList → isDigit c ∨ 'a' ≤ c ∧ c ≤ 'f'
  nonempty : f.path.spelling ≠ []
  text : (Utf8.decode? f.path.spelling).isSome
  plain : f.path.Plain

variable {f g : ListedFile}

theorem Listable.lower (h : f.Listable) : ∀ c ∈ f.digest.toList, isHexDigit c ∧
    ListedFile.lower c = c := by
  intro c hc
  have range := h.hex c hc
  constructor
  · simpa [isHexDigit] using Or.inl range
  · refine if_neg fun capital => ?_
    simp only [isDigit_iff, Char.le_def, UInt32.le_iff_toNat_le, Bool.and_eq_true,
      decide_eq_true_eq] at range capital
    change 65 ≤ c.toNat ∧ c.toNat ≤ 90 at capital
    change _ ∨ 97 ≤ c.toNat ∧ _ at range
    omega

theorem Listable.encode_pathText (h : f.Listable) :
    Utf8.encode f.pathText = [slash].intercalate (f.path.components.map Component.octets) := by
  obtain ⟨text, decoded⟩ := Option.isSome_iff_exists.mp h.text
  exact ListedFile.encode_pathText (Utf8.decode?_eq_some_iff.mp decoded) h.plain

theorem Listable.pathText_ne_nil (h : f.Listable) : f.pathText ≠ [] := by
  intro empty
  obtain ⟨names, eq, isName⟩ := h.plain.exists_names
  have spelled := h.encode_pathText
  rw [empty, eq, map_octets_map_name] at spelled
  have nonempty : names ≠ [] := fun e => components_ne_nil h.nonempty (by rw [eq, e]; rfl)
  have length := length_intercalate nonempty
  obtain ⟨s, rest, rfl⟩ := List.exists_cons_of_ne_nil nonempty
  have full := List.length_pos_iff.mpr (isName s List.mem_cons_self).1
  rw [← spelled, List.map_cons, List.sum_cons, Utf8.encode_nil, List.length_nil] at length
  omega

theorem Listable.printable (h : f.Listable) (fits : FitsLine f.pathText) : f.Printable := by
  obtain ⟨c, cs, start⟩ := List.exists_cons_of_ne_nil h.pathText_ne_nil
  refine ⟨h.length, h.lower, h.plain, h.encode_pathText, fits.line, ⟨c, cs, start, fits.start c ?_⟩,
    fits.ending⟩
  rw [start]
  rfl

theorem Listable.fitsLine (h : f.Listable) {p : Path}
    (listed : listedPath (keptOnLine f.pathText) = .ok p) (same : p.same f.path) :
    FitsLine f.pathText := by
  have bound := length_listedPath listed
  obtain ⟨names, -, -, isName, rfl⟩ := exists_names_of_listedPath listed
  have components : f.path.components = names.map .name :=
    (same_iff.mp same).symm.trans (components_intercalate isName)
  have spelled : (ofNames names).spelling = Utf8.encode f.pathText := by
    rw [h.encode_pathText, components, map_octets_map_name]
    rfl
  rw [spelled] at bound
  have whole :=
    ((keptOnLine_sublist f.pathText).flatMap String.utf8EncodeChar).eq_of_length_le bound
  exact fitsLine_of_keptOnLine (Utf8.encode_injective whole)

end ListedFile

namespace Registry

open ListedFile

variable {f : ListedFile} {files read : List ListedFile}

theorem parseLines_append_eq_ok {front rest : List (List Char)} {number : Nat}
    (h : parseLines number (front ++ rest) = .ok files) :
    ∃ before behind, parseLines number front = .ok before ∧
    parseLines (number + front.length) rest = .ok behind ∧
      files = before ++ behind := by
  induction front generalizing number files with
  | nil => exact ⟨[], files, rfl, h, rfl⟩
  | cons line front ih =>
    rw [List.cons_append, parseLines] at h
    rw [List.length_cons, Nat.add_comm front.length, ← Nat.add_assoc, parseLines]
    split at h
    · rename_i blank
      rw [if_pos blank]
      exact ih h
    · rename_i shown
      rw [if_neg shown]
      split at h
      · cases h
      · obtain ⟨later, parsed, rfl⟩ := map_eq_ok.mp h
        obtain ⟨before, behind, first, second, rfl⟩ := ih parsed
        exact ⟨_ :: before, behind, map_eq_ok.mpr ⟨before, first, rfl⟩, second, rfl⟩

theorem exists_lines_print_cons (h : f.Listable) (files : List ListedFile) :
    ∃ more, lines (print (f :: files)) =
      ((f.digest.toList ++ [' ', ' '] ++ dropReturn (f.pathText.takeWhile (· != '\n'))) :: more) ++
        lines (print files) := by
  have clean : ∀ c ∈ f.digest.toList ++ [' ', ' '], (c != '\n') = true := by
    intro c hc
    rcases List.mem_append.mp hc with digit | space
    · have shown := not_isBlank_of_isHexDigit (h.lower c digit).1
      exact bne_iff_ne.mpr fun newline => absurd (newline ▸ shown) (by decide)
    · have blank : c = ' ' := by simpa using space
      rw [blank]
      decide
  have ending : (f.digest.toList ++ [' ', ' ']).getLast? ≠ some '\r' := by
    rw [List.getLast?_append_of_ne_nil _ (List.cons_ne_nil _ _)]
    decide
  obtain ⟨more, first⟩ := exists_linesFrom_cons [] (f.digest.toList ++ [' ', ' '] ++ f.pathText)
  refine ⟨more, ?_⟩
  rw [List.reverse_nil, List.nil_append, List.takeWhile_append_of_pos clean,
    dropReturn_append ending] at first
  rw [print, List.flatMap_cons, ListedFile.line, List.append_assoc _ ['\n'], List.singleton_append,
    lines, linesFrom_append_newline, first]
  rfl

/-- Each file takes a line at least; only if it takes no other and is read from it as it was, its
path fits on it. -/
theorem fits_of_parseLines {number : Nat} (h : ∀ f ∈ files, f.Listable)
    (parsed : parseLines number (lines (print files)) = .ok read) :
    files.length ≤ read.length ∧
    (List.Forall₂ Same read files → ∀ f ∈ files, FitsLine f.pathText) := by
  induction files generalizing number read with
  | nil => exact ⟨Nat.zero_le _, fun _ f hf => absurd hf List.not_mem_nil⟩
  | cons f files ih =>
    have own := h f List.mem_cons_self
    obtain ⟨more, eq⟩ := exists_lines_print_cons own files
    rw [eq] at parsed
    obtain ⟨before, behind, first, later, rfl⟩ := parseLines_append_eq_ok parsed
    obtain ⟨bound, fits⟩ := ih (fun g hg => h g (List.mem_cons_of_mem _ hg)) later
    rw [parseLines, not_all_isBlank own.length own.lower, if_neg Bool.false_ne_true,
      parseLine_append own.length own.lower] at first
    split at first
    · cases first
    · rename_i found read
      obtain ⟨others, -, rfl⟩ := map_eq_ok.mp first
      split at read
      · cases read
      · obtain ⟨path, listed, rfl⟩ := map_eq_ok.mp read
        refine ⟨?_, fun same => ?_⟩
        · rw [List.length_append, List.length_cons, List.length_cons]
          omega
        · rw [List.cons_append] at same
          obtain ⟨⟨level, -⟩, same⟩ := List.forall₂_cons.mp same
          -- The other files take as many entries as they are, so that none is left for the other
          -- lines of this one.
          have lengths := same.length_eq
          rw [List.length_append] at lengths
          obtain rfl : others = [] := List.eq_nil_of_length_eq_zero (by omega)
          intro g hg
          rcases List.mem_cons.mp hg with rfl | hg
          · exact own.fitsLine listed level
          · exact fits same g hg

/-- A registry is read back as it was printed exactly if every path fits on its line. -/
theorem parse_print_iff (h : ∀ f ∈ files, f.Listable) :
    (∃ read, parse (print files) = .ok read ∧ List.Forall₂ Same read files) ↔
    ∀ f ∈ files, FitsLine f.pathText := by
  constructor
  · rintro ⟨read, parsed, same⟩
    exact (fits_of_parseLines h parsed).2 same
  · intro fits
    have printable : ∀ f ∈ files, f.Printable := fun f hf => (h f hf).printable (fits f hf)
    refine ⟨files.map asRead, parse_print printable, ?_⟩
    rw [List.forall₂_map_left_iff, List.forall₂_same]
    exact fun f hf => ⟨same_iff.mpr (printable f hf).asRead_same, rfl⟩

theorem parse_print_iff_spaced :
    let inner : ListedFile := ⟨.ofString "pkg//a b", String.ofList (List.replicate 64 'e')⟩
    let last : ListedFile := ⟨.ofString "pkg/a\r", String.ofList (List.replicate 64 '0')⟩
    (∃ read, parse (print [inner, inner]) = .ok read ∧ List.Forall₂ Same read [inner, inner]) ∧
      ¬ ∃ read, parse (print [inner, last]) = .ok read ∧ List.Forall₂ Same read [inner, last] := by
  intro inner last
  have innerListable : inner.Listable :=
    ⟨by decide, List.all_iff_forall_prop.mp (by decide), by decide, by decide, by decide⟩
  have lastListable : last.Listable :=
    ⟨by decide, List.all_iff_forall_prop.mp (by decide), by decide, by decide, by decide⟩
  constructor
  · refine (parse_print_iff fun f hf => ?_).mpr fun f hf => ?_
    · rcases List.mem_pair.mp hf with rfl | rfl <;> exact innerListable
    · have fits : FitsLine inner.pathText := by
        refine ⟨by decide, by decide, ?_⟩
        rintro _ ⟨⟩
        decide
      rcases List.mem_pair.mp hf with rfl | rfl <;> exact fits
  · refine (parse_print_iff fun f hf => ?_).not.mpr fun fits => ?_
    · rcases List.mem_pair.mp hf with rfl | rfl
      · exact innerListable
      · exact lastListable
    · exact (fits last (List.mem_cons_of_mem _ List.mem_cons_self)).ending (by decide)

end Registry
end Stowage
