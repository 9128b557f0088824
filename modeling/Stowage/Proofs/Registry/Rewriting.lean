import Stowage.Proofs.Registry.Grammar
import Stowage.Proofs.Registry.ReadBack

/-! A registry that is read and printed again. What a line lists can be printed, but a path may come
out of the middle of its text: what follows a dot and a slash may start with a blank, and a carriage
return that did not belong to the end of the line may come to stand before it. Such paths, and no
others, are read as shorter ones. -/
namespace Stowage

open Stowage.Path

variable {text line : List Char} {f : ListedFile}

theorem newline_not_mem_dropReturn (h : '\n' ∉ line) : '\n' ∉ dropReturn line := fun mem =>
  h ((dropReturn_isPrefix line).subset mem)

theorem newline_not_mem_linesFrom {before : List Char} (clean : '\n' ∉ before) (text : List Char) :
    ∀ line ∈ linesFrom before text, '\n' ∉ line := by
  induction text generalizing before with
  | nil =>
    rw [linesFrom]
    split
    · exact fun line hl => absurd hl List.not_mem_nil
    · rintro line hl
      rw [List.mem_singleton.mp hl, List.mem_reverse]
      exact clean
  | cons c text ih =>
    rw [linesFrom]
    split
    · refine List.forall_mem_cons.mpr ⟨newline_not_mem_dropReturn ?_, ih List.not_mem_nil⟩
      rwa [List.mem_reverse]
    · rename_i other
      exact ih fun mem => (List.mem_cons.mp mem).elim (fun e => other e.symm) clean

theorem newline_not_mem_lines (text : List Char) : ∀ line ∈ lines text, '\n' ∉ line :=
  newline_not_mem_linesFrom List.not_mem_nil text

theorem lowercase_of_isHexDigit {c : Char} (h : isHexDigit c) :
    isDigit c.toLower ∨ 'a' ≤ c.toLower ∧ c.toLower ≤ 'f' := by
  have each : ∀ n < 103, isHexDigit (Char.ofNat n) →
      isDigit (Char.ofNat n).toLower ∨ 'a' ≤ (Char.ofNat n).toLower ∧
      (Char.ofNat n).toLower ≤ 'f' := by decide
  have range := range_of_isHexDigit h
  have own := each c.toNat (by omega)
  rw [Char.ofNat_toNat] at own
  exact own h

namespace Lists

theorem exists_text (lists : Lists line f) :
    f.path.spelling = Utf8.encode f.pathText ∧ ('\n' ∈ f.pathText → '\n' ∈ line) := by
  have plain := lists.plain
  obtain ⟨digest, path, ⟨⟨front, gap, rfl, -⟩, -⟩, down, lowered, components, spelled⟩ := lists
  have part (c : Component) (hc : c ∈ f.path.components) : c ∈ Path.components ⟨Utf8.encode path⟩ :=
    (List.mem_filter.mp (components ▸ hc)).1
  have same (c : Component) (hc : c ∈ f.path.components) :
      Utf8.encode (Utf8.decodeLossy c.octets) = c.octets := by
    obtain ⟨cs, eq⟩ := exists_encode_octets (part c hc)
    rw [eq, Utf8.decodeLossy_encode]
  have text : f.path.spelling = Utf8.encode f.pathText := by
    rw [ListedFile.pathText, encode_intercalate, List.map_map, spelled]
    exact congrArg _ (List.map_congr_left fun c hc => (same c hc).symm)
  refine ⟨text, fun mem => ?_⟩
  have octet : (0x0a : UInt8) ∈ Utf8.encode f.pathText :=
    List.mem_flatMap.mpr ⟨'\n', mem, by decide⟩
  rw [← text, spelled] at octet
  rcases mem_intercalate octet with between | ⟨s, hs, own⟩
  · exact absurd between (by decide)
  · obtain ⟨c, hc, rfl⟩ := List.mem_map.mp hs
    obtain ⟨s, rfl⟩ : ∃ s, c = .name s := by
      cases c with
      | name s => exact ⟨s, rfl⟩
      | _ => exact absurd (plain _ hc) Bool.false_ne_true
    have inText : '\n' ∈ path :=
      Utf8.mem_of_mem_encode (by decide) (mem_of_name_mem (part _ hc) own)
    exact List.mem_append_right _ inText

theorem listable (lists : Lists line f) : f.Listable := by
  have plain := lists.plain
  obtain ⟨text, -⟩ := lists.exists_text
  have nonempty := lists.components_ne_nil
  obtain ⟨digest, path, columns, down, lowered, components, spelled⟩ := lists
  refine ⟨?_, fun c hc => ?_, fun empty => nonempty ?_, ?_, plain⟩
  · rw [lowered, List.length_map]
    exact columns.length
  · rw [lowered] at hc
    obtain ⟨d, hd, rfl⟩ := List.mem_map.mp hc
    exact lowercase_of_isHexDigit (columns.hex d hd)
  · rw [show f.path = ⟨[]⟩ from congrArg Path.mk empty]
    rfl
  · rw [text, Utf8.decode?_encode]
    rfl

theorem asRead_eq (lists : Lists line f) : f.asRead = f := by
  obtain ⟨digest, path, -, -, -, -, spelled⟩ := lists
  have path : ofNames (f.path.components.map Component.octets) = f.path :=
    congrArg Path.mk spelled.symm
  rw [ListedFile.asRead, path]

end Lists

namespace Registry

open ListedFile

variable {files : List ListedFile}

/-- A registry that was read is the same after it is printed and read again exactly if no path in it
starts with a blank or ends in a carriage return. -/
theorem parse_print_of_parse_iff (h : parse text = .ok files) :
    parse (print files) = .ok files ↔
      ∀ f ∈ files, (∀ c ∈ f.pathText.head?, isBlank c = false) ∧
      f.pathText.getLast? ≠ some '\r' := by
  have lists : ∀ f ∈ files, ∃ line ∈ lines text, Lists line f := by
    intro f hf
    obtain ⟨line, shown, lists⟩ := exists_lists_of_mem (parseLines_eq_ok_iff.mp h) f hf
    exact ⟨line, (List.mem_filter.mp shown).1, lists⟩
  have listable : ∀ f ∈ files, f.Listable := fun f hf => (lists f hf).choose_spec.2.listable
  constructor
  · intro again f hf
    have same : List.Forall₂ Same files files :=
      List.forall₂_same.mpr fun g _ => ⟨same_iff.mpr rfl, rfl⟩
    have fits := (fits_of_parseLines listable again).2 same f hf
    exact ⟨fits.start, fits.ending⟩
  · intro fits
    have printable : ∀ f ∈ files, f.Printable := by
      intro f hf
      obtain ⟨line, hl, lists⟩ := lists f hf
      have clean : '\n' ∉ f.pathText :=
        fun mem => newline_not_mem_lines text line hl (lists.exists_text.2 mem)
      exact lists.listable.printable ⟨clean, (fits f hf).2, (fits f hf).1⟩
    have same : files.map asRead = files :=
      (List.map_congr_left fun f hf => (lists f hf).choose_spec.2.asRead_eq).trans (List.map_id _)
    rw [parse_print printable, same]

theorem parse_print_of_parse_iff_dotted :
    let digest : List Char := List.replicate 64 'A'
    let kept : ListedFile := .ofText (.ofString "pkg/a b") digest
    let blank : ListedFile := .ofText (.ofString " a") digest
    (parse (digest ++ "\t./pkg//a b/.".toList) = .ok [kept] ∧ parse (print [kept]) = .ok [kept]) ∧
      parse (digest ++ "  ./ a".toList) = .ok [blank] ∧ parse (print [blank]) ≠ .ok [blank] := by
  intro digest kept blank
  have first : parse (digest ++ "\t./pkg//a b/.".toList) = .ok [kept] := by decide +kernel
  have second : parse (digest ++ "  ./ a".toList) = .ok [blank] := by decide +kernel
  refine ⟨⟨first, (parse_print_of_parse_iff first).mpr fun f hf => ?_⟩, second, fun again => ?_⟩
  · rw [List.mem_singleton.mp hf, show kept.pathText = "pkg/a b".toList by decide +kernel]
    refine ⟨fun c start => ?_, by decide⟩
    obtain rfl : 'p' = c := by simpa using start
    decide
  · have start :=
      ((parse_print_of_parse_iff second).mp again blank List.mem_cons_self).1 ' '
        (by decide +kernel)
    exact absurd start (by decide)

/-- A carriage return in front of the end of its line stays in the path and is lost when the line is
written anew. -/
theorem not_parse_print_of_parse :
    ¬ ∀ (text : List Char) (files : List ListedFile), parse text = .ok files →
    parse (print files) = .ok files := by
  intro steady
  let digest : List Char := List.replicate 64 '0'
  have read : parse (digest ++ "  pkg/a\r\r\n".toList) =
      .ok [.ofText (.ofString "pkg/a\r") digest] := by decide +kernel
  have again : parse (print [.ofText (.ofString "pkg/a\r") digest]) =
      .ok [.ofText (.ofString "pkg/a") digest] := by
    decide +kernel
  rw [steady _ _ read] at again
  exact absurd again (by decide +kernel)

end Registry
end Stowage
