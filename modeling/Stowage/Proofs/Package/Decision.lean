import Stowage.Proofs.Package.Check
import Stowage.Proofs.Storage.History

/-! The check of a package decides by what is stored and denied under its own paths: the layout
first, then the registry, then the listed files in the order of their lines, of which the first that
does not match is told. -/
namespace Stowage.Package

open Memory Stowage.Path

variable {p : Package} {root : Path} {s : Memory} {files before rest : List ListedFile}
    {f : ListedFile}

def Matched (root : Path) (s : Memory) (f : ListedFile) : Prop :=
  ∃ data, s.fileContent (root.join f.path) = .ok data ∧ digest data = f.digest

theorem obstacle?_eq_none_iff : Registry.obstacle? root s f = none ↔ Matched root s f := by
  simp only [Matched, fileContent_eq_ok]
  rw [Registry.obstacle?, Registry.flaw?]
  cases s.isDenied (root.join f.path)
  · rcases s.get? (root.join f.path) with _ | data | _
    · simp
    · simp [eq_comm]
    · simp
  · simp

/-- All that is asked of a package before its files are. -/
structure Listed (p : Package) (s : Memory) (files : List ListedFile) : Prop where
  wanted : p.verifyChecksums
  allowed : s.isDenied p.directory = false
  directory : s.get? p.directory = some .directory
  registry : ∃ text, s.fileContent p.registryPath = .ok (Utf8.encode text) ∧
    Registry.parse text = .ok files

theorem Listed.decision_eq (h : Listed p s files) :
    p.decision s =
      match files.findSome? (Registry.obstacle? p.root s) with
      | some error => .error error
      | none => .ok (.verified files.length) := by
  rw [decision, if_neg (Bool.eq_false_iff.mp h.allowed), if_neg (not_not.mpr h.directory), h.wanted,
    listing_eq_some_iff.mpr h.registry]
  rfl

theorem listed_of_decision {n : Nat} (verified : p.decision s = .ok (.verified n)) :
    ∃ files, Listed p s files ∧ files.length = n ∧ ∀ f ∈ files, Matched p.root s f := by
  have whole := verified
  unfold decision at whole
  split at whole
  · cases whole
  rename_i allowed
  split at whole
  · cases whole
  rename_i directory
  split at whole
  · cases whole
  rename_i wanted
  split at whole
  · cases whole
  · cases whole
  · rename_i files listed
    have all : Listed p s files :=
      ⟨by simpa using wanted, Bool.eq_false_iff.mpr allowed, not_not.mp directory,
        listing_eq_some_iff.mp listed⟩
    split at whole
    · cases whole
    · rename_i clear
      cases whole
      exact ⟨files, all, rfl, fun f hf =>
        obstacle?_eq_none_iff.mp (List.findSome?_eq_none_iff.mp clear f hf)⟩

/-- The check answers by the first case that applies. A package is verified exactly if its registry
can be read and all listed files match, and else the first one that does not is told of. -/
theorem check_eq_decision (p : Package) (s : Memory) :
    answer p.check s = p.decision s ∧
      (∀ n, answer p.check s = .ok (.verified n) ↔
        ∃ files, Listed p s files ∧ files.length = n ∧ ∀ f ∈ files, Matched p.root s f) ∧
      ∀ before f rest, Listed p s (before ++ f :: rest) → (∀ g ∈ before, Matched p.root s g) →
        ∀ error,
        Registry.obstacle? p.root s f = some error → answer p.check s = .error error := by
  rw [answer_check]
  refine ⟨rfl, fun n => ⟨listed_of_decision, ?_⟩, fun before f rest listed fine error stopped => ?_⟩
  · rintro ⟨files, listed, rfl, all⟩
    have clear : files.findSome? (Registry.obstacle? p.root s) = none :=
      List.findSome?_eq_none_iff.mpr fun f hf => obstacle?_eq_none_iff.mpr (all f hf)
    rw [listed.decision_eq, clear]
  · have passed : before.findSome? (Registry.obstacle? p.root s) = none :=
      List.findSome?_eq_none_iff.mpr fun g hg => obstacle?_eq_none_iff.mpr (fine g hg)
    rw [listed.decision_eq, List.findSome?_append, passed, List.findSome?_cons, stopped]
    rfl

/-- Of three listed files the first one matches, the second is not there, and the third has another
content. -/
theorem check_eq_decision_missing :
    ∃ p s f g h, Listed p s [f, g, h] ∧ Matched p.root s f ∧ Registry.obstacle? p.root s h ≠ none ∧
      answer p.check s = .error (.missingFile (ofString "pkg/b") (digest [])) ∧
      ¬ ∃ n, answer p.check s = .ok (.verified n) := by
  let p : Package := { root := ofString "/r" }
  let line (data : Bytes) (path : String) : List Char :=
    (digest data).toList ++ ' ' :: path.toList ++ ['\n']
  let text : List Char := line [0x31] "pkg/a" ++ line [] "pkg/b" ++ line [] "./c"
  let f : ListedFile := ⟨ofString "pkg/a", digest [0x31]⟩
  let g : ListedFile := ⟨ofString "pkg/b", digest []⟩
  let h : ListedFile := ⟨ofString "c", digest []⟩
  let s : Memory :=
    ({} : Memory).after [.write (ofString "/r/pkg/a") [0x31], .write (ofString "/r/c") [0x32],
      .write (ofString "/r/checksum.txt") (Utf8.encode text)]
  have listed : Listed p s [f, g, h] :=
    ⟨rfl, by decide +kernel, by decide +kernel, text, by decide +kernel, by decide +kernel⟩
  have first : Matched p.root s f := ⟨[0x31], by decide +kernel, rfl⟩
  have absent : Registry.obstacle? p.root s g =
      some (.missingFile (ofString "pkg/b") (digest [])) := by decide +kernel
  obtain ⟨-, passes, fails⟩ := check_eq_decision p s
  have told := fails [f] g [h] listed (List.forall_mem_singleton.mpr first) _ absent
  refine ⟨p, s, f, g, h, listed, first, by decide +kernel, told, ?_⟩
  rintro ⟨n, verified⟩
  rw [told] at verified
  cases verified

end Stowage.Package
