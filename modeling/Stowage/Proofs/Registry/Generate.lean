import Stowage.Proofs.Path.Names
import Stowage.Proofs.Registry.Tree
import Stowage.Proofs.Storage.Edits
import Stowage.Proofs.Storage.Traversal

/-! A registry that is made anew. It lists each file below the directory once, under a path that
leads back to the file from the root however both are spelled, so that files that stay as they were
listed pass the check. -/
namespace Stowage.Registry

open Memory Stowage.Path

variable {s : Memory} {root directory path : Path} {data : Bytes} {files : List ListedFile}

/-- Only where the directory has a root of its own, files below it do not begin as the root of the
registry does. -/
theorem rooted_or_prefix_of_isBelow (below : isBelow (root.join directory) path) :
    path.isRooted ∨ root.components <+: path.components := by
  obtain ⟨rest, -, -, eq⟩ := isBelow_iff.mp below
  by_cases rooted : directory.isRooted
  · rw [join, if_pos rooted, components_eq directory, if_pos rooted] at eq
    exact .inl (isRooted_of_components eq)
  · refine .inr ?_
    by_cases empty : root.spelling = []
    · obtain ⟨spelling⟩ := root
      cases empty
      exact List.nil_prefix
    · rw [eq, components_join empty rooted, List.append_assoc]
      exact List.prefix_append _ _

theorem join_listedAs (below : isBelow (root.join directory) path) (data : Bytes) :
    (root.join (listedAs root path data).path).same path :=
  join_below? (rooted_or_prefix_of_isBelow below)

theorem list_stored_eq_ok_iff {stored : List (Path × Bytes)}
    (there : ∀ held ∈ stored, s.get? held.1 = some (.file held.2)) :
    (stored.map Prod.fst).mapM (fun path => (s.fileContent path).map (listedAs root path)) =
      .ok files ↔
      (∀ held ∈ stored, s.isDenied held.1 = false) ∧
      (stored.map fun held => listedAs root held.1 held.2) = files := by
  rw [List.mapM_map]
  refine mapM_eq_ok_iff fun held mem f => ?_
  simp only [Function.comp_apply, map_eq_ok, fileContent_eq_ok, there held mem, Option.some.injEq,
    Node.file.injEq]
  constructor
  · rintro ⟨_, ⟨fine, rfl⟩, eq⟩
    exact ⟨fine, eq⟩
  · rintro ⟨fine, eq⟩
    exact ⟨held.2, ⟨fine, rfl⟩, eq⟩

theorem generate_eq_ok_iff (shaped : s.TreeShaped) :
    answer (generate root directory) s = .ok files ↔
      (∀ d ∈ s.directoriesFrom (root.join directory), s.Readable d) ∧
        (∀ held ∈ s.filesBelow (root.join directory), s.isDenied held.1 = false) ∧
        ((s.filesBelow (root.join directory)).map fun held => listedAs root held.1 held.2) =
        files := by
  simp only [answer_generate_eq_ok, walk_eq_ok_iff shaped, ← list_stored_eq_ok_iff fun held =>
    get?_of_mem_filesBelow]
  constructor
  · rintro ⟨_, ⟨readable, rfl⟩, listed⟩
    exact ⟨readable, listed⟩
  · rintro ⟨readable, listed⟩
    exact ⟨_, ⟨readable, rfl⟩, listed⟩

theorem obstacle?_listedAs (stored : (path, data) ∈ s.filesBelow (root.join directory))
    (fine : s.isDenied path = false) :
    obstacle? root s (listedAs root path data) = none := by
  have same := join_listedAs (mem_filesBelow.mp stored).2 data
  rw [obstacle?, isDenied_congr same, fine, flaw?, get?_congr same, get?_of_mem_filesBelow stored]
  exact if_pos rfl

/-- What is listed is what is stored below the directory: each file once and in the order of their
paths, under its digest and a path that leads to it from the root. All of it passes the check. -/
theorem verify_of_generate (shaped : s.TreeShaped)
    (listed : answer (generate root directory) s = .ok files) :
    ∃ stored : List (Path × Bytes),
      (∀ path data, (path, data) ∈ stored ↔
        (path, Node.file data) ∈ s.nodes.entries ∧
        ∃ a ∈ path.ancestors, a.same (root.join directory)) ∧
      stored.Pairwise (fun a b => a.1.compare b.1 = .lt) ∧
      List.Forall₂ (fun f held => (root.join f.path).same held.1 ∧
        f.digest = digest held.2) files stored ∧
      answer (verify root files) s = .ok () := by
  obtain ⟨-, fine, rfl⟩ := (generate_eq_ok_iff shaped).mp listed
  refine ⟨s.filesBelow (root.join directory), fun path data => ?_, s.filesBelow_pairwise _, ?_, ?_⟩
  · rw [mem_filesBelow, isBelow, List.any_eq_true]
  · rw [List.forall₂_map_left_iff, List.forall₂_same]
    exact fun held mem => ⟨join_listedAs (mem_filesBelow.mp mem).2 held.2, rfl⟩
  · have passed :
        ((s.filesBelow (root.join directory)).map fun held => listedAs root held.1 held.2).findSome?
        (obstacle? root s) = none := by
      rw [List.findSome?_eq_none_iff]
      intro f mem
      obtain ⟨held, stored, rfl⟩ := List.mem_map.mp mem
      exact obstacle?_listedAs stored (fine held stored)
    rw [answer_verify, passed]

/-- A directory outside the root, and names that are no text or have more than one line. -/
theorem verify_of_generate_elsewhere :
    ∃ s : Memory, s.TreeShaped ∧ ∃ files, answer (generate (ofString "/r") (ofString "/x/./d")) s =
      .ok files ∧
      files = [⟨ofString "/x//d/a\nb", digest [2]⟩,
        ⟨⟨Utf8.ofString "/x/d/e/" ++ [0xff]⟩, digest [1]⟩] ∧
      answer (verify (ofString "/r") files) s = .ok () := by
  let s : Memory :=
    edited [.write ⟨Utf8.ofString "/x/d/e/" ++ [0xff]⟩ [1], .write (ofString "/x//d/a\nb") [2],
      .write (ofString "/x/c") [3]] {}
  have shaped : s.TreeShaped := by decide +kernel
  let files : List ListedFile :=
    [⟨ofString "/x//d/a\nb", digest [2]⟩, ⟨⟨Utf8.ofString "/x/d/e/" ++ [0xff]⟩, digest [1]⟩]
  have listed : answer (generate (ofString "/r") (ofString "/x/./d")) s = .ok files :=
    (generate_eq_ok_iff shaped).mpr ⟨by decide +kernel, by decide +kernel, by decide +kernel⟩
  obtain ⟨-, -, -, -, verified⟩ := verify_of_generate shaped listed
  exact ⟨s, shaped, files, listed, rfl, verified⟩

end Stowage.Registry
