import Stowage.Proofs.Path.Names
import Stowage.Proofs.Storage.Growth

/-! Edits of files in memory that keep the tree. A write or a new directory that succeeds leaves
directories above its path, and no file is put where something is below it. One that fails may leave
what it made, so its result is left out. -/
namespace Stowage

namespace Path

def Above (a p : Path) : Prop := ∃ rest, rest ≠ [] ∧ p.components = a.components ++ rest

theorem Above.congr {a p q : Path} (h : a.Above p) (same : p.same q) : a.Above q := by
  rw [Above, ← same_iff.mp same]
  exact h

theorem Above.trans {a b p : Path} (h : a.Above b) (k : b.Above p) : a.Above p := by
  obtain ⟨front, nonempty, eq⟩ := h
  obtain ⟨back, -, eq'⟩ := k
  exact ⟨front ++ back, List.append_ne_nil_of_left_ne_nil nonempty _,
    by rw [eq', eq, List.append_assoc]⟩

theorem above_of_mem_ancestors {a p : Path} (h : a ∈ p.ancestors) : a.Above p := by
  obtain ⟨rest, nonempty, -, eq⟩ := components_of_mem_ancestors h
  exact ⟨rest, nonempty, eq⟩

theorem Above.exists_ancestor {a p : Path} (h : a.Above p) (named : a.isEmpty = false) :
    ∃ b ∈ p.ancestors, b.isEmpty = false ∧ b.same a := by
  obtain ⟨rest, nonempty, eq⟩ := h
  have full : a.components ≠ [] := components_ne_nil (by simpa [isEmpty] using named)
  have down : .root ∉ rest := by
    intro mem
    refine root_not_mem_tail p ?_
    rw [eq, List.tail_append_of_ne_nil full]
    exact List.mem_append_right _ mem
  obtain ⟨b, mem, level⟩ := Path.exists_ancestor nonempty down eq
  exact ⟨b, mem, isEmpty_eq_false (level ▸ full), same_iff.mpr level⟩

end Path

namespace Memory

open Stowage.Path

variable {s t : Memory} {path : Path}

/-- Directories above all that is found, under any spelling. -/
def Nested (s : Memory) : Prop :=
  ∀ path node, s.get? path = some node → ∀ a : Path, a.isEmpty = false → a.Above path →
    s.get? a = some .directory

theorem nested_iff_treeShaped : s.Nested ↔ s.TreeShaped := by
  constructor
  · intro nested entry stored a above named
    exact nested entry.1 entry.2 (Nodes.get?_of_mem stored) a named (above_of_mem_ancestors above)
  · intro shaped path node there a named above
    obtain ⟨key, same, stored⟩ := Nodes.exists_mem_of_get? there
    obtain ⟨b, mem, named, level⟩ := (above.congr (by rwa [same_comm])).exists_ancestor named
    rw [← get?_congr level]
    exact shaped _ stored b mem named

theorem nested_empty : ({} : Memory).Nested := by
  intro path node there
  cases there

section Ancestors

variable {nodes : Nodes} (made : insertAncestors s.nodes path.ancestors = (.ok (), nodes))
include made

theorem directory_above_of_insertAncestors {a : Path} (named : a.isEmpty = false)
    (above : a.Above path) :
    nodes.get? a = some .directory := by
  obtain ⟨b, mem, named, level⟩ := above.exists_ancestor named
  rw [← get?_nodes_congr level]
  exact directory_of_insertAncestors made b mem named

theorem nested_insertAncestors (nested : s.Nested) : Nested { s with nodes } := by
  have each := get?_insertAncestors s.nodes path.ancestors
  have grown := grown_insertAncestors s.nodes path.ancestors
  rw [made] at each grown
  intro q found there a named above
  by_cases unmade : Unmade s.nodes path.ancestors q
  · obtain ⟨-, b, before, -, same⟩ := unmade
    have up := above_of_mem_ancestors (List.takeWhile_subset _ before)
    exact directory_above_of_insertAncestors made named
      ((above.congr (by rwa [same_comm])).trans up)
  · exact grown.1 a _ (nested q found (((each q).2 unmade).symm.trans there) a named above)

end Ancestors

theorem nested_put {node : Node} (nested : s.Nested) (put : s.put path node = (.ok (), t))
    (free : s.get? path = some .directory → node = .directory) : t.Nested := by
  unfold Memory.put at put
  split at put
  · cases put
  rename_i nodes made
  cases put
  intro q found there a named above
  change (nodes.insert path node).get? q = some found at there
  change (nodes.insert path node).get? a = some .directory
  rw [Nodes.get?_insert] at there ⊢
  have up : nodes.get? a = some .directory := by
    split at there
    · rename_i same
      exact directory_above_of_insertAncestors made named (above.congr (by rwa [same_comm]))
    · exact nested_insertAncestors made nested q found there a named above
  split
  · rename_i same
    have own := get?_insertAncestors_self s.nodes path
    rw [made] at own
    rw [← get?_nodes_congr same, own] at up
    rw [free up]
  · exact up

theorem nested_writeFile {data : Bytes} (nested : s.Nested)
    (wrote : s.writeFile path data = (.ok (), t)) : t.Nested := by
  unfold writeFile at wrote
  split at wrote
  · cases wrote
  · cases wrote
  · rename_i apart
    exact nested_put nested wrote fun there => absurd there apart

theorem nested_createDirectory (nested : s.Nested) (made : s.createDirectory path = (.ok (), t)) :
    t.Nested := by
  unfold createDirectory at made
  split at made
  · cases made
  · cases made
  · exact nested_put nested made fun _ => rfl

theorem nested_removeFile (nested : s.Nested) (path : Path) : (s.removeFile path).2.Nested := by
  unfold removeFile
  split
  · exact nested
  · rename_i data _ file
    intro q node there a named above
    change (s.nodes.erase path).get? q = some node at there
    change (s.nodes.erase path).get? a = some .directory
    rw [Nodes.get?_erase] at there ⊢
    split at there
    · cases there
    have up : s.get? a = some .directory := nested q node there a named above
    -- A file goes, so that the directory above is another node.
    rw [if_neg fun same => by rw [get?_congr same, up] at file; cases file]
    exact up
  · exact nested
  · exact nested

inductive Edit
  | write (path : Path) (data : Bytes)
  | createDirectory (path : Path)
  | removeFile (path : Path)
  | deny (path : Path)
deriving DecidableEq

def ifDone (s : Memory) : Except Failure Unit × Memory → Memory
  | (.ok (), t) => t
  | (.error _, _) => s

/-- What an edit leaves. Only the removal of a file may fail, which changes nothing then. -/
def Edit.apply (s : Memory) : Edit → Memory
  | .write path data => ifDone s (run (Storage.write path data) s)
  | .createDirectory path => ifDone s (run (Storage.createDirectory path) s)
  | .removeFile path => (run (Storage.removeFile path) s).2
  | .deny path => s.deny path

def edited (edits : List Edit) (s : Memory) : Memory := edits.foldl Edit.apply s

theorem of_ifDone {P : Memory → Prop} {ran : Except Failure Unit × Memory} (before : P s)
    (after : ∀ t, ran = (.ok (), t) → P t) : P (ifDone s ran) := by
  rcases ran with ⟨_ | _, t⟩
  · exact before
  · exact after t rfl

theorem nested_apply (nested : s.Nested) (edit : Edit) : (edit.apply s).Nested := by
  cases edit with
  | write path data => exact of_ifDone nested fun t wrote => nested_writeFile nested wrote
  | createDirectory path => exact of_ifDone nested fun t made => nested_createDirectory nested made
  | removeFile path => exact nested_removeFile nested path
  | deny path => exact nested

theorem directory_apply (there : s.get? path = some .directory) (edit : Edit) :
    (edit.apply s).get? path = some .directory := by
  cases edit with
  | write q data =>
    refine of_ifDone (P := fun t => t.get? path = some .directory) there fun t wrote => ?_
    have kept := (kept_writeFile s q data).directory path there
    rwa [show s.writeFile q data = (.ok (), t) from wrote] at kept
  | createDirectory q =>
    refine of_ifDone (P := fun t => t.get? path = some .directory) there fun t made => ?_
    have kept := (kept_createDirectory s q).directory path there
    rwa [show s.createDirectory q = (.ok (), t) from made] at kept
  | removeFile q => exact (kept_removeFile s q).directory path there
  | deny q => exact there

theorem nested_edited (nested : s.Nested) (edits : List Edit) : (edited edits s).Nested := by
  induction edits generalizing s with
  | nil => exact nested
  | cons edit edits ih => exact ih (nested_apply nested edit)

theorem directory_edited (there : s.get? path = some .directory) (edits : List Edit) :
    (edited edits s).get? path = some .directory := by
  induction edits generalizing s with
  | nil => exact there
  | cons edit edits ih => exact ih (directory_apply there edit)

/-- In every state that edits lead to from nothing, what stands above a stored path is a directory,
but for the empty path, so that no file with a name has anything below it; and a directory is one
after all further edits. -/
theorem tree_of_edited (edits : List Edit) :
    (edited edits {}).TreeShaped ∧
      (∀ path node, (edited edits {}).get? path = some node → ∀ a : Path, a.isEmpty = false →
        a.Above path → (edited edits {}).get? a = some .directory) ∧
      (∀ file data, (edited edits {}).get? file = some (.file data) → file.isEmpty = false →
        ∀ path node, (edited edits {}).get? path = some node → ¬ file.Above path) ∧
      ∀ path, (edited edits {}).get? path = some .directory →
        ∀ more, (edited (edits ++ more) {}).get? path = some .directory := by
  have nested := nested_edited nested_empty edits
  refine ⟨nested_iff_treeShaped.mp nested, nested, fun file data held named path node there above =>
    ?_, fun path there more => ?_⟩
  · have up := nested path node there file named above
    rw [held] at up
    cases up
  · rw [edited, List.foldl_append]
    exact directory_edited there more

/-- A write two names below a file is left out, and dots above a path are directories as well. -/
theorem tree_of_edited_dotted :
    ∃ edits : List Edit, edits.length = 5 ∧ (edited edits {}).TreeShaped ∧
      (edited edits {}).get? (ofString "/a/b") = some (.file [1]) ∧
      (edited edits {}).get? (ofString "/a/b/c") = none ∧
      (edited edits {}).get? (ofString "x/..") = some .directory ∧
      ¬ (ofString "/a/b").Above (ofString "x/../y") ∧
      (edited (edits ++ [.write (ofString "x//..") []]) {}).get? (ofString "x/..") =
      some .directory := by
  let edits : List Edit := [.write (ofString "/a/b") [1], .write (ofString "/a/b/c/d") [2],
    .createDirectory (ofString "x/.././y"), .deny (ofString "/a"), .removeFile (ofString "/a")]
  have file : (edited edits {}).get? (ofString "/a/b") = some (.file [1]) := by decide +kernel
  have dir : (edited edits {}).get? (ofString "x/../y") = some .directory := by decide +kernel
  obtain ⟨shaped, above, apart, stays⟩ := tree_of_edited edits
  have up : (edited edits {}).get? (ofString "x/..") = some .directory :=
    above _ _ dir _ (by decide) ⟨[.name (Utf8.ofString "y")], by decide, by decide⟩
  exact ⟨edits, rfl, shaped, file, by decide +kernel, up, apart _ _ file (by decide) _ _ dir,
    stays _ up _⟩

end Memory
end Stowage
