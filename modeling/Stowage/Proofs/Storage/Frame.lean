import Mathlib.Logic.Relation
import Stowage.Proofs.Storage.Creation
import Stowage.Proofs.Storage.Edits

/-! What a write changes, and what it leaves alone. The data are read back under each spelling of
the path, the paths above it lead to directories from then on, and nothing is new anywhere else. -/
namespace Stowage

namespace Path

/-- The path once more, spelled with something more that names nothing. -/
inductive Respelling : Path → Path → Prop
  | slash (front back : Bytes) :
  Respelling ⟨front ++ slash :: back⟩ ⟨front ++ slash :: slash :: back⟩
  | dot (front back : Bytes) :
  Respelling ⟨front ++ slash :: back⟩ ⟨front ++ slash :: dot :: slash :: back⟩
  | last (p : Path) (named : p.isEmpty = false) : Respelling p ⟨p.spelling ++ [slash]⟩

/-- What is inside of a path does not depend on what stands before the slash, but for the root that
it may be. -/
theorem components_behind_slash (front bs : Bytes) :
    components ⟨front ++ slash :: bs⟩ = (if front = [] then [.root] else components ⟨front⟩) ++
      inside bs := by
  split
  · rename_i empty
    rw [empty]
    exact components_rooted bs
  · rename_i nonempty
    exact components_append_slash nonempty bs

theorem inside_slash (bs : Bytes) : inside (slash :: bs) = inside bs := inside_append_slash [] bs

theorem inside_dot_slash (bs : Bytes) : inside (dot :: slash :: bs) = inside bs :=
  inside_append_slash [dot] bs

theorem same_of_respelling {p q : Path} (h : Respelling p q) : p.same q := by
  rw [same_iff]
  cases h with
  | slash front back => rw [components_behind_slash, components_behind_slash, inside_slash]
  | dot front back => rw [components_behind_slash, components_behind_slash, inside_dot_slash]
  | last _ named =>
    have full : p.spelling ≠ [] := by simpa [isEmpty] using named
    rw [components_append_slash full, inside_nil, List.append_nil]

theorem same_of_respelled {p q : Path} (h : Relation.EqvGen Respelling p q) : p.same q := by
  induction h with
  | rel p q step => exact same_of_respelling step
  | refl p => exact same_iff.mpr rfl
  | symm p q _ ih => rwa [same_comm]
  | trans p q r _ _ first second => rwa [same_congr first]

end Path

namespace Memory

open Stowage.Path

variable {s t : Memory} {path q : Path} {data : Bytes}

theorem leadsTo_iff_above : leadsTo q path ↔ q.isEmpty = false ∧ q.Above path := by
  rw [leadsTo_iff]
  constructor
  · rintro ⟨a, mem, named, same⟩
    obtain ⟨rest, nonempty, eq⟩ := above_of_mem_ancestors mem
    rw [same_iff.mp same] at eq
    refine ⟨isEmpty_eq_false ?_, rest, nonempty, eq⟩
    rw [← same_iff.mp same]
    exact Path.components_ne_nil (by simpa [isEmpty] using named)
  · rintro ⟨named, above⟩
    exact above.exists_ancestor named

section Unbarred

variable (free : s.denied = [])
include free

theorem allowed_of_denied_nil (q : Path) : s.allowed q = .ok () := by
  rw [allowed, isDenied, free]
  rfl

theorem fileContent_of_denied_nil (q : Path) :
    s.fileContent q = match s.get? q with
      | some (.file data) => .ok data
      | some .directory => .error (.directory q)
      | none => .error (.absent q) := by
  rw [fileContent, allowed_of_denied_nil free]
  rcases s.get? q with _ | _ | _ <;> rfl

theorem answer_isFile_of_denied_nil (q : Path) :
    answer (Storage.isFile q) s = .ok (decide (s.kind? q = some .file)) := by
  change s.ask q (fun node => node.any fun n => decide (n ≠ .directory)) = _
  rw [ask, allowed_of_denied_nil free, kind?]
  rcases s.get? q with _ | _ | _ <;> rfl

theorem answer_isDirectory_of_denied_nil (q : Path) :
    answer (Storage.isDirectory q) s = .ok (decide (s.kind? q = some .directory)) := by
  change s.ask q (fun node => decide (node = some .directory)) = _
  rw [ask, allowed_of_denied_nil free, kind?]
  rcases s.get? q with _ | _ | _ <;> rfl

end Unbarred

section Written

variable (wrote : s.writeFile path data = (.ok (), t))
include wrote

theorem get?_writeFile_of_not_above (apart : ¬ path.same q) (beside : ¬ leadsTo q path) :
    t.get? q = s.get? q := by
  rw [get?_writeFile wrote, if_neg apart]
  refine (get?_insertAncestors s.nodes path.ancestors q).2 ?_
  rintro ⟨-, a, before, named, level⟩
  exact beside (leadsTo_iff.mpr ⟨a, List.takeWhile_subset _ before, named, level⟩)

theorem kind?_file_iff (apart : ¬ path.same q) :
    t.kind? q = some .file ↔ s.kind? q = some .file := by
  rw [kind?_writeFile wrote, if_neg apart]
  split
  · rename_i above
    exact iff_of_false nofun ((exists_writeFile_iff.mp ⟨t, wrote⟩).clear q above)
  · rfl

end Written

/-- A write that succeeds where nothing is denied puts the data under the path, whatever its
spelling. Under each other path is a file if there was one, and what is read there is as before,
unless the path stands above; directories are those that were there and those above. -/
theorem frame_of_write (free : s.denied = [])
    (wrote : run (Storage.write path data) s = (.ok (), t)) :
    (∀ q, q.same path → answer (Storage.read q) t = .ok data) ∧
      (∀ q, Relation.EqvGen Respelling path q → answer (Storage.read q) t = .ok data) ∧
      ∀ q, ¬ q.same path →
        answer (Storage.isFile q) t = answer (Storage.isFile q) s ∧
          (¬ (q.isEmpty = false ∧ q.Above path) →
            answer (Storage.read q) t = answer (Storage.read q) s) ∧
          (answer (Storage.isDirectory q) t = .ok true ↔
            answer (Storage.isDirectory q) s = .ok true ∨ q.isEmpty = false ∧ q.Above path) := by
  replace wrote : s.writeFile path data = (.ok (), t) := wrote
  have free' : t.denied = [] := (denied_writeFile wrote).trans free
  have back (q : Path) (same : q.same path) : answer (Storage.read q) t = .ok data := by
    rw [answer_read]
    exact (fileContent_congr same).mpr (fileContent_writeFile wrote)
  refine ⟨back, fun q respelled => back q ?_, fun q apart => ?_⟩
  · rw [same_comm]
    exact same_of_respelled respelled
  rw [same_comm] at apart
  refine ⟨?_, fun beside => ?_, ?_⟩
  · simp only [answer_isFile_of_denied_nil free, answer_isFile_of_denied_nil free',
      kind?_file_iff wrote apart]
  · rw [answer_read, answer_read, fileContent_of_denied_nil free, fileContent_of_denied_nil free',
      get?_writeFile_of_not_above wrote apart (leadsTo_iff_above.not.mpr beside)]
  · simp only [answer_isDirectory_of_denied_nil free, answer_isDirectory_of_denied_nil free',
      Except.ok.injEq, decide_eq_true_eq, kind?_writeFile wrote, if_neg apart, ← leadsTo_iff_above]
    split
    · rename_i above
      exact iff_of_true rfl (.inr above)
    · rename_i beside
      exact (or_iff_left beside).symm

/-- Slashes and dots inside are no part of a name, but a dot at the head is, and two dots lead
nowhere else. -/
theorem frame_of_write_dotted :
    ∃ s t : Memory, s.denied = [] ∧ run (Storage.write (ofString "./a/../b") [2]) s = (.ok (), t) ∧
      answer (Storage.read (ofString ".//a/./..///b/")) t = .ok [2] ∧
      answer (Storage.read (ofString "b")) t = .ok [1] ∧
      answer (Storage.isDirectory (ofString "a")) t ≠ .ok true ∧
      answer (Storage.isDirectory (ofString "./a")) t = .ok true ∧
      answer (Storage.isFile (ofString "./b")) t = answer (Storage.isFile (ofString "./b")) s := by
  let s : Memory := ({} : Memory).after [.write (ofString "b") [1]]
  let t : Memory := (run (Storage.write (ofString "./a/../b") [2]) s).2
  have wrote : run (Storage.write (ofString "./a/../b") [2]) s = (.ok (), t) :=
    Prod.ext (by decide +kernel) rfl
  obtain ⟨back, -, others⟩ := frame_of_write rfl wrote
  obtain ⟨-, kept, -⟩ := others (ofString "b") (by decide)
  have above : ¬ (ofString "b").Above (ofString "./a/../b") := fun ⟨_, _, eq⟩ => by
    cases (List.cons.inj eq).1
  have held : answer (Storage.read (ofString "b")) s = .ok [1] := by decide +kernel
  have up : (ofString "./a").Above (ofString "./a/../b") :=
    ⟨[.up, .name (Utf8.ofString "b")], by decide, by decide⟩
  exact ⟨s, t, rfl, wrote, back _ (by decide), (kept fun h => above h.2).trans held,
    by decide +kernel, (others _ (by decide)).2.2.mpr (.inr ⟨by decide, up⟩),
    (others _ (by decide)).1⟩

end Memory
end Stowage
