import Stowage.Proofs.Backup.Create
import Stowage.Proofs.Storage.Atomicity

/-! All or nothing: a backup that fails leaves the files as they were, at whatever step it fails,
and one that is made adds its archive and the directories above it. -/
namespace Stowage

open Memory

namespace Memory

variable {s t : Memory} {path : Path} {data : Bytes} {e : Failure}

/-- The files are the same, under the same denials. Directories may be new. -/
structure SameFiles (s t : Memory) : Prop where
  denied : t.denied = s.denied
  file (q : Path) (data : Bytes) : t.get? q = some (.file data) ↔ s.get? q = some (.file data)

/-- A file is new, and all that was there stays. What else is new are directories for ancestors of
the file. -/
structure Added (s t : Memory) (path : Path) (data : Bytes) : Prop where
  denied : t.denied = s.denied
  absent : s.get? path = none
  stored : t.get? path = some (.file data)
  kept (q : Path) (node : Node) : s.get? q = some node → t.get? q = some node
  new (q : Path) : s.get? q = none → t.get? q ≠ none →
    q.same path ∨ t.get? q = some .directory ∧ ∃ a ∈ path.ancestors, a.isEmpty = false ∧ a.same q

theorem sameFiles_withOpens (s : Memory) (n : Nat) : SameFiles s (s.withOpens n) :=
  ⟨rfl, fun _ _ => .rfl⟩

theorem sameFiles_of_writeFile (failed : s.writeFile path data = (.error e, t)) :
    SameFiles s t := by
  have left : LeftBy s t path e := leftBy_of_failed (c := .write path data) failed
  refine ⟨left.denied, fun q held => ?_⟩
  by_cases leftover : Leftover s path e q
  · have absent : s.get? q = none := leftover.2.1
    simp [left.made q leftover, absent]
  · rw [left.kept q leftover]

theorem added_of_writeFile (absent : s.get? path = none)
    (wrote : s.writeFile path data = (.ok (), t)) :
    Added s t path data := by
  have own := get?_writeFile wrote
  obtain ⟨-, rfl⟩ := writeFile_eq_ok wrote
  refine ⟨rfl, absent, (own path).trans (if_pos (Path.same_iff.mpr rfl)), fun q node there => ?_,
    fun q fresh there => ?_⟩
  · have apart : ¬ path.same q := fun same => by
      rw [← get?_congr same, absent] at there
      cases there
    rw [own, if_neg apart]
    exact (grown_insertAncestors ..).1 q node there
  · by_cases same : path.same q
    · exact .inl (by rw [Path.same_comm, same])
    · rw [own, if_neg same] at there ⊢
      by_cases unmade : Unmade s.nodes path.ancestors q
      · have ⟨_, a, before, named, level⟩ := unmade
        exact .inr ⟨(get?_insertAncestors ..).1 unmade, a, List.takeWhile_subset _ before, named,
          level⟩
      · exact absurd (((get?_insertAncestors ..).2 unmade).trans fresh) there

end Memory

namespace Backup

/-- A backup that fails leaves every file as it was. One that is made puts a whole archive where
nothing was, and changes nothing else but for directories above it. -/
theorem sameFiles_or_added (directory backups : Path) (now : Moment) (s : Memory) :
    match run (create directory backups now) s with
    | (.error _, t) => SameFiles s t
    | (.ok c, t) =>
      ∃ entries data, Archive.write now.wholeSecond.seconds.toNat entries = .ok data ∧
        Added s t c.path data := by
  rcases create_cases directory backups now s with
    ⟨e, n, failed⟩ | ⟨i, files, bytes, path, n, draft, rfl, ran⟩
  · rw [failed]
    exact sameFiles_withOpens s n
  · obtain ⟨entries, -, written⟩ := draft.written
    have absent : (s.withOpens n).get? (backups.joinText (ofInstance i now.wholeSecond).fileName) =
        none := draft.absent
    rw [ran]
    rcases wrote : (s.withOpens n).writeFile _ bytes with ⟨e | _, t⟩
    · obtain ⟨denied, file⟩ := sameFiles_of_writeFile wrote
      exact ⟨denied, file⟩
    · obtain ⟨denied, absent, stored, kept, new⟩ := added_of_writeFile absent wrote
      exact ⟨_, bytes, written, denied, absent, stored, kept, new⟩

end Backup
end Stowage
