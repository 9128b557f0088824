import Stowage.Proofs.Backup.Create
import Stowage.Proofs.Backup.Listed
import Stowage.Proofs.Storage.Growth

/-! Backups made one after another: the directory lists what it listed before, and one more for each
that was made. -/
namespace Stowage.Backup

open BackupName Memory Stowage.Path

variable {s t : Memory} {backups : Path} {names : List BackupName}

structure Request where
  directory : Path
  now : Moment

def Request.run (r : Request) (backups : Path) (s : Memory) : Except Error CreatedBackup × Memory :=
  Memory.run (create r.directory backups r.now) s

/-- The name that a request adds: the id and the whole second of what was made, if it was. -/
def Request.added (r : Request) : Except Error CreatedBackup → List BackupName
  | .ok c => [⟨c.backup.instanceId, r.now.wholeSecond⟩]
  | .error _ => []

def afterRequests (backups : Path) : List Request → Memory → Memory
  | [], s => s
  | r :: rest, s => afterRequests backups rest (r.run backups s).2

def addedNames (backups : Path) : List Request → Memory → List BackupName
  | [], _ => []
  | r :: rest, s => r.added (r.run backups s).1 ++ addedNames backups rest (r.run backups s).2

/-- An id that stays in its directory, and on its line. -/
def PlainId (id : String) : Prop := '/' ∉ id.toList ∧ '\n' ∉ id.toList

instance (id : String) : Decidable (PlainId id) := inferInstanceAs (Decidable (_ ∧ _))

/-- Every access is allowed, and a directory that is not there holds nothing that could be
listed. -/
structure Listable (s : Memory) (backups : Path) : Prop where
  free : s.denied = []
  there : s.get? backups = some .directory ∨ s.get? backups = none ∧
    storedNames s.nodes backups = []

theorem Listable.fine (h : Listable s backups) (path : Path) : s.isDenied path = false := by
  rw [isDenied, h.free]
  rfl

theorem listable_of_list (shaped : s.TreeShaped) (free : s.denied = [])
    (given : backups.spelling ≠ []) (listed : answer (list backups) s = .ok names) :
    Listable s backups := by
  obtain ⟨-, ⟨there, -⟩ | ⟨gone, -⟩⟩ := list_eq_ok_iff.mp listed
  · exact ⟨free, .inl there⟩
  · refine ⟨free, .inr ⟨gone, List.eq_nil_iff_forall_not_mem.mpr fun n mem => ?_⟩⟩
    obtain ⟨path, data, stored, child, -⟩ := mem_storedNames_iff.mp mem
    obtain ⟨c, down, eq⟩ := isChild_iff.mp child
    obtain ⟨a, above, level⟩ :=
      exists_ancestor (List.cons_ne_nil c []) (by simpa using down.symm) eq
    have named : a.isEmpty = false := by
      apply isEmpty_eq_false
      rw [level]
      exact components_ne_nil given
    have there := shaped _ stored a above named
    rw [get?_congr (same_iff.mpr level), gone] at there
    cases there

theorem Listable.answer_list (h : Listable s backups) :
    answer (list backups) s = .ok (byAge (storedNames s.nodes backups)) := by
  apply list_eq_ok_iff.mpr
  refine ⟨h.fine backups, ?_⟩
  rcases h.there with there | ⟨gone, empty⟩
  · exact .inl ⟨there, rfl⟩
  · rw [empty]
    exact .inr ⟨gone, List.mergeSort_nil⟩

theorem filterMap_madeDirectory (made : List Path) :
    (made.map madeDirectory).filterMap (storedName? backups) = [] := by
  rw [List.filterMap_map]
  exact List.filterMap_eq_nil_iff.mpr fun _ _ => rfl

theorem storedNames_perm_of_directories {m n : Nodes} {made : List Path} (backups : Path)
    (added : n.entries.Perm (made.map madeDirectory ++ m.entries)) :
    (storedNames n backups).Perm (storedNames m backups) := by
  have kept := added.filterMap (storedName? backups)
  rw [List.filterMap_append, filterMap_madeDirectory] at kept
  exact kept

theorem storedNames_perm_of_file {m n : Nodes} {made : List Path} {path : Path} {data : Bytes}
    {name : BackupName} (child : isChild backups path) (named : nameAt? path = some name)
    (added : n.entries.Perm ((path, .file data) :: (made.map madeDirectory ++ m.entries))) :
    (storedNames n backups).Perm (storedNames m backups ++ [name]) := by
  have told : storedName? backups (path, .file data) = some name :=
    storedName?_eq_some_iff.mpr ⟨path, data, rfl, child, named⟩
  have kept := added.filterMap (storedName? backups)
  rw [List.filterMap_cons_some told, List.filterMap_append, filterMap_madeDirectory] at kept
  exact kept.trans (List.perm_append_singleton _ _).symm

theorem slash_not_mem_of_plainId {id : String} (h : PlainId id) : slash ∉ Utf8.ofString id :=
  fun mem =>
  h.1 (Utf8.mem_of_mem_encode (c := '/') (by decide) mem)

theorem Listable.of_failed {path : Path} {data : Bytes} {e : Failure} (h : Listable s backups)
    (failed : s.writeFile path data = (.error e, t))
    (same : (storedNames t.nodes backups).Perm (storedNames s.nodes backups)) :
    Listable t backups := by
  have left : LeftBy s t path e := leftBy_of_failed (c := .write path data) failed
  refine ⟨left.denied.trans h.free, ?_⟩
  by_cases made : Leftover s path e backups
  · exact .inl (left.made backups made)
  · rw [left.kept backups made]
    rcases h.there with there | ⟨gone, empty⟩
    · exact .inl there
    · rw [empty] at same
      exact .inr ⟨gone, List.perm_nil.mp same⟩

theorem Listable.of_made {made : List Path} {n : BackupName} {data : Bytes} (h : Listable s backups)
    (given : backups.spelling ≠ []) (plain : PlainId n.instanceId) (since : 0 ≤ n.time.seconds)
    (denied : t.denied = s.denied)
    (added : t.nodes.entries.Perm
      ((n.pathIn backups, .file data) :: (made.map madeDirectory ++ s.nodes.entries)))
    (above : ∀ a ∈ (n.pathIn backups).ancestors, a.isEmpty = false → t.get? a = some .directory) :
    Listable t backups ∧
    (storedNames t.nodes backups).Perm (storedNames s.nodes backups ++ [n.counted]) := by
  have clean := slash_not_mem_of_plainId plain
  constructor
  · obtain ⟨a, mem, level⟩ :=
      exists_ancestor (List.cons_ne_nil _ _) (by simp) (components_pathIn clean since backups)
    have named : a.isEmpty = false := by
      apply isEmpty_eq_false
      rw [level]
      exact components_ne_nil given
    refine ⟨denied.trans h.free, .inl ?_⟩
    rw [← get?_congr (same_iff.mpr level)]
    exact above a mem named
  · obtain ⟨child, named⟩ := named_of_same_pathIn clean plain.2 since (same_iff.mpr rfl)
    exact storedNames_perm_of_file child named added

/-- Each request adds the name of what it made to the names that are stored, and nothing else. -/
theorem Listable.run (h : Listable s backups) (given : backups.spelling ≠ []) (r : Request)
    (plain : ∀ n ∈ r.added (r.run backups s).1, PlainId n.instanceId) :
    Listable (r.run backups s).2 backups ∧
      (storedNames (r.run backups s).2.nodes backups).Perm
        (storedNames s.nodes backups ++ (r.added (r.run backups s).1).map counted) := by
  have same : storedNames s.nodes backups ++ [] = storedNames s.nodes backups := List.append_nil _
  rcases create_cases r.directory backups r.now s with
    ⟨e, n, failed⟩ | ⟨i, files, bytes, path, n, draft, rfl, ran⟩
  · rw [Request.run, failed, Request.added, List.map_nil, same]
    exact ⟨⟨h.free, h.there⟩, .refl _⟩
  · have ready : Listable (s.withOpens n) backups := ⟨h.free, h.there⟩
    have denied :=
      (kept_writeFile (s.withOpens n) (backups.joinText (ofInstance i r.now.wholeSecond).fileName)
        bytes).denied
    obtain ⟨made, ⟨⟨e, failed⟩, added⟩ | ⟨wrote, added, above⟩⟩ :=
      writeFile_absent bytes (ready.fine _) draft.absent
    · rw [Request.run, ran, failed]
      have kept := storedNames_perm_of_directories backups added
      refine ⟨ready.of_failed (Prod.ext failed rfl) kept, ?_⟩
      rw [Except.mapError, Except.map, Request.added, List.map_nil, same]
      exact kept
    · rw [Request.run, ran, wrote] at plain ⊢
      exact ready.of_made given (plain ⟨i.id, r.now.wholeSecond⟩ List.mem_cons_self) draft.since
        denied added above

theorem Listable.afterRequests (h : Listable s backups) (given : backups.spelling ≠ [])
    (requests : List Request) (plain : ∀ n ∈ addedNames backups requests s, PlainId n.instanceId) :
    Listable (afterRequests backups requests s) backups ∧
      (storedNames (Backup.afterRequests backups requests s).nodes backups).Perm
        (storedNames s.nodes backups ++ (addedNames backups requests s).map counted) := by
  induction requests generalizing s with
  | nil => exact ⟨h, by rw [addedNames, List.map_nil, List.append_nil]; exact .refl _⟩
  | cons r rest ih =>
    obtain ⟨first, others⟩ := List.forall_mem_append.mp plain
    obtain ⟨next, added⟩ := h.run given r first
    obtain ⟨last, more⟩ := ih next others
    refine ⟨last, more.trans ?_⟩
    rw [addedNames, List.map_append, ← List.append_assoc]
    exact added.append_right _

theorem whole_of_mem_addedNames {requests : List Request} {n : BackupName}
    (mem : n ∈ addedNames backups requests s) : n.time.wholeSecond = n.time := by
  induction requests generalizing s with
  | nil => cases mem
  | cons r rest ih =>
    rcases List.mem_append.mp mem with first | later
    · unfold Request.added at first
      split at first
      · rw [List.mem_singleton.mp first]
        exact Moment.wholeSecond_wholeSecond r.now
      · cases first
    · exact ih later

/-- However many backups are made, and whatever fails: the directory lists what it listed before
and, for each backup that was made since, its id and its second in Unix time, in the order of their
age. These are the whole seconds exactly where none of the backups was made in a leap second. -/
theorem list_afterRequests (shaped : s.TreeShaped) (free : s.denied = [])
    (given : backups.spelling ≠ []) (listed : answer (list backups) s = .ok names)
    (requests : List Request) (plain : ∀ n ∈ addedNames backups requests s, PlainId n.instanceId) :
    ∃ later, answer (list backups) (afterRequests backups requests s) = .ok later ∧
      later.Pairwise (fun a b => (a.compareAge b).isLE) ∧
      later.Perm (names ++ (addedNames backups requests s).map counted) ∧
      (later.Perm (names ++ addedNames backups requests s) ↔
        ∀ n ∈ addedNames backups requests s, ¬ n.time.Leaps) := by
  have start := listable_of_list shaped free given listed
  obtain ⟨last, added⟩ := start.afterRequests given requests plain
  have before : names = byAge (storedNames s.nodes backups) :=
    Except.ok.inj (listed.symm.trans start.answer_list)
  have whole : (byAge (storedNames (afterRequests backups requests s).nodes backups)).Perm
      (names ++ (addedNames backups requests s).map counted) := by
    rw [before]
    exact (byAge_perm _).trans (added.trans ((byAge_perm _).symm.append_right _))
  refine ⟨_, last.answer_list, byAge_pairwise _, whole, ?_⟩
  rw [whole.congr_left, List.perm_append_left_iff]
  exact map_counted_perm_iff fun n mem => whole_of_mem_addedNames mem

theorem list_afterRequests_taken :
    ∃ s requests later, s.TreeShaped ∧ s.denied = [] ∧
      answer (list (ofString "/b")) s = .ok [⟨"a", { seconds := 7, nanos := 0 }⟩] ∧
      requests.map Request.now =
        [{ seconds := 7, nanos := 5 }, { seconds := 7, nanos := 0 }, .epoch] ∧
      addedNames (ofString "/b") requests s =
        [⟨"a-1", { seconds := 7, nanos := 0 }⟩, ⟨"a-1", .epoch⟩] ∧
      answer (list (ofString "/b")) (afterRequests (ofString "/b") requests s) = .ok later ∧
      later.Pairwise (fun a b => (a.compareAge b).isLE) ∧
      later.Perm [⟨"a", { seconds := 7, nanos := 0 }⟩, ⟨"a-1", { seconds := 7, nanos := 0 }⟩,
        ⟨"a-1", .epoch⟩] := by
  let i : Instance := { name := "a", tag := "1", url := "u", version := "2", commit := "c" }
  let s : Memory := ({} : Memory).after
    [.write (ofString "/b/a-7.tar") [], .write (ofString "/i/state.json") i.toJson]
  let requests : List Request := [⟨ofString "/i", { seconds := 7, nanos := 5 }⟩,
    ⟨ofString "/i", { seconds := 7, nanos := 0 }⟩, ⟨ofString "/i", .epoch⟩]
  have shaped : s.TreeShaped := by decide +kernel
  have free : s.denied = [] := by decide +kernel
  have stored : storedNames s.nodes (ofString "/b") = [⟨"a", { seconds := 7, nanos := 0 }⟩] := by
    decide +kernel
  have listed : answer (list (ofString "/b")) s = .ok [⟨"a", { seconds := 7, nanos := 0 }⟩] :=
    answer_list_of_pairwise (by decide +kernel) (by decide +kernel) stored
      (List.pairwise_singleton ..)
  have added : addedNames (ofString "/b") requests s =
      [⟨"a-1", { seconds := 7, nanos := 0 }⟩, ⟨"a-1", .epoch⟩] := by
    decide +kernel
  have plain : ∀ n ∈ addedNames (ofString "/b") requests s, PlainId n.instanceId := by
    rw [added]
    decide
  have before : ∀ n ∈ addedNames (ofString "/b") requests s, ¬ n.time.Leaps := by
    rw [added]
    decide
  obtain ⟨later, told, sorted, -, same⟩ :=
    list_afterRequests shaped free (by decide) listed requests plain
  have whole := same.mpr before
  rw [added] at whole
  exact ⟨s, requests, later, shaped, free, listed, rfl, added, told, sorted, whole⟩

/-- A backup that is made in a leap second is listed as one of the second before. -/
theorem not_list_afterRequests_of_leaps :
    ∃ s requests later, s.TreeShaped ∧ s.denied = [] ∧ answer (list (ofString "/b")) s = .ok [] ∧
      addedNames (ofString "/b") requests s =
        [⟨"a-1", { seconds := 1483228799, nanos := 1000000000 }⟩] ∧
      answer (list (ofString "/b")) (afterRequests (ofString "/b") requests s) = .ok later ∧
      ¬ later.Perm ([] ++ addedNames (ofString "/b") requests s) := by
  let i : Instance := { name := "a", tag := "1", url := "u", version := "2", commit := "c" }
  let s : Memory := ({} : Memory).after [.write (ofString "/i/state.json") i.toJson]
  let requests : List Request :=
    [⟨ofString "/i", { seconds := 1483228799, nanos := 1500000000 }⟩]
  have shaped : s.TreeShaped := by decide +kernel
  have free : s.denied = [] := by decide +kernel
  have listed : answer (list (ofString "/b")) s = .ok [] := by decide +kernel
  have added : addedNames (ofString "/b") requests s =
      [⟨"a-1", { seconds := 1483228799, nanos := 1000000000 }⟩] := by
    decide +kernel
  have plain : ∀ n ∈ addedNames (ofString "/b") requests s, PlainId n.instanceId := by
    rw [added]
    decide
  have start := listable_of_list shaped free (by decide) listed
  obtain ⟨last, stored⟩ := start.afterRequests (by decide) requests plain
  have empty : storedNames s.nodes (ofString "/b") = [] := by decide +kernel
  refine ⟨s, requests, _, shaped, free, listed, added, last.answer_list, fun same => ?_⟩
  rw [added] at same stored
  rw [empty] at stored
  exact absurd (stored.symm.trans ((byAge_perm _).symm.trans same)) (by decide)

end Stowage.Backup
