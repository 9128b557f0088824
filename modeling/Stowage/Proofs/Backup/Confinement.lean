import Stowage.Proofs.Backup.Create
import Stowage.Proofs.Backup.FileName

/-! Where an archive is put. The id of an instance goes into the path as it is, so that slashes in
it lead away from the directory of the backups, and a leading one leaves it aside. -/
namespace Stowage.Backup

open Memory Stowage.Path

variable {s t : Memory} {directory backups : Path} {now : Moment} {c : CreatedBackup}

/-- What the id leads through before its last part. -/
def way (id : String) : List Bytes := (split (Utf8.ofString id)).dropLast

/-- The id leads nowhere or, if it has a root, to the directory itself. -/
def StaysIn (backups : Path) (id : String) : Prop :=
  if (ofString id).isRooted then backups.components = .root :: solids ((way id).map inner)
  else ∀ part ∈ way id, part = [] ∨ part = [dot]

instance (backups : Path) (id : String) : Decidable (StaysIn backups id) :=
  inferInstanceAs (Decidable (ite ..))

theorem solids_eq_nil_iff {parts : List Bytes} : solids (parts.map inner) = [] ↔
    ∀ part ∈ parts, part = [] ∨ part = [dot] := by
  induction parts with
  | nil => simp [solids]
  | cons part parts ih =>
    rw [List.map_cons, List.forall_mem_cons, ← ih]
    by_cases solid : (inner part).solid
    · have named : ¬ (part = [] ∨ part = [dot]) := not_or.mpr (inner_solid_iff.mp solid)
      simp [solids_cons_of_solid solid, named]
    · have hollow : part = [] ∨ part = [dot] := by
        rw [inner_solid_iff, not_and_or, not_not, not_not] at solid
        exact solid
      simp [solids_cons_of_hollow solid, hollow]

theorem inside_fileName (id : String) {time : Moment} (since : 0 ≤ time.seconds) :
    ∃ last, inside (Utf8.ofString (backupFileName id time)) = solids ((way id).map inner) ++
      [.name last] := by
  obtain ⟨whole, part, eq, inside⟩ :=
    inside_append (slash_not_mem_nameEnd since) (long_nameEnd time) (Utf8.ofString id)
  refine ⟨part ++ nameEnd time, ?_⟩
  rw [ofString_backupFileName, inside, way, eq, List.dropLast_concat]

theorem isRooted_fileName (id : String) {time : Moment} (since : 0 ≤ time.seconds) :
    (ofString (backupFileName id time)).isRooted = (ofString id).isRooted := by
  have clean := slash_not_mem_nameEnd since
  rw [ofString, ofString_backupFileName]
  cases eq : Utf8.ofString id with
  | nil =>
    rw [List.nil_append, ofString, eq]
    exact Bool.eq_iff_iff.mpr (iff_of_false (not_isRooted_of_slash_not_mem clean) (by decide))
  | cons b bs =>
    rw [ofString, eq]
    rfl

theorem isChild_joinText_iff (nonempty : backups.spelling ≠ []) (id : String) {time : Moment}
    (since : 0 ≤ time.seconds) :
    isChild backups (backups.joinText (backupFileName id time)) ↔ StaysIn backups id := by
  obtain ⟨last, inside⟩ := inside_fileName id since
  have spelling : (ofString (backupFileName id time)).spelling =
      Utf8.ofString (backupFileName id time) := rfl
  rw [isChild_iff, StaysIn, joinText]
  by_cases rooted : (ofString id).isRooted
  · have rooted' := (isRooted_fileName id since).trans rooted
    rw [if_pos rooted, join, if_pos rooted', components_eq_head, head, if_pos rooted', spelling,
      inside]
    constructor
    · rintro ⟨d, -, eq⟩
      rw [← List.append_assoc] at eq
      exact (List.append_inj' eq rfl).1.symm
    · intro eq
      exact ⟨.name last, Component.noConfusion, by rw [eq]; rfl⟩
  · have rooted' : ¬ (ofString (backupFileName id time)).isRooted := by
      rwa [isRooted_fileName id since]
    rw [if_neg rooted, components_join nonempty rooted', spelling, inside, ← solids_eq_nil_iff]
    constructor
    · rintro ⟨d, -, eq⟩
      exact (List.append_inj' (List.append_cancel_left eq : _ = [] ++ [d]) rfl).1
    · intro empty
      exact ⟨.name last, Component.noConfusion, by rw [empty]; rfl⟩

/-- An archive is put right into the directory where the id stays in it, and nowhere else. -/
theorem isChild_of_create_iff (nonempty : backups.spelling ≠ [])
    (created : run (create directory backups now) s = (.ok c, t)) :
    isChild backups c.path ↔ StaysIn backups c.backup.instanceId := by
  obtain ⟨i, files, bs, made⟩ := create_eq_ok created
  have name : c.backup.fileName = backupFileName c.backup.instanceId now.wholeSecond := by
    rw [made.backup]
    rfl
  rw [made.path, name]
  exact isChild_joinText_iff nonempty _ made.since

theorem isChild_of_create_dotted :
    ∃ s c t, run (create (ofString "/inst") (ofString "/backups") .epoch) s = (.ok c, t) ∧
      c.backup.instanceId = "./x-t" ∧ isChild (ofString "/backups") c.path := by
  let i : Instance := { name := "./x", tag := "t", url := "u", version := "v", commit := "c" }
  let s : Memory := (({} : Memory).writeFile (ofString "/inst/state.json") i.toJson).2
  have ran :
      ((run (create (ofString "/inst") (ofString "/backups") .epoch) s).1.toOption.map fun c =>
      c.backup.instanceId) = some "./x-t" := by decide +kernel
  rcases created : run (create (ofString "/inst") (ofString "/backups") .epoch) s with ⟨_ | c, t⟩
  · rw [created] at ran
    cases ran
  · rw [created] at ran
    have id : c.backup.instanceId = "./x-t" := Option.some.inj ran
    exact ⟨s, c, t, created, id,
      (isChild_of_create_iff (by decide) created).mpr (by rw [id]; decide)⟩

/-- A name that starts with two dots puts the archive beside the directory. -/
theorem not_isChild_of_create_dots :
    ∃ s c t, run (create (ofString "/inst") (ofString "/backups") .epoch) s = (.ok c, t) ∧
      c.path = ofString "/backups/../x-t-0.tar" ∧ ¬ isChild (ofString "/backups") c.path := by
  let i : Instance := { name := "../x", tag := "t", url := "u", version := "v", commit := "c" }
  let s : Memory := (({} : Memory).writeFile (ofString "/inst/state.json") i.toJson).2
  have ran :
      ((run (create (ofString "/inst") (ofString "/backups") .epoch) s).1.toOption.map
        CreatedBackup.path) =
      some (ofString "/backups/../x-t-0.tar") := by decide +kernel
  rcases created : run (create (ofString "/inst") (ofString "/backups") .epoch) s with ⟨_ | c, t⟩
  · rw [created] at ran
    cases ran
  · rw [created] at ran
    have path : c.path = ofString "/backups/../x-t-0.tar" := Option.some.inj ran
    exact ⟨s, c, t, created, path, by rw [path]; decide⟩

end Stowage.Backup
