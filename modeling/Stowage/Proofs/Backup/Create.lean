import Stowage.Backup.Create
import Stowage.Proofs.Storage.Walk

/-! What was done where a backup was made: the state was read, no file had the name of the archive,
and what the walk found went into it, as it was stored before. -/
namespace Stowage

open Memory

namespace Backup

variable {s t : Memory} {directory backups : Path} {now : Moment} {c : CreatedBackup}

theorem readOnly_load (directory : Path) : ReadOnly (Instance.load directory) :=
  ((readOnly_read _).adapt _).bind fun _ => .settled _

theorem readOnly_storable {α : Type} (path : Path) (made : Except Archive.WriteFault α) :
    ReadOnly (failingOn path (storable made)) :=
  ReadOnly.failingOn (.settled _) path

theorem answer_storable_eq_ok {α : Type} {path : Path} {made : Except Archive.WriteFault α}
    {a : α} :
    answer (failingOn path (storable made)) s = .ok a ↔ made = .ok a := by
  rw [answer_failingOn_eq_ok]
  change made.mapError Failure.unstorable = .ok a ↔ _
  exact mapError_eq_ok

def fileEntry (directory file : Path) (data : Bytes) : Archive.Entry :=
  ⟨.ofString (entryName ((file.below? directory).getD file)), data⟩

def fileEntries (directory : Path) (s : Memory) (files : List Path) :
    Except Failure (List Archive.Entry) :=
  files.mapM fun file => (s.fileContent file).map (fileEntry directory file)

theorem readOnly_fileMembers (archive : Path) (seconds : Nat) (files : List Path) :
    ReadOnly (fileMembers directory archive seconds files) := by
  induction files with
  | nil => exact .pure _
  | cons file rest ih =>
    refine ((readOnly_read file).failingOn file).bind fun data => (ReadOnly.note _).bind fun _ => ?_
    exact (readOnly_storable _ _).bind fun member => ih.bind fun others => .pure _

theorem fileMembers_eq_ok {archive : Path} {seconds : Nat} {files : List Path} {bytes : Bytes}
    (h : answer (fileMembers directory archive seconds files) s = .ok bytes) :
    ∃ entries members, fileEntries directory s files = .ok entries ∧
      entries.mapM (fun e => Archive.member seconds e.path e.data) = .ok members ∧
      bytes = members.flatten := by
  induction files generalizing bytes with
  | nil =>
    cases h
    exact ⟨[], [], rfl, rfl, rfl⟩
  | cons file rest ih =>
    obtain ⟨t, ran⟩ := answer_eq_ok.mp h
    rw [fileMembers] at ran
    obtain ⟨data, n₁, read, ran⟩ :=
      ((readOnly_read file).failingOn file).of_run_bind (n := s.opens) ran
    obtain ⟨_, n₂, -, ran⟩ := (ReadOnly.note _).of_run_bind ran
    obtain ⟨member, n₃, stored, ran⟩ := (readOnly_storable _ _).of_run_bind ran
    obtain ⟨others, n₄, later, ran⟩ := (readOnly_fileMembers _ _ _).of_run_bind ran
    cases ran
    rw [answer_failingOn_eq_ok, answer_read] at read
    obtain ⟨entries, members, filled, each, rfl⟩ := ih later
    refine ⟨fileEntry directory file data :: entries, member :: members, ?_, ?_, rfl⟩
    · exact mapM_cons_eq_ok.mpr ⟨_, entries, by rw [read]; rfl, filled, rfl⟩
    · exact mapM_cons_eq_ok.mpr ⟨member, members, answer_storable_eq_ok.mp stored, each, rfl⟩

theorem answer_fileMembers (archive : Path) {seconds : Nat} {files : List Path}
    {entries : List Archive.Entry} {members : List Bytes}
    (filled : fileEntries directory s files = .ok entries)
    (each : entries.mapM (fun e => Archive.member seconds e.path e.data) = .ok members) :
    answer (fileMembers directory archive seconds files) s = .ok members.flatten := by
  induction files generalizing entries members with
  | nil =>
    cases filled
    cases each
    rfl
  | cons file rest ih =>
    obtain ⟨entry, others, first, later, rfl⟩ := mapM_cons_eq_ok.mp filled
    obtain ⟨member, more, made, behind, rfl⟩ := mapM_cons_eq_ok.mp each
    obtain ⟨data, read, rfl⟩ := map_eq_ok.mp first
    have noted (e : Event) (next : Unit → ExceptT Error (StateM Memory) Bytes) :
        answer (ExceptT.lift (Storage.note e) >>= next) s = answer (next ()) s := rfl
    have read' : answer (failingOn file (Storage.read file)) s = .ok data :=
      answer_failingOn_eq_ok.mpr ((answer_read file s).trans read)
    have made' : Archive.member seconds
        (.ofString (entryName ((file.below? directory).getD file))) data = .ok member := made
    have last (member : Bytes) : ReadOnly (do
        return member ++ (← fileMembers directory archive seconds rest) :
          ExceptT Error (StateM Memory) Bytes) :=
      (readOnly_fileMembers _ _ _).bind fun others => .pure _
    have stored := (readOnly_storable archive (Archive.member seconds
      (.ofString (entryName ((file.below? directory).getD file))) data)).bind last
    rw [fileMembers, ((readOnly_read file).failingOn file).answer_bind_ok read'
        ((ReadOnly.note _).bind fun _ => stored),
      noted,
      (readOnly_storable _ _).answer_bind_ok (answer_storable_eq_ok.mpr made') (last member)]
    exact (readOnly_fileMembers _ _ _).answer_bind_ok (ih later behind) (.pure _)

structure Draft (s : Memory) (directory backups : Path) (now : Moment) (i : Instance)
    (files : List Path) (bytes : Bytes) : Prop where
  since : 0 ≤ now.wholeSecond.seconds
  loaded : answer (Instance.load directory) s = .ok i
  absent : s.get? (backups.joinText (ofInstance i now.wholeSecond).fileName) = none
  walked : answer (Storage.walk directory) s = .ok files
  written : ∃ entries, fileEntries directory s files = .ok entries ∧
    Archive.write now.wholeSecond.seconds.toNat
      (⟨.ofString timeEntryName, ascii (toString now.wholeSecond.seconds.toNat)⟩ :: entries) =
      .ok bytes

structure Made (s t : Memory) (directory backups : Path) (now : Moment) (c : CreatedBackup)
    (i : Instance) (files : List Path) (bytes : Bytes) :
    Prop extends Draft s directory backups now i files bytes where
  backup : c.backup = ofInstance i now.wholeSecond
  path : c.path = backups.joinText c.backup.fileName
  stored : ∃ n, (s.withOpens n).writeFile c.path bytes = (.ok (), t)

theorem get?_of_exists? {path : Path} (h : answer (Storage.exists? path) s = .ok false) :
    s.get? path = none := by
  change (s.allowed path).map (fun _ => (s.get? path).isSome) = .ok false at h
  obtain ⟨_, -, absent⟩ := map_eq_ok.mp h
  exact Option.isSome_eq_false_iff.mp absent |> Option.isNone_iff_eq_none.mp

/-- A backup fails before anything was written, or all that is left to do is to write an archive
where nothing is. -/
theorem create_cases (directory backups : Path) (now : Moment) (s : Memory) :
    (∃ e n, run (create directory backups now) s = (.error e, s.withOpens n)) ∨
      ∃ i files bytes path n, Draft s directory backups now i files bytes ∧
        path = backups.joinText (ofInstance i now.wholeSecond).fileName ∧
        run (create directory backups now) s =
          ((((s.withOpens n).writeFile path bytes).1.mapError (Error.io path)).map fun _ =>
            ⟨ofInstance i now.wholeSecond, path⟩, ((s.withOpens n).writeFile path bytes).2) := by
  -- All parts but the last only read, so that each of them answers of the first memory.
  change (∃ e n, run (create directory backups now) (s.withOpens s.opens) = _) ∨
    ∃ i files bytes path n, _ ∧ _ ∧ run (create directory backups now) (s.withOpens s.opens) = _
  unfold create
  dsimp only
  split
  · rcases (ReadOnly.throw _).run_bind_cases _ s s.opens with failed | ⟨_, _, fault, -⟩
    · exact .inl failed
    · cases fault
  · rename_i since
    rcases (readOnly_load directory).run_bind_cases _ s s.opens with failed | ⟨i, n₁, loaded, ran⟩
    · exact .inl failed
    rw [ran]
    rcases ((readOnly_exists? _).failingOn _).run_bind_cases _ s n₁ with
      failed | ⟨there, n₂, asked, ran⟩
    · exact .inl failed
    rw [ran]
    split
    · rcases (ReadOnly.throw _).run_bind_cases _ s n₂ with failed | ⟨_, _, fault, -⟩
      · exact .inl failed
      · cases fault
    rename_i free
    rcases ((readOnly_walk directory).failingOn directory).run_bind_cases _ s n₂ with
      failed | ⟨files, n₃, walked, ran⟩
    · exact .inl failed
    rw [ran]
    rcases (readOnly_storable _ _).run_bind_cases _ s n₃ with failed | ⟨first, n₄, timed, ran⟩
    · exact .inl failed
    rw [ran]
    rcases (readOnly_fileMembers _ _ _).run_bind_cases _ s n₄ with
      failed | ⟨others, n₅, filled, ran⟩
    · exact .inl failed
    rw [ran]
    obtain ⟨entries, members, held, each, rfl⟩ := fileMembers_eq_ok filled
    have first_eq := answer_storable_eq_ok.mp timed
    refine .inr ⟨i, files, first ++ members.flatten ++ Archive.ending, _, n₅,
      ⟨Int.not_lt.mp since, loaded, ?_, answer_failingOn_eq_ok.mp walked, entries, held, ?_⟩, rfl,
      ?_⟩
    · rw [Bool.not_eq_true] at free
      exact get?_of_exists? (answer_failingOn_eq_ok.mp (free ▸ asked))
    · exact bind_eq_ok.mpr ⟨first :: members, mapM_cons_eq_ok.mpr ⟨_, _, first_eq, each, rfl⟩, rfl⟩
    · exact run_write_then fun _ => rfl

theorem run_create_of_draft {i : Instance} {files : List Path} {bytes : Bytes}
    (draft : Draft s directory backups now i files bytes)
    (fine : s.isDenied (backups.joinText (ofInstance i now.wholeSecond).fileName) = false) :
    ∃ n, run (create directory backups now) s =
      let path := backups.joinText (ofInstance i now.wholeSecond).fileName
      ((((s.withOpens n).writeFile path bytes).1.mapError (Error.io path)).map fun _ =>
        ⟨ofInstance i now.wholeSecond, path⟩, ((s.withOpens n).writeFile path bytes).2) := by
  obtain ⟨since, loaded, absent, walked, entries, filled, written⟩ := draft
  obtain ⟨members, each, eq⟩ := bind_eq_ok.mp written
  obtain ⟨first, others, timed, later, rfl⟩ := mapM_cons_eq_ok.mp each
  cases eq
  have timed' : timeMember now.wholeSecond.seconds.toNat = .ok first := timed
  have free :
      answer (Storage.exists? (backups.joinText (ofInstance i now.wholeSecond).fileName)) s =
      .ok false := by
    change (s.allowed _).map (fun _ => (s.get? _).isSome) = .ok false
    rw [absent, allowed, fine]
    rfl
  have step {ε α β : Type} {act : ExceptT ε (StateM Memory) α} {a : α} (n : Nat)
      (reads : ReadOnly act) (told : answer act s = .ok a) (next : α →
        ExceptT ε (StateM Memory) β) :
      ∃ m, run (act >>= next) (s.withOpens n) = run (next a) (s.withOpens m) :=
    reads.run_bind_of_answer ((reads.blind s n).trans told) next
  change ∃ n, run (create directory backups now) (s.withOpens s.opens) = _
  unfold create
  dsimp only
  rw [if_neg (Int.not_lt.mpr since)]
  obtain ⟨n₁, ran⟩ := step s.opens (readOnly_load directory) loaded _
  rw [ran]
  obtain ⟨n₂, ran⟩ := step n₁ ((readOnly_exists? _).failingOn _) (answer_failingOn_eq_ok.mpr free) _
  rw [ran, if_neg Bool.false_ne_true]
  obtain ⟨n₃, ran⟩ := step n₂ ((readOnly_walk directory).failingOn directory)
    (answer_failingOn_eq_ok.mpr walked) _
  rw [ran]
  obtain ⟨n₄, ran⟩ := step n₃ (readOnly_storable _ _)
    (answer_storable_eq_ok.mpr timed') _
  rw [ran]
  obtain ⟨n₅, ran⟩ := step n₄ (readOnly_fileMembers _ _ _) (answer_fileMembers _ filled later) _
  rw [ran]
  exact ⟨n₅, run_write_then fun _ => rfl⟩

theorem create_eq_ok (h : run (create directory backups now) s = (.ok c, t)) :
    ∃ i files bytes, Made s t directory backups now c i files bytes := by
  rcases create_cases directory backups now s with
    ⟨e, n, failed⟩ | ⟨i, files, bytes, path, n, draft, rfl, ran⟩
  · rw [failed] at h
    cases h
  · obtain ⟨rfl, wrote⟩ := of_written_eq_ok (ran.symm.trans h)
    exact ⟨i, files, bytes, draft, rfl, rfl, n, wrote⟩

end Backup
end Stowage
