import Stowage.Proofs.Archive.Truncation
import Stowage.Proofs.Backup.RoundTrip
import Stowage.Proofs.Instance.Prefix

/-! An archive that ends early is not taken for the backup of something else: the time stands first,
so that it is whole where a state is found, and the front of a state describes the same instance or
none. -/
namespace Stowage.Backup

open Memory Stowage.Path

variable {s t u : Memory} {directory backups archive : Path} {now : Moment} {c : CreatedBackup}
  {bs data : Bytes}

section Inspected

theorem fileContent_of_extractEntry {entry : String} (held : t.get? archive = some (.file bs))
    (found : answer (extractEntry archive entry) t = .ok data) :
    t.fileContent archive = .ok bs := by
  rw [extractEntry, ((readOnly_openFile archive).failingOn archive).answer_bind fun _ => .settled _]
    at found
  obtain ⟨handle, opened, -⟩ := bind_eq_ok.mp found
  rw [answer_failingOn_eq_ok, answer_openFile] at opened
  obtain ⟨content, read, -⟩ := map_eq_ok.mp opened
  obtain ⟨-, there⟩ := fileContent_eq_ok.mp read
  rw [held] at there
  cases there
  exact read

theorem find?_of_extractEntry {entry : String} (held : t.get? archive = some (.file bs))
    (found : answer (extractEntry archive entry) t = .ok data) :
    Archive.find? ⟨bs, none⟩ (ofString entry) = .ok (some data) := by
  rw [answer_extractEntry (fileContent_of_extractEntry held found)] at found
  exact Archive.readEntry_eq_ok_iff.mp (mapError_eq_ok.mp found)

theorem readState_eq_ok {i : Instance} (held : t.get? archive = some (.file bs))
    (found : answer (readState archive) t = .ok i) :
    ∃ data, Archive.find? ⟨bs, none⟩ (ofString stateEntryName) = .ok (some data) ∧
      Instance.ofJson data (archive.joinText stateEntryName) = .ok i := by
  rw [readState, (readOnly_extractEntry _ _).answer_bind fun _ => .settled _] at found
  obtain ⟨data, extracted, decoded⟩ := bind_eq_ok.mp found
  exact ⟨data, find?_of_extractEntry held extracted, decoded⟩

theorem readTime_eq_ok {m : Moment} (held : t.get? archive = some (.file bs))
    (found : answer (readTime archive) t = .ok m) :
    ∃ data, Archive.find? ⟨bs, none⟩ (ofString timeEntryName) = .ok (some data) ∧
      Moment.ofDecimal? (trim (Utf8.decodeLossy data)) = some m := by
  obtain ⟨u, ran⟩ := answer_eq_ok.mp found
  obtain ⟨data, n, extracted, ran⟩ := (readOnly_extractEntry _ _).of_run_bind (n := t.opens) ran
  refine ⟨data, find?_of_extractEntry held extracted, ?_⟩
  dsimp only at ran
  split at ran
  · rename_i read
    cases ran
    exact read
  · cases ran

theorem inspect_eq_ok {b : Backup} (found : answer (inspect archive) t = .ok b) :
    ∃ i m, answer (readState archive) t = .ok i ∧ answer (readTime archive) t = .ok m ∧
      b = ofInstance i m := by
  obtain ⟨u, ran⟩ := answer_eq_ok.mp found
  unfold inspect at ran
  obtain ⟨file, n₁, -, ran⟩ := ((readOnly_isFile _).failingOn _).of_run_bind (n := t.opens) ran
  dsimp only at ran
  split at ran
  · obtain ⟨_, _, fault, -⟩ := (ReadOnly.throw _).of_run_bind ran
    cases fault
  · split at ran
    · obtain ⟨_, _, fault, -⟩ := (ReadOnly.throw _).of_run_bind ran
      cases fault
    · obtain ⟨i, n₂, state, ran⟩ := (readOnly_readState _).of_run_bind ran
      obtain ⟨m, n₃, time, ran⟩ := (readOnly_readTime _).of_run_bind ran
      obtain ⟨_, n₄, -, ran⟩ := (ReadOnly.note _).of_run_bind ran
      cases ran
      exact ⟨i, m, state, time, rfl⟩

end Inspected

section Made

variable {i : Instance} {files : List Path}

theorem Made.inspect_front (made : Made s t directory backups now c i files bs)
    (given : directory.spelling ≠ []) (short : bs.length < signedLimit) {front : Bytes}
    (cut : front <+: bs) (there : u.get? c.path = some (.file front)) :
    (∃ e, answer (inspect c.path) u = .error e) ∨
      answer (inspect c.path) u = .ok c.backup.archived := by
  obtain ⟨entries, held, written⟩ := made.written
  obtain ⟨state, loaded, decoded⟩ := load_eq_ok made.loaded
  cases found : answer (inspect c.path) u with
  | error e => exact .inl ⟨e, rfl⟩
  | ok b =>
    obtain ⟨j, m, readState, readTime, rfl⟩ := inspect_eq_ok found
    obtain ⟨part, stateFound, described⟩ := readState_eq_ok there readState
    obtain ⟨time, timeFound, read⟩ := readTime_eq_ok there readTime
    rw [List.prefix_iff_eq_take.mp cut] at stateFound timeFound
    have apart : (ofString timeEntryName).same (ofString stateEntryName) = false := by decide
    have dotless : .here ∉ (ofString timeEntryName).components := by decide
    have below := here_not_mem_fileEntries given (storedBelow_of_walk made.walked) held
    -- What is found under the name of the state is the front of the state that was stored.
    obtain ⟨_, whole, start⟩ :=
      Archive.find?_take written (List.forall_mem_cons.mpr ⟨dotless, below⟩) short stateFound
    rw [List.find?_cons, apart, find?_stateEntry given made.walked held loaded] at whole
    cases whole
    -- Since the search came as far as the state, the time before it was not cut.
    have own : (ofString timeEntryName).same (ofString timeEntryName) := by decide
    have same := Archive.eq_of_find?_take written dotless short apart stateFound own timeFound
    rw [same, ofDecimal?_time made.since] at read
    rw [Instance.ofJson_of_isPrefix start decoded described, ← Option.some.inj read, made.backup]
    exact .inr rfl

theorem Made.inspect_dropLast (made : Made s t directory backups now c i files bs)
    (given : directory.spelling ≠ []) (short : bs.length < signedLimit)
    (stored : u.fileContent c.path = .ok bs.dropLast) :
    answer (inspect c.path) u = .ok c.backup.archived := by
  obtain ⟨entries, state, written, dotless, stateFound, timeFound, decoded⟩ :=
    made.exists_entries given
  have ending : Archive.ending.length = 2 * Archive.blockSize := List.length_replicate
  have enough : bs.length ≤ bs.length - 1 + Archive.ending.length := by
    rw [ending, Archive.blockSize]
    omega
  have found {name : String} {data : Bytes}
      (held : (entries.find? fun e => e.path.same (ofString name)).map Archive.Entry.data =
        some data) : Archive.readEntry ⟨.ok bs.dropLast, none⟩ name = .ok data := by
    obtain ⟨e, first, rfl⟩ := Option.map_eq_some_iff.mp held
    rw [List.dropLast_eq_take]
    exact Archive.readEntry_eq_ok_iff.mpr
      (Archive.find?_take_of_ending written dotless short (Nat.sub_le ..) enough first)
  exact made.inspect_eq stored decoded (found stateFound) (found timeFound)

theorem Made.dropLast_ne_self (made : Made s t directory backups now c i files bs) :
    bs.dropLast ≠ bs := by
  obtain ⟨entries, -, written⟩ := made.written
  obtain ⟨members, -, eq⟩ := bind_eq_ok.mp written
  have full : bs ≠ [] := by
    cases eq
    exact List.append_ne_nil_of_right_ne_nil _ (by decide)
  intro same
  have size := congrArg List.length same
  rw [List.length_dropLast] at size
  have long := List.length_pos_of_ne_nil full
  omega

end Made

def holding (path : Path) (bs : Bytes) : Memory := { nodes := Nodes.empty.insert path (.file bs) }

theorem get?_holding (path : Path) (bs : Bytes) :
    (holding path bs).get? path = some (.file bs) := by
  change (Nodes.empty.insert path (.file bs)).get? path = _
  rw [Nodes.get?_insert, same_iff.mpr rfl]
  rfl

theorem fileContent_holding (path : Path) (bs : Bytes) :
    (holding path bs).fileContent path = .ok bs := fileContent_eq_ok.mpr ⟨rfl, get?_holding path bs⟩

/-- An archive that was made, cut to any part of it, is refused or tells of the backup that it was
made for, with its second in Unix time. So no part of it tells of another backup exactly where the
backup was not made in a leap second. The archive has no more octets than a vector can hold. -/
theorem inspect_of_isPrefix (given : directory.spelling ≠ [])
    (created : run (create directory backups now) s = (.ok c, t)) :
    ∃ bs, t.fileContent c.path = .ok bs ∧ (bs.length < signedLimit →
      (∀ u front, front <+: bs → u.get? c.path = some (.file front) →
        (∃ e, answer (inspect c.path) u = .error e) ∨
          answer (inspect c.path) u = .ok c.backup.archived) ∧
      ((∀ u front, front <+: bs → front ≠ bs → u.get? c.path = some (.file front) →
        (∃ e, answer (inspect c.path) u = .error e) ∨ answer (inspect c.path) u = .ok c.backup) ↔
          ¬ now.Leaps)) := by
  obtain ⟨i, files, bs, made⟩ := create_eq_ok created
  obtain ⟨n, wrote⟩ := made.stored
  refine ⟨bs, fileContent_writeFile wrote, fun short =>
    ⟨fun u front cut there => made.inspect_front given short cut there, ?_⟩⟩
  have kept := archived_eq_self_iff (congrArg Backup.time made.backup)
  constructor
  · intro honest
    have told := honest (holding c.path bs.dropLast) bs.dropLast (List.dropLast_prefix bs)
      made.dropLast_ne_self (get?_holding c.path _)
    rw [made.inspect_dropLast given short (fileContent_holding c.path _)] at told
    rcases told with ⟨e, failed⟩ | same
    · cases failed
    · exact kept.mp (Except.ok.inj same)
  · intro before u front cut _ there
    have told := made.inspect_front given short cut there
    rwa [kept.mpr before] at told

theorem inspect_of_isPrefix_node :
    ∃ s c t bs u, run (create (ofString "/i") (ofString "b") .epoch) s = (.ok c, t) ∧
      t.fileContent c.path = .ok bs ∧ bs.dropLast ≠ bs ∧
      u.get? c.path = some (.file bs.dropLast) ∧
      ((∃ e, answer (inspect c.path) u = .error e) ∨ answer (inspect c.path) u = .ok c.backup) := by
  let i : Instance := { name := "node", tag := "1", url := "u", version := "2", commit := "c" }
  let s : Memory := (({} : Memory).writeFile (ofString "/i/state.json") i.toJson).2
  obtain ⟨c, t, bs, created, stored, short⟩ :=
    exists_short_archive s (ofString "/i") (ofString "b") .epoch (by decide +kernel)
  obtain ⟨i', files, bs', made⟩ := create_eq_ok created
  obtain ⟨bs'', stored', told⟩ := inspect_of_isPrefix (by decide) created
  obtain ⟨n, wrote⟩ := made.stored
  obtain rfl : bs = bs' := Except.ok.inj (stored.symm.trans (fileContent_writeFile wrote))
  obtain rfl : bs = bs'' := Except.ok.inj (stored.symm.trans stored')
  have held := get?_holding c.path bs.dropLast
  exact ⟨s, c, t, bs, _, created, stored, made.dropLast_ne_self, held,
    (told short).2.mpr (by decide) _ _ (List.dropLast_prefix bs) made.dropLast_ne_self held⟩

/-- What is made at 23:59:60 is taken for a backup of 23:59:59, also without its last octet. -/
theorem not_inspect_of_isPrefix_of_leaps :
    ∃ s c t bs u now, run (create (ofString "/i") (ofString "b") now) s = (.ok c, t) ∧
      now = { seconds := 1483228799, nanos := 1500000000 } ∧ t.fileContent c.path = .ok bs ∧
      bs.dropLast ≠ bs ∧ u.get? c.path = some (.file bs.dropLast) ∧
      ¬ ((∃ e, answer (inspect c.path) u = .error e) ∨
        answer (inspect c.path) u = .ok c.backup) := by
  let i : Instance := { name := "node", tag := "1", url := "u", version := "2", commit := "c" }
  let s : Memory := (({} : Memory).writeFile (ofString "/i/state.json") i.toJson).2
  let now : Moment := { seconds := 1483228799, nanos := 1500000000 }
  obtain ⟨c, t, bs, created, stored, short⟩ :=
    exists_short_archive s (ofString "/i") (ofString "b") now (by decide +kernel)
  obtain ⟨i', files, bs', made⟩ := create_eq_ok created
  obtain ⟨n, wrote⟩ := made.stored
  obtain rfl : bs = bs' := Except.ok.inj (stored.symm.trans (fileContent_writeFile wrote))
  have read := made.inspect_dropLast (by decide) short (fileContent_holding c.path bs.dropLast)
  refine ⟨s, c, t, bs, _, now, created, rfl, stored, made.dropLast_ne_self,
    get?_holding c.path _, ?_⟩
  rintro (⟨e, failed⟩ | same)
  · rw [failed] at read
    cases read
  · rw [read] at same
    exact (archived_eq_self_iff (congrArg Backup.time made.backup)).mp (Except.ok.inj same)
      (by decide)

end Stowage.Backup
