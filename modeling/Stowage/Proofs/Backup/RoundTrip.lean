import Stowage.Proofs.Backup.Create
import Stowage.Proofs.Backup.FileName
import Stowage.Proofs.Backup.Inspect
import Stowage.Proofs.Instance.Prefix

/-! A backup that was made is read back from its archive as it is: whatever else the directory held,
the state of the instance is found under its name, and the time under its own. -/
namespace Stowage.Backup

open Memory Stowage.Path

section Names

def shown (c : Component) : Bytes := Utf8.encode (Utf8.decodeLossy c.octets)

theorem inside_shown {p : Path} {c : Component} (h : c ∈ p.components) (down : c ≠ .root)
    (dotless : c ≠ .here) :
    inside (shown c) = [.ofOctets (shown c)] := by
  have named : slash ∉ shown c ∧ shown c ≠ [] ∧ shown c ≠ [dot] := by
    cases c with
    | root => exact absurd rfl down
    | here => exact absurd rfl dotless
    | up => decide
    | name s =>
      obtain ⟨full, other, -, clean⟩ := isName_of_mem h
      refine ⟨fun mem => clean ?_, fun empty => full ?_, fun one => other ?_⟩
      · have shownSlash : '/' ∈ Utf8.decodeLossy s :=
          Utf8.mem_of_mem_encode (c := '/') (by decide) mem
        exact Utf8.mem_of_mem_decodeLossy shownSlash (by decide) (by decide)
      · exact Utf8.eq_encode_of_decodeLossy (Utf8.encode_eq_nil_iff.mp empty) List.not_mem_nil
      · have single : Utf8.decodeLossy s = ['.'] := Utf8.encode_injective one
        exact Utf8.eq_encode_of_decodeLossy single (by decide)
  obtain ⟨clean, full, other⟩ := named
  rw [inside, split_of_slash_not_mem clean, List.map_singleton,
    solids_cons_of_solid (inner_solid_iff.mpr ⟨full, other⟩)]
  rfl

theorem inside_flatMap_shown {p : Path} {cs : List Component} (sub : cs ⊆ p.components)
    (down : .root ∉ cs) (dotless : .here ∉ cs) (front : Bytes) :
    inside (front ++ cs.flatMap fun c => slash :: shown c) = inside front ++ cs.map fun c =>
      .ofOctets (shown c) := by
  induction cs generalizing front with
  | nil => simp
  | cons c cs ih =>
    rw [List.cons_subset] at sub
    rw [List.mem_cons, not_or] at down dotless
    rw [List.flatMap_cons, List.cons_append, inside_append_slash, ih sub.2 down.2 dotless.2,
      inside_shown sub.1 (Ne.symm down.1) (Ne.symm dotless.1)]
    rfl

theorem encode_flatMap_shown (cs : List Component) :
    Utf8.encode (cs.flatMap fun c => '/' :: Utf8.decodeLossy c.octets) = cs.flatMap fun c =>
      slash :: shown c := by
  induction cs with
  | nil => rfl
  | cons c cs ih =>
    rw [List.flatMap_cons, List.flatMap_cons, Utf8.encode_append, ih, Utf8.encode_cons]
    rfl

theorem ofString_entryName (q : Path) :
    ofString (entryName q) = ⟨ascii dataDirectoryName ++ q.components.flatMap fun c =>
      slash :: shown c⟩ := by
  have front : Utf8.encode dataDirectoryName.toList = ascii dataDirectoryName := by decide
  rw [ofString, Utf8.ofString, entryName, String.toList_ofList, Utf8.encode_append,
    encode_flatMap_shown, front]

theorem components_entryName {q : Path} (down : .root ∉ q.components)
    (dotless : .here ∉ q.components) :
    (ofString (entryName q)).components =
      .name (ascii dataDirectoryName) :: q.components.map fun c => .ofOctets (shown c) := by
  have front : components ⟨ascii dataDirectoryName⟩ = [.name (ascii dataDirectoryName)] := by decide
  rw [ofString_entryName]
  cases eq : q.components with
  | nil => exact (congrArg (fun bs => components ⟨bs⟩) (List.append_nil _)).trans front
  | cons c cs =>
    rw [eq, List.mem_cons, not_or] at down dotless
    have sub : cs ⊆ q.components := eq ▸ List.subset_cons_self c cs
    rw [List.flatMap_cons, List.cons_append, components_append_slash (by decide), front,
      inside_flatMap_shown sub down.2 dotless.2,
      inside_shown (eq ▸ List.mem_cons_self : c ∈ q.components) (Ne.symm down.1)
      (Ne.symm dotless.1)]
    rfl

theorem entryName_same_iff {q : Path} (down : .root ∉ q.components)
    (dotless : .here ∉ q.components) :
    (ofString (entryName q)).same (ofString stateEntryName) ↔
    q.components = [.name (Utf8.ofString stateFileName)] := by
  have target : (ofString stateEntryName).components = [.name (ascii dataDirectoryName),
      .name (ascii stateFileName)] := by
    decide
  rw [same_iff, components_entryName down dotless, target, List.cons.injEq]
  constructor
  · rintro ⟨-, eq⟩
    obtain ⟨c, single, shownName⟩ := List.map_eq_singleton_iff.mp eq
    have octets : shown c = Utf8.encode stateFileName.toList := by
      have same := congrArg Component.octets shownName
      rw [octets_ofOctets] at same
      exact same.trans (by decide)
    have exact := Utf8.eq_encode_of_decodeLossy (Utf8.encode_injective octets) (by decide)
    rw [single]
    cases c with
    | name s => exact congrArg (fun s => [Component.name s]) exact
    | _ => exact absurd exact (by decide)
  · intro eq
    rw [eq]
    exact ⟨rfl, by decide⟩

theorem here_not_mem_entryName {q : Path} (down : .root ∉ q.components)
    (dotless : .here ∉ q.components) :
    .here ∉ (ofString (entryName q)).components := by
  rw [components_entryName down dotless, List.mem_cons, not_or]
  refine ⟨Component.noConfusion, fun mem => ?_⟩
  obtain ⟨c, hc, eq⟩ := List.mem_map.mp mem
  have whole := inside_shown hc (fun e => down (e ▸ hc)) (fun e => dotless (e ▸ hc))
  exact here_not_mem_inside (shown c) (by rw [whole, eq]; exact List.mem_cons_self)

end Names

variable {s t : Memory} {directory backups : Path} {now : Moment} {c : CreatedBackup}

theorem load_eq_ok {i : Instance} (h : answer (Instance.load directory) s = .ok i) :
    ∃ bytes, s.fileContent (directory.joinText stateFileName) = .ok bytes ∧
      Instance.ofJson bytes (directory.joinText stateFileName) = .ok i := by
  unfold Instance.load at h
  dsimp only at h
  rw [((readOnly_read _).adapt _).answer_bind fun _ => .lifted _] at h
  obtain ⟨bytes, read, decoded⟩ := bind_eq_ok.mp h
  refine ⟨bytes, ?_, decoded⟩
  rw [← answer_read]
  exact mapError_eq_ok.mp read

theorem exists_below {file : Path} (nonempty : directory.spelling ≠ [])
    (h : s.StoredBelow directory file) (data : Bytes) :
    ∃ q, fileEntry directory file data = ⟨ofString (entryName q), data⟩ ∧ .root ∉ q.components ∧
    .here ∉ q.components ∧
      file.components = directory.components ++ q.components := by
  obtain ⟨-, rest, -, down, eq⟩ := h
  obtain ⟨q, below, same⟩ := below?_of_append eq
  refine ⟨q, by rw [fileEntry, below]; rfl, same ▸ down, ?_, by rw [same, eq]⟩
  rw [same]
  exact here_not_mem_of_append nonempty eq

theorem components_statePath (directory : Path) :
    (directory.joinText stateFileName).components = directory.components ++
      [.name (Utf8.ofString stateFileName)] :=
  components_joinText (by decide) directory

theorem fileEntry_same_iff {file : Path} (nonempty : directory.spelling ≠ [])
    (h : s.StoredBelow directory file) (data : Bytes) :
    (fileEntry directory file data).path.same (ofString stateEntryName) ↔
      file.same (directory.joinText stateFileName) := by
  obtain ⟨q, entry, down, dotless, eq⟩ := exists_below nonempty h data
  rw [entry, entryName_same_iff down dotless, same_iff, eq, components_statePath,
    List.append_cancel_left_eq]

theorem map_find?_eq_some {entries : List Archive.Entry} {P : Archive.Entry → Bool} {data : Bytes}
    (found : ∃ e ∈ entries, P e) (all : ∀ e ∈ entries, P e → e.data = data) :
    (entries.find? P).map Archive.Entry.data = .some data := by
  obtain ⟨e, found⟩ := Option.isSome_iff_exists.mp (List.find?_isSome.mpr found)
  rw [found]
  exact congrArg Option.some (all e (List.mem_of_find?_eq_some found) (List.find?_some found))

theorem here_not_mem_fileEntries {files : List Path} {entries : List Archive.Entry}
    (nonempty : directory.spelling ≠ []) (below : ∀ file ∈ files, s.StoredBelow directory file)
    (held : fileEntries directory s files = .ok entries) :
    ∀ e ∈ entries, .here ∉ e.path.components := by
  intro e he
  obtain ⟨file, mem, filled⟩ := (exists_of_mem_mapM held).1 e he
  obtain ⟨data, -, rfl⟩ := map_eq_ok.mp filled
  obtain ⟨q, entry, down, dotless, -⟩ := exists_below nonempty (below file mem) data
  rw [entry]
  exact here_not_mem_entryName down dotless

theorem find?_stateEntry {files : List Path} {entries : List Archive.Entry} {state : Bytes}
    (nonempty : directory.spelling ≠ []) (walked : answer (Storage.walk directory) s = .ok files)
    (held : fileEntries directory s files = .ok entries)
    (loaded : s.fileContent (directory.joinText stateFileName) = .ok state) :
    (entries.find? fun e => e.path.same (ofString stateEntryName)).map Archive.Entry.data =
      .some state := by
  obtain ⟨back, forth⟩ := exists_of_mem_mapM held
  have below := storedBelow_of_walk walked
  refine map_find?_eq_some ?_ ?_
  · obtain ⟨fine, there⟩ := fileContent_eq_ok.mp loaded
    obtain ⟨file, same, stored⟩ := Nodes.exists_mem_of_get? there
    have components := (same_iff.mp same).trans (components_statePath directory)
    have child := isChild_iff.mpr ⟨_, Component.noConfusion, components⟩
    have mem := mem_walk_of_child walked stored child
    obtain ⟨e, he, filled⟩ := forth file mem
    obtain ⟨data, -, rfl⟩ := map_eq_ok.mp filled
    exact ⟨_, he, (fileEntry_same_iff nonempty (below file mem) data).mpr same⟩
  · intro e he same
    obtain ⟨file, mem, filled⟩ := back e he
    obtain ⟨data, read, rfl⟩ := map_eq_ok.mp filled
    have level := (fileEntry_same_iff nonempty (below file mem) data).mp same
    have read' := (fileContent_congr level).mp read
    exact Except.ok.inj (read'.symm.trans loaded)

theorem readEntry_eq_ok {seconds : Nat} {entries : List Archive.Entry} {bs data : Bytes}
    (name : String) (written : Archive.write seconds entries = .ok bs)
    (dotless : ∀ e ∈ entries, .here ∉ e.path.components) (short : bs.length < signedLimit)
    (found : (entries.find? fun e => e.path.same (ofString name)).map Archive.Entry.data =
      some data) :
    Archive.readEntry ⟨.ok bs, none⟩ name = .ok data := by
  rw [Archive.readEntry]
  dsimp only
  rw [Archive.find?_of_write written dotless short, found]

theorem ofDecimal?_time {time : Moment} (since : 0 ≤ time.seconds) :
    Moment.ofDecimal? (trim (Utf8.decodeLossy (ascii (toString time.seconds.toNat)))) =
      some time.unixSecond := by
  have digits : ∀ c ∈ Nat.toDigits 10 time.seconds.toNat, isDigit c := fun c hc =>
    isDigit_of_mem_toDigits (by decide) (by decide) hc
  have octets :
      ascii (toString time.seconds.toNat) = Utf8.encode (Nat.toDigits 10 time.seconds.toNat) := by
    rw [encode_of_ascii, ascii, Nat.toString_eq_repr, Nat.toList_repr]
    intro c hc
    have small := (isDigit_iff.mp (digits c hc)).2
    omega
  rw [octets, Utf8.decodeLossy_encode, trim_of_isDigit digits]
  exact Moment.ofDecimal?_toDigits since

/-- What an archive can tell of its backup. -/
def archived (b : Backup) : Backup := { b with time := b.time.unixSecond }

theorem id_archived (b : Backup) : b.archived.id = b.id := rfl

theorem archived_eq_self_iff {b : Backup} (made : b.time = now.wholeSecond) :
    b.archived = b ↔ ¬ now.Leaps := by
  rw [← Moment.leaps_wholeSecond_iff, ← made,
    ← Moment.nanos_eq_zero_iff (made ▸ Moment.wholeSecond_wholeSecond now)]
  constructor
  · exact fun same => congrArg (fun b => b.time.nanos) same.symm
  · exact fun zero => by rw [archived, Moment.unixSecond_eq_self zero]

section Archived

variable {i : Instance} {files : List Path} {bs : Bytes}

theorem Made.exists_entries (made : Made s t directory backups now c i files bs)
    (given : directory.spelling ≠ []) :
    ∃ entries state, Archive.write now.wholeSecond.seconds.toNat entries = .ok bs ∧
      (∀ e ∈ entries, .here ∉ e.path.components) ∧
      (entries.find? fun e => e.path.same (ofString stateEntryName)).map Archive.Entry.data =
        some state ∧
      (entries.find? fun e => e.path.same (ofString timeEntryName)).map Archive.Entry.data =
        some (ascii (toString now.wholeSecond.seconds.toNat)) ∧
      Instance.ofJson state (directory.joinText stateFileName) = .ok i := by
  obtain ⟨entries, held, written⟩ := made.written
  obtain ⟨state, loaded, decoded⟩ := load_eq_ok made.loaded
  have dotless : .here ∉ (ofString timeEntryName).components := by decide
  refine ⟨_, state, written, List.forall_mem_cons.mpr ⟨dotless, ?_⟩, ?_, ?_, decoded⟩
  · exact here_not_mem_fileEntries given (storedBelow_of_walk made.walked) held
  -- The time stands before the files, under a name that no file gets.
  · have apart : (ofString timeEntryName).same (ofString stateEntryName) = false := by decide
    rw [List.find?_cons, apart]
    exact find?_stateEntry given made.walked held loaded
  · have own : (ofString timeEntryName).same (ofString timeEntryName) = true := by decide
    rw [List.find?_cons, own]
    rfl

theorem Made.inspect_eq (made : Made s t directory backups now c i files bs) {u : Memory}
    {front state : Bytes} (stored : u.fileContent c.path = .ok front)
    (decoded : Instance.ofJson state (directory.joinText stateFileName) = .ok i)
    (stateFound : Archive.readEntry ⟨.ok front, none⟩ stateEntryName = .ok state)
    (timeFound : Archive.readEntry ⟨.ok front, none⟩ timeEntryName =
      .ok (ascii (toString now.wholeSecond.seconds.toNat))) :
    answer (inspect c.path) u = .ok c.backup.archived := by
  have extension : hasExtension c.path := by
    rw [made.path, made.backup]
    exact hasExtension_joinText backups i.id made.since
  have described : Instance.ofJson state (c.path.joinText stateEntryName) = .ok i :=
    Instance.ofJson_eq_ok.mpr (Instance.ofJson_eq_ok.mp decoded)
  rw [made.backup]
  exact answer_inspect stored extension (answer_readState stored stateFound described)
    (answer_readTime stored timeFound (ofDecimal?_time made.since))

theorem Made.inspect_created (made : Made s t directory backups now c i files bs)
    (given : directory.spelling ≠ []) (short : bs.length < signedLimit) :
    answer (inspect c.path) t = .ok c.backup.archived := by
  obtain ⟨n, wrote⟩ := made.stored
  obtain ⟨entries, state, written, dotless, stateFound, timeFound, decoded⟩ :=
    made.exists_entries given
  exact made.inspect_eq (fileContent_writeFile wrote) decoded
    (readEntry_eq_ok stateEntryName written dotless short stateFound)
    (readEntry_eq_ok timeEntryName written dotless short timeFound)

end Archived

/-- A backup that was made is read back from its archive with its second in Unix time, whatever else
is in there. So it is read back as it is unless it was made in a leap second, and its id is in any
case. The archive has no more octets than a vector can hold. -/
theorem inspect_of_create (given : directory.spelling ≠ [])
    (created : run (create directory backups now) s = (.ok c, t))
    (short : ∀ bs, t.fileContent c.path = .ok bs → bs.length < signedLimit) :
    answer (inspect c.path) t = .ok c.backup.archived ∧ c.backup.archived.id = c.backup.id ∧
      (answer (inspect c.path) t = .ok c.backup ↔ ¬ now.Leaps) := by
  obtain ⟨i, files, bs, made⟩ := create_eq_ok created
  obtain ⟨n, wrote⟩ := made.stored
  have told := made.inspect_created given (short bs (fileContent_writeFile wrote))
  refine ⟨told, id_archived _, ?_⟩
  rw [told, Except.ok.injEq]
  exact archived_eq_self_iff (congrArg Backup.time made.backup)

theorem exists_short_archive (s : Memory) (directory backups : Path) (now : Moment)
    (ran : ((run (create directory backups now) s).1.toOption.any fun c =>
      ((run (create directory backups now) s).2.fileContent c.path).toOption.any
        (·.length < signedLimit)) = true) :
    ∃ c t bs, run (create directory backups now) s = (.ok c, t) ∧ t.fileContent c.path = .ok bs ∧
      bs.length < signedLimit := by
  rcases created : run (create directory backups now) s with ⟨_ | c, t⟩
  · rw [created] at ran
    cases ran
  · rw [created] at ran
    rcases stored : t.fileContent c.path with _ | bs
    · simp [Except.toOption, stored] at ran
    · exact ⟨c, t, bs, rfl, stored, by simpa [Except.toOption, stored] using ran⟩

theorem inspect_of_create_node :
    ∃ i s c t, i.id = "node-1" ∧
      s.fileContent (ofString "/i/state.json") = .ok (Instance.toJson i) ∧
      run (create (ofString "/i") (ofString "b") .epoch) s = (.ok c, t) ∧
      answer (inspect c.path) t = .ok c.backup := by
  let i : Instance := { name := "node", tag := "1", url := "u", version := "2", commit := "c" }
  let s : Memory := (({} : Memory).writeFile (ofString "/i/state.json") i.toJson).2
  obtain ⟨c, t, bs, created, stored, short⟩ :=
    exists_short_archive s (ofString "/i") (ofString "b") .epoch (by decide +kernel)
  have told := inspect_of_create (by decide) created fun bs' stored' =>
    Except.ok.inj (stored.symm.trans stored') ▸ short
  exact ⟨i, s, c, t, by decide +kernel, by decide +kernel, created, told.2.2.mpr (by decide)⟩

/-- What is made at 23:59:60 is read back as made at 23:59:59. -/
theorem not_inspect_of_create_of_leaps :
    ∃ s c t now, run (create (ofString "/i") (ofString "b") now) s = (.ok c, t) ∧
      now = { seconds := 1483228799, nanos := 1500000000 } ∧
      answer (inspect c.path) t ≠ .ok c.backup := by
  let i : Instance := { name := "node", tag := "1", url := "u", version := "2", commit := "c" }
  let s : Memory := (({} : Memory).writeFile (ofString "/i/state.json") i.toJson).2
  let now : Moment := { seconds := 1483228799, nanos := 1500000000 }
  obtain ⟨c, t, bs, created, stored, short⟩ :=
    exists_short_archive s (ofString "/i") (ofString "b") now (by decide +kernel)
  obtain ⟨i, files, bs', made⟩ := create_eq_ok created
  obtain ⟨n, wrote⟩ := made.stored
  obtain rfl : bs = bs' := Except.ok.inj (stored.symm.trans (fileContent_writeFile wrote))
  refine ⟨s, c, t, now, created, rfl, fun told => ?_⟩
  rw [made.inspect_created (by decide) short] at told
  exact (archived_eq_self_iff (congrArg Backup.time made.backup)).mp (Except.ok.inj told)
    (by decide)

end Stowage.Backup
