import Stowage.Proofs.Backup.Snapshot

/-! Which files of a backup can be told apart by the names of their entries. A name is a text, and
each piece of a path that is no UTF-8 stands in it as U+FFFD: files get one name exactly where their
paths read alike, and of these the archive gives back the first alone. -/
namespace Stowage.Backup

open Memory Stowage.Path

variable {s t : Memory} {directory backups file file' p q : Path} {data : Bytes} {now : Moment}
    {c : CreatedBackup}

def told (directory file : Path) : Path := (file.below? directory).getD file

def archivedAs (directory file : Path) : String := entryName (told directory file)

/-- A path as it reads, component by component, with U+FFFD for each piece that is no UTF-8. -/
def reading (p : Path) : List (List Char) := p.components.map fun c => Utf8.decodeLossy c.octets

def entryNames (s : Memory) (directory : Path) : List String :=
  (s.filesBelow directory).map fun held => archivedAs directory held.1

def readings (s : Memory) (directory : Path) : List (List (List Char)) :=
  (s.filesBelow directory).map fun held => reading (told directory held.1)

theorem entryName_eq (p : Path) :
    entryName p = String.ofList (dataDirectoryName.toList ++ (reading p).flatMap ('/' :: ·)) := by
  rw [entryName, reading, List.flatMap_map]

/-- No slash comes out of a component, so that the name is cut into them again in one way only. -/
theorem same_entryName_iff (down : .root ∉ p.components) (dotless : .here ∉ p.components)
    (down' : .root ∉ q.components) (dotless' : .here ∉ q.components) :
    (ofString (entryName p)).same (ofString (entryName q)) ↔ reading p = reading q := by
  have octets (r : Path) :
      (r.components.map fun c => Component.ofOctets (shown c)).map Component.octets =
      (reading r).map Utf8.encode := by
    simp only [reading, List.map_map, Function.comp_def, octets_ofOctets, shown]
  constructor
  · intro same
    rw [same_iff, components_entryName down dotless, components_entryName down' dotless',
      List.cons.injEq] at same
    have level := congrArg (List.map Component.octets) same.2
    rw [octets, octets] at level
    exact List.map_injective_iff.mpr Utf8.encode_injective level
  · intro level
    rw [entryName_eq, entryName_eq, level]
    exact same_iff.mpr rfl

theorem entryName_inj (down : .root ∉ p.components) (dotless : .here ∉ p.components)
    (down' : .root ∉ q.components) (dotless' : .here ∉ q.components) : entryName p = entryName q ↔
    reading p = reading q := by
  refine ⟨fun same => ?_, fun level => by rw [entryName_eq, entryName_eq, level]⟩
  exact (same_entryName_iff down dotless down' dotless').mp (by rw [same]; exact same_iff.mpr rfl)

theorem ofOctets_octets {c : Component} (mem : c ∈ p.components) (down : c ≠ .root) :
    Component.ofOctets c.octets = c := by
  cases c with
  | root => exact absurd rfl down
  | here => rfl
  | up => rfl
  | name s => exact ofOctets_of_isName (isName_of_mem mem)

theorem components_eq_reading (down : .root ∉ p.components)
    (text : ∀ c ∈ p.components, (Utf8.decode? c.octets).isSome) :
    p.components = (reading p).map fun cs => Component.ofOctets (Utf8.encode cs) := by
  rw [reading, List.map_map]
  refine ((List.map_congr_left fun c mem => ?_).trans (List.map_id _)).symm
  obtain ⟨cs, decoded⟩ := Option.isSome_iff_exists.mp (text c mem)
  have octets := Utf8.decode?_eq_some_iff.mp decoded
  rw [Function.comp_apply, octets, Utf8.decodeLossy_encode, ← octets]
  exact ofOctets_octets mem fun root => down (root ▸ mem)

section Below

theorem told_of_isBelow (nonempty : directory.spelling ≠ []) (below : isBelow directory file) :
    .root ∉ (told directory file).components ∧ .here ∉ (told directory file).components ∧
      file.components = directory.components ++ (told directory file).components := by
  obtain ⟨rest, -, down, eq⟩ := isBelow_iff.mp below
  obtain ⟨q, found, rfl⟩ := below?_of_append eq
  rw [told, found]
  exact ⟨down, here_not_mem_of_append nonempty eq, eq⟩

theorem same_archivedAs_iff (nonempty : directory.spelling ≠ []) (below : isBelow directory file)
    (below' : isBelow directory file') :
    (ofString (archivedAs directory file)).same (ofString (archivedAs directory file')) ↔
      reading (told directory file) = reading (told directory file') := by
  obtain ⟨down, dotless, -⟩ := told_of_isBelow nonempty below
  obtain ⟨down', dotless', -⟩ := told_of_isBelow nonempty below'
  exact same_entryName_iff down dotless down' dotless'

theorem isBelow_of_mem_filesBelow {held : Path × Bytes} (mem : held ∈ s.filesBelow directory) :
    isBelow directory held.1 :=
  (mem_filesBelow.mp mem).2

theorem nodup_entryNames_iff (nonempty : directory.spelling ≠ []) :
    (entryNames s directory).Nodup ↔ (readings s directory).Nodup := by
  rw [entryNames, readings, List.Nodup, List.Nodup, List.pairwise_map, List.pairwise_map]
  refine List.Pairwise.iff_of_mem fun {a b} ha hb => not_congr ?_
  obtain ⟨down, dotless, -⟩ := told_of_isBelow nonempty (isBelow_of_mem_filesBelow ha)
  obtain ⟨down', dotless', -⟩ := told_of_isBelow nonempty (isBelow_of_mem_filesBelow hb)
  exact entryName_inj down dotless down' dotless'

theorem nodup_readings_of_text (nonempty : directory.spelling ≠ [])
    (text : ∀ held ∈ s.filesBelow directory, ∀ c ∈ (told directory held.1).components,
      (Utf8.decode? c.octets).isSome) :
    (readings s directory).Nodup := by
  rw [readings, List.Nodup, List.pairwise_map]
  refine (filesBelow_pairwise s directory).imp_of_mem fun {a b} ha hb before level => ?_
  obtain ⟨down, -, whole⟩ := told_of_isBelow nonempty (isBelow_of_mem_filesBelow ha)
  obtain ⟨down', -, whole'⟩ := told_of_isBelow nonempty (isBelow_of_mem_filesBelow hb)
  have same : a.1.same b.1 := by
    rw [same_iff, whole, whole', components_eq_reading down (text a ha),
      components_eq_reading down' (text b hb), level]
  rw [same_iff_compare.mp same] at before
  cases before

end Below

section Archive

variable {files : List Path} {entries : List Archive.Entry}

def GivesBack (archive : Bytes) (s : Memory) (directory : Path) (files : List Path) : Prop :=
  ∀ file ∈ files, ∀ data, s.fileContent file = .ok data →
    Archive.readEntry ⟨.ok archive, none⟩ (archivedAs directory file) = .ok data

def AlikeWhereRead (s : Memory) (directory : Path) (files : List Path) : Prop :=
  ∀ file ∈ files, ∀ file' ∈ files, reading (told directory file) = reading (told directory file') →
    s.fileContent file = s.fileContent file'

theorem isBelow_of_walk (walked : answer (Storage.walk directory) s = .ok files)
    (mem : file ∈ files) :
    isBelow directory file := isBelow_iff.mpr (storedBelow_of_walk walked file mem).2

theorem find?_archivedAs (nonempty : directory.spelling ≠ [])
    (walked : answer (Storage.walk directory) s = .ok files)
    (filled : fileEntries directory s files = .ok entries)
    (alike : AlikeWhereRead s directory files) (mem : file ∈ files)
    (read : s.fileContent file = .ok data) :
    (entries.find? fun e => e.path.same (ofString (archivedAs directory file))).map
      Archive.Entry.data = .some data := by
  obtain ⟨back, forth⟩ := exists_of_mem_mapM filled
  refine map_find?_eq_some ?_ fun e he same => ?_
  · obtain ⟨e, he, made⟩ := forth file mem
    obtain ⟨content, -, rfl⟩ := map_eq_ok.mp made
    exact ⟨_, he, same_iff.mpr rfl⟩
  · obtain ⟨file', mem', made⟩ := back e he
    obtain ⟨content, read', rfl⟩ := map_eq_ok.mp made
    have level :=
      (same_archivedAs_iff nonempty (isBelow_of_walk walked mem') (isBelow_of_walk walked mem)).mp
        same
    have contents := alike file' mem' file mem level
    rw [read, read'] at contents
    exact Except.ok.inj contents

theorem alikeWhereRead_of_nodup (walked : answer (Storage.walk directory) s = .ok files)
    (apart : (readings s directory).Nodup) :
    AlikeWhereRead s directory files := by
  intro file mem file' mem' level
  obtain ⟨data, held⟩ := storedBelow_iff.mp (storedBelow_of_walk walked file mem)
  obtain ⟨data', held'⟩ := storedBelow_iff.mp (storedBelow_of_walk walked file' mem')
  have one := List.inj_on_of_nodup_map apart held held' level
  rw [(Prod.mk.inj one).1]

theorem givesBack_iff {archive : Bytes} {seconds : Nat} (nonempty : directory.spelling ≠ [])
    (walked : answer (Storage.walk directory) s = .ok files)
    (filled : fileEntries directory s files = .ok entries)
    (written : Archive.write seconds (⟨ofString timeEntryName, data⟩ :: entries) = .ok archive)
    (short : archive.length < signedLimit) :
    GivesBack archive s directory files ↔ AlikeWhereRead s directory files := by
  constructor
  · intro given file mem file' mem' level
    have content {f : Path} (hf : f ∈ files) : ∃ data, s.fileContent f = .ok data := by
      obtain ⟨_, -, made⟩ := (exists_of_mem_mapM filled).2 f hf
      obtain ⟨data, read, -⟩ := map_eq_ok.mp made
      exact ⟨data, read⟩
    obtain ⟨data, read⟩ := content mem
    obtain ⟨data', read'⟩ := content mem'
    have name : archivedAs directory file = archivedAs directory file' := by
      rw [archivedAs, archivedAs, entryName_eq, entryName_eq, level]
    have first := given file mem data read
    rw [name, given file' mem' data' read'] at first
    rw [read, read', Except.ok.inj first]
  · intro alike file mem data read
    have timeDotless : .here ∉ (ofString timeEntryName).components := by decide
    obtain ⟨down, dotless, -⟩ := told_of_isBelow nonempty (isBelow_of_walk walked mem)
    refine readEntry_eq_ok _ written (List.forall_mem_cons.mpr ⟨timeDotless, ?_⟩) short ?_
    · exact here_not_mem_fileEntries nonempty (storedBelow_of_walk walked) filled
    · rw [List.find?_cons, archivedAs, same_timeEntryName (components_entryName down dotless)]
      exact find?_archivedAs nonempty walked filled alike mem read

end Archive

/-- The files below a directory have names of their own in its archive exactly where no two of them
read alike, as it is where all their paths are texts; and then each file that went into the archive
is given back under its name. Otherwise all are given back exactly where those that read alike hold
the same. The archive has no more octets than a vector can hold. -/
theorem nodup_entryNames_of_create_iff (nonempty : directory.spelling ≠ [])
    (created : run (create directory backups now) s = (.ok c, t)) :
    ((entryNames s directory).Nodup ↔ (readings s directory).Nodup) ∧
      ((∀ held ∈ s.filesBelow directory, ∀ c ∈ (told directory held.1).components,
        (Utf8.decode? c.octets).isSome) → (entryNames s directory).Nodup) ∧
      ∃ archive files, t.fileContent c.path = .ok archive ∧
        answer (Storage.walk directory) s = .ok files ∧
        (archive.length < signedLimit →
          ((entryNames s directory).Nodup → GivesBack archive s directory files) ∧
            (GivesBack archive s directory files ↔ AlikeWhereRead s directory files)) := by
  obtain ⟨i, files, archive, made⟩ := create_eq_ok created
  obtain ⟨n, wrote⟩ := made.stored
  obtain ⟨entries, filled, written⟩ := made.written
  refine ⟨nodup_entryNames_iff nonempty, fun text => ?_, archive, files,
    fileContent_writeFile wrote, made.walked, fun short => ?_⟩
  · exact (nodup_entryNames_iff nonempty).mpr (nodup_readings_of_text nonempty text)
  · have exact := givesBack_iff nonempty made.walked filled written short
    refine ⟨fun apart => exact.mpr ?_, exact⟩
    exact alikeWhereRead_of_nodup made.walked ((nodup_entryNames_iff nonempty).mp apart)

theorem nodup_entryNames_of_create_broken :
    ∃ s c t archive files, run (create (ofString "/i") (ofString "/b") .epoch) s = (.ok c, t) ∧
      s.get? ⟨Utf8.ofString "/i/" ++ [0xff]⟩ = some (.file [1]) ∧
      (entryNames s (ofString "/i")).Nodup ∧
      t.fileContent c.path = .ok archive ∧ answer (Storage.walk (ofString "/i")) s = .ok files ∧
      GivesBack archive s (ofString "/i") files := by
  let i : Instance := { name := "n", tag := "1", url := "u", version := "2", commit := "c" }
  let s : Memory := ((({} : Memory).writeFile (ofString "/i/state.json") i.toJson).2.writeFile
    ⟨Utf8.ofString "/i/" ++ [0xff]⟩ [1]).2
  have shaped : s.TreeShaped := by decide +kernel
  have apart : (readings s (ofString "/i")).Nodup := by decide +kernel
  obtain ⟨c, t, archive, created, stored, short⟩ :=
    exists_created (ofString "/i") (ofString "/b") .epoch i shaped (by decide) (by decide +kernel)
      (by decide +kernel) (by decide +kernel) (by decide +kernel) (by decide +kernel)
  obtain ⟨names, -, archive', files, stored', walked, told⟩ :=
    nodup_entryNames_of_create_iff (by decide) created
  obtain rfl : archive = archive' := Except.ok.inj (stored.symm.trans stored')
  exact ⟨s, c, t, archive, files, created, by decide +kernel, names.mpr apart, stored, walked,
    (told short).1 (names.mpr apart)⟩

/-- A name that is no UTF-8 takes the entry of one that reads like it, so that the other file is
lost. -/
theorem not_nodup_entryNames_of_create :
    ∃ s c t archive files, run (create (ofString "/i") (ofString "/b") .epoch) s = (.ok c, t) ∧
      ¬ (entryNames s (ofString "/i")).Nodup ∧ t.fileContent c.path = .ok archive ∧
      answer (Storage.walk (ofString "/i")) s = .ok files ∧
      ¬ GivesBack archive s (ofString "/i") files := by
  let i : Instance := { name := "n", tag := "1", url := "u", version := "2", commit := "c" }
  let broken : Path := ⟨Utf8.ofString "/i/" ++ [0x80]⟩
  let withState : Memory := (({} : Memory).writeFile (ofString "/i/state.json") i.toJson).2
  let s : Memory := ((withState.writeFile broken [1]).2.writeFile (ofString "/i/\ufffd") [2]).2
  have shaped : s.TreeShaped := by decide +kernel
  obtain ⟨c, t, archive, created, stored, short⟩ :=
    exists_created (ofString "/i") (ofString "/b") .epoch i shaped (by decide) (by decide +kernel)
      (by decide +kernel) (by decide +kernel) (by decide +kernel) (by decide +kernel)
  obtain ⟨_, files, archive', made⟩ := create_eq_ok created
  obtain ⟨n, wrote⟩ := made.stored
  obtain ⟨entries, filled, written⟩ := made.written
  obtain rfl : archive = archive' := Except.ok.inj (stored.symm.trans (fileContent_writeFile wrote))
  refine ⟨s, c, t, archive, files, created, by decide +kernel, stored, made.walked, fun given => ?_⟩
  have alike := (givesBack_iff (by decide) made.walked filled written short).mp given
  -- Both files are in the directory itself, and read alike.
  have first : (broken, Node.file [1]) ∈ s.nodes.entries := by decide +kernel
  have second : (ofString "/i/\ufffd", Node.file [2]) ∈ s.nodes.entries := by decide +kernel
  have same := alike _ (mem_walk_of_child made.walked first (by decide +kernel)) _
    (mem_walk_of_child made.walked second (by decide +kernel)) (by decide +kernel)
  exact absurd same (by decide +kernel)

end Stowage.Backup
