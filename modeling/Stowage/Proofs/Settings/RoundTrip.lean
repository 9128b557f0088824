import Stowage.Proofs.Ini.RoundTrip
import Stowage.Settings

/-! Which settings are read back from their text: those whose texts are all kept by it. -/
namespace Stowage.Settings

open Ini Stowage.Path

variable {e : Environment} {s t : Settings} {ini : Ini} {cs value : List Char} {bs : Bytes}
    {p : Path}

theorem ofIni_eq_ok (h : ofIni e ini = .ok t) :
    ∃ verify, t = {
      dataDirectory := ((setting? ini "paths" "data_dir").map ofChars).getD e.dataDirectory
      backupsDirectory := (setting? ini "paths" "backups_dir").map ofChars
      verifyChecksums := verify
      level := ((setting? ini "logging" "level").map String.ofList).getD "info"
      logFile := (setting? ini "logging" "file").map ofChars } := by
  rw [ofIni] at h
  split at h
  · exact ⟨_, (Except.ok.inj h).symm⟩
  split at h
  · exact ⟨_, (Except.ok.inj h).symm⟩
  · cases h

theorem parse_eq_ok {text : List Char} (h : parse e text = .ok t) :
    ∃ ini, Ini.parse text = .ok ini ∧ ofIni e ini = .ok t := by
  rw [parse] at h
  split at h
  · cases h
  · exact ⟨_, ‹_›, h⟩

theorem setting?_eq_some {name key : String} (found : value? ini name key = some value)
    (full : trim value ≠ []) :
    setting? ini name key = some (trim value) := by
  rw [setting?, found, Option.map_some, Option.filter_some, if_pos (by simpa using full)]

theorem setting?_eq_none {name key : String} (found : value? ini name key = some value)
    (empty : trim value = []) :
    setting? ini name key = Option.none := by
  rw [setting?, found, Option.map_some, empty]
  rfl

def pathSection (s : Settings) : IniSection :=
  ⟨some "paths".toList,
    pathItem "data_dir" s.dataDirectory :: (s.backupsDirectory.map (pathItem "backups_dir")).toList⟩

def packageSection (s : Settings) : IniSection :=
  ⟨some "packages".toList,
    [item "verify_checksums" (if s.verifyChecksums then "true" else "false").toList]⟩

def logSection (s : Settings) : IniSection :=
  ⟨some "logging".toList, item "level" s.level.toList :: (s.logFile.map (pathItem "file")).toList⟩

theorem toIni_eq (s : Settings) : s.toIni = [s.pathSection, s.packageSection, s.logSection] := rfl

theorem worded_toIni (s : Settings) : ∀ i ∈ s.toIni, Worded i := by
  have optional {key : String} (word : IsWord key.toList) (p : Option Path) :
      ∀ i ∈ (p.map (pathItem key)).toList, IsWord i.key := by
    cases p with
    | none => exact fun i hi => absurd hi List.not_mem_nil
    | some p => exact fun i hi => List.mem_singleton.mp hi ▸ word
  rw [toIni_eq]
  refine List.forall_mem_cons.mpr ⟨⟨⟨_, rfl, by decide⟩, ?_⟩,
    List.forall_mem_cons.mpr ⟨⟨⟨_, rfl, by decide⟩, ?_⟩,
      List.forall_mem_singleton.mpr ⟨⟨_, rfl, by decide⟩, ?_⟩⟩⟩
  · exact List.forall_mem_cons.mpr ⟨(by decide : IsWord "data_dir".toList), optional (by decide) _⟩
  · exact List.forall_mem_singleton.mpr (by decide : IsWord "verify_checksums".toList)
  · exact List.forall_mem_cons.mpr ⟨(by decide : IsWord "level".toList), optional (by decide) _⟩

theorem verbatim_packageSection (s : Settings) :
    ∀ i ∈ s.packageSection.items, Verbatim i.value := by
  refine List.forall_mem_singleton.mpr ?_
  cases s.verifyChecksums <;> decide

/-- Valid, not empty, without a blank at either end and without a quote in front. -/
def Tidy (bs : Bytes) : Prop :=
  ∃ cs, Utf8.decode? bs = some cs ∧ cs ≠ [] ∧ (∀ x ∈ cs.head?, isBlank x = false ∧ ¬ IsQuote x) ∧
    ∀ x ∈ cs.getLast?, isBlank x = false

instance (bs : Bytes) : Decidable (Tidy bs) :=
  decidable_of_iff ((Utf8.decode? bs).any fun cs => cs ≠ [] ∧
      cs.head?.all (fun x => isBlank x = false ∧ ¬ IsQuote x) ∧
      cs.getLast?.all (isBlank · = false)) <| by
    simp only [Option.any_eq_true, Option.all_eq_true, decide_eq_true_eq]
    exact Iff.rfl

def texts (s : Settings) : List Bytes :=
  s.dataDirectory.spelling :: Utf8.ofString s.level :: (s.backupsDirectory.toList ++
    s.logFile.toList).map Path.spelling

def Kept (bs : Bytes) : Prop := ∃ cs, bs = Utf8.encode cs ∧ cs ≠ [] ∧ Verbatim cs

theorem kept_iff : Kept bs ↔ Tidy bs ∧ 0x0b ∉ bs ∧ 0x0c ∉ bs := by
  constructor
  · rintro ⟨cs, rfl, full, verbatim⟩
    refine ⟨⟨cs, Utf8.decode?_encode cs, full, verbatim.start, verbatim.ending⟩, fun mem => ?_,
      fun mem => ?_⟩
    · exact verbatim.tab (Utf8.mem_of_mem_encode (by decide) mem)
    · exact verbatim.feed (Utf8.mem_of_mem_encode (by decide) mem)
  · rintro ⟨⟨cs, decoded, full, start, ending⟩, tab, feed⟩
    obtain rfl := Utf8.decode?_eq_some_iff.mp decoded
    refine ⟨cs, rfl, full, start, ending, fun mem => tab ?_, fun mem => feed ?_⟩
    · exact List.mem_flatMap.mpr ⟨'\x0b', mem, by decide⟩
    · exact List.mem_flatMap.mpr ⟨'\x0c', mem, by decide⟩

theorem kept_of_same (read : LineReadAs (Utf8.decodeLossy p.spelling) value)
    (full : trim value ≠ []) (same : (ofChars (trim value)).same p) : Kept p.spelling := by
  rw [same_comm] at same
  obtain ⟨ds, spelled, shared⟩ := exists_encode_of_same same
  rw [spelled, Utf8.decodeLossy_encode] at read
  obtain ⟨verbatim, eq⟩ := read.verbatim shared.symm
  exact ⟨ds, spelled, eq ▸ full, verbatim⟩

theorem name_mem_dataDirectory (e : Environment) :
    .name (Utf8.ofString programName) ∈ e.dataDirectory.components := by
  rw [Environment.dataDirectory, joinText]
  by_cases empty : ((e.directory? e.dataHome ".local/share").getD (ofString ".")).spelling = []
  · rw [join_of_empty empty]
    decide
  · rw [components_join empty (by decide)]
    exact List.mem_append_right _ (by decide)

/-- The default directory has a letter in its name, unlike paths of which nothing is read. -/
theorem not_same_dataDirectory (read : LineReadAs (Utf8.decodeLossy p.spelling) value)
    (empty : trim value = []) :
    ¬ e.dataDirectory.same p := by
  intro same
  have only := read.blank_or_quote empty
  have spelled :=
    Utf8.eq_encode_of_decodeLossy rfl fun mem => absurd (only '\ufffd' mem) (by decide)
  have mem : UInt8.ofNat ('a' : Char).toNat ∈ p.spelling :=
    mem_of_name_mem (same_iff.mp same ▸ name_mem_dataDirectory e) (by decide)
  rw [spelled] at mem
  exact absurd (only 'a' (Utf8.mem_of_mem_encode (by decide) mem)) (by decide)

theorem Kept.verbatim (h : Kept p.spelling) : Verbatim (Utf8.decodeLossy p.spelling) := by
  obtain ⟨cs, eq, -, verbatim⟩ := h
  rwa [eq, Utf8.decodeLossy_encode]

theorem Kept.verbatim_level (h : Kept (Utf8.ofString s.level)) : Verbatim s.level.toList := by
  obtain ⟨cs, eq, -, verbatim⟩ := h
  rwa [Utf8.encode_injective eq]

theorem verbatim_pathItem {key : String} {o : Option Path} (kept : ∀ p ∈ o, Kept p.spelling) :
    ∀ i ∈ (o.map (pathItem key)).toList, Verbatim i.value := by
  cases o with
  | none => exact fun i hi => absurd hi List.not_mem_nil
  | some p => exact fun i hi => List.mem_singleton.mp hi ▸ (kept p rfl).verbatim

theorem verbatim_pathSection (data : Kept s.dataDirectory.spelling)
    (backups : ∀ p ∈ s.backupsDirectory, Kept p.spelling) :
    ∀ i ∈ s.pathSection.items, Verbatim i.value :=
  List.forall_mem_cons.mpr ⟨data.verbatim, verbatim_pathItem backups⟩

theorem verbatim_front (paths : ∀ i ∈ s.pathSection.items, Verbatim i.value) :
    ∀ i ∈ [s.pathSection, s.packageSection], ∀ j ∈ i.items, Verbatim j.value :=
  List.forall_mem_cons.mpr ⟨paths, List.forall_mem_singleton.mpr (verbatim_packageSection s)⟩

theorem name_front_ne (s : Settings) :
    ∀ i ∈ [s.pathSection, s.packageSection], i.name ≠ some "logging".toList := by
  have paths : some "paths".toList ≠ some "logging".toList := by decide
  have packages : some "packages".toList ≠ some "logging".toList := by decide
  exact List.forall_mem_cons.mpr ⟨paths, List.forall_mem_singleton.mpr packages⟩

theorem setting?_of_kept {name key : String} {o : Option Path} (kept : ∀ p ∈ o, Kept p.spelling)
    (found : value? ini name key = o.map fun p => Utf8.decodeLossy p.spelling) :
    (setting? ini name key).map ofChars = o := by
  cases o with
  | none =>
    rw [setting?, found]
    rfl
  | some p =>
    obtain ⟨spelling⟩ := p
    obtain ⟨cs, rfl, full, verbatim⟩ := kept _ rfl
    rw [Option.map_some, Utf8.decodeLossy_encode] at found
    rw [setting?_eq_some found (verbatim.trim_eq.symm ▸ full), verbatim.trim_eq]
    rfl

theorem setting?_level_of_kept (kept : Kept (Utf8.ofString s.level)) :
    (setting? s.toIni "logging" "level").map String.ofList = some s.level := by
  obtain ⟨cs, eq, full, verbatim⟩ := kept
  have found : value? s.toIni "logging" "level" = some cs :=
    congrArg some (Utf8.encode_injective eq)
  rw [setting?_eq_some found (verbatim.trim_eq.symm ▸ full), verbatim.trim_eq, Option.map_some,
    ← Utf8.encode_injective eq, String.ofList_toList]

theorem setting?_verify (s : Settings) :
    setting? s.toIni "packages" "verify_checksums" = some (if s.verifyChecksums then "true"
      else "false").toList := by
  have found : value? s.toIni "packages" "verify_checksums" = some (if s.verifyChecksums then "true"
      else "false").toList := rfl
  have verbatim := verbatim_packageSection s _ List.mem_cons_self
  have trimmed : trim (if s.verifyChecksums then "true" else "false").toList = _ := verbatim.trim_eq
  rw [setting?_eq_some found (by rw [trimmed]; cases s.verifyChecksums <;> decide), trimmed]
  rfl

theorem forall_mem_texts {P : Bytes → Prop} :
    (∀ bs ∈ s.texts, P bs) ↔
      P s.dataDirectory.spelling ∧ P (Utf8.ofString s.level) ∧
        (∀ p ∈ s.backupsDirectory, P p.spelling) ∧ ∀ p ∈ s.logFile, P p.spelling := by
  rw [texts, List.forall_mem_cons, List.forall_mem_cons, List.forall_mem_map,
    List.forall_mem_append]
  simp only [Option.mem_toList, Option.mem_def]

theorem parse_print (kept : ∀ bs ∈ s.texts, Kept bs) : parse e s.print = .ok s := by
  obtain ⟨data, level, backups, file⟩ := forall_mem_texts.mp kept
  have verbatim : ∀ i ∈ s.toIni, ∀ j ∈ i.items, Verbatim j.value := List.forall_mem_cons.mpr
    ⟨verbatim_pathSection data backups,
      List.forall_mem_cons.mpr ⟨verbatim_packageSection s,
        List.forall_mem_singleton.mpr (List.forall_mem_cons.mpr ⟨level.verbatim_level,
          verbatim_pathItem file⟩)⟩⟩
  have foundData : (setting? s.toIni "paths" "data_dir").map ofChars = some s.dataDirectory :=
    setting?_of_kept (o := some s.dataDirectory) (fun p hp => Option.some.inj hp ▸ data) rfl
  have foundBackups : (setting? s.toIni "paths" "backups_dir").map ofChars = s.backupsDirectory :=
    setting?_of_kept backups (by rw [toIni_eq, pathSection]; cases s.backupsDirectory <;> rfl)
  have foundFile : (setting? s.toIni "logging" "file").map ofChars = s.logFile :=
    setting?_of_kept file (by rw [toIni_eq, logSection]; cases s.logFile <;> rfl)
  have flag : bool? (if s.verifyChecksums then "true" else "false").toList =
      some s.verifyChecksums := by
    cases s.verifyChecksums <;> decide
  rw [parse, print, Ini.parse_print (worded_toIni s) verbatim]
  simp only [ofIni, setting?_verify, flag, foundData, foundBackups, foundFile,
    setting?_level_of_kept level]
  rfl

theorem kept_of_samePath {o : Option Path} {name key : String}
    (read : ∀ p ∈ o, ∃ value, value? ini name key = some value ∧
      LineReadAs (Utf8.decodeLossy p.spelling) value)
    (same : samePath? ((setting? ini name key).map ofChars) o) : ∀ p ∈ o, Kept p.spelling := by
  rintro p rfl
  obtain ⟨value, found, read⟩ := read p rfl
  by_cases empty : trim value = []
  · rw [setting?_eq_none found empty] at same
    cases same
  · rw [setting?_eq_some found empty] at same
    exact kept_of_same read empty same

theorem kept_of_level {level : String} (found : value? ini "logging" "level" = some value)
    (read : LineReadAs level.toList value)
    (same : ((setting? ini "logging" "level").map String.ofList).getD "info" = level) :
    Kept (Utf8.ofString level) := by
  by_cases empty : trim value = []
  · rw [setting?_eq_none found empty] at same
    subst same
    exact absurd (read.blank_or_quote empty 'i' (by decide)) (by decide)
  · rw [setting?_eq_some found empty] at same
    have text : level.toList = trim value := same ▸ String.toList_ofList
    exact ⟨level.toList, rfl, text ▸ empty, (read.verbatim (text ▸ rfl)).1⟩

section

variable (parsed : Ini.parse (Ini.print s.toIni) = .ok ini)
include parsed

theorem kept_dataDirectory
    (same : (((setting? ini "paths" "data_dir").map ofChars).getD e.dataDirectory).same
      s.dataDirectory) :
    Kept s.dataDirectory.spelling := by
  have split : s.toIni = [] ++ ⟨some "paths".toList,
      [] ++ ⟨"data_dir".toList,
        Utf8.decodeLossy s.dataDirectory.spelling⟩ :: (s.backupsDirectory.map
          (pathItem "backups_dir")).toList⟩ :: [s.packageSection, s.logSection] := rfl
  obtain ⟨value, found, read⟩ := value?_of_parse_print "paths" "data_dir" (worded_toIni s) split
    (List.forall_mem_nil _) (List.forall_mem_nil _) (List.forall_mem_nil _) (List.forall_mem_nil _)
      parsed
  by_cases empty : trim value = []
  · rw [setting?_eq_none found empty] at same
    exact absurd same (not_same_dataDirectory read empty)
  · rw [setting?_eq_some found empty] at same
    exact kept_of_same read empty same

theorem kept_backupsDirectory (data : Kept s.dataDirectory.spelling)
    (same : samePath? ((setting? ini "paths" "backups_dir").map ofChars) s.backupsDirectory) :
    ∀ p ∈ s.backupsDirectory, Kept p.spelling := by
  refine kept_of_samePath (fun p hp => ?_) same
  have split : s.toIni = [] ++ ⟨some "paths".toList, [pathItem "data_dir" s.dataDirectory] ++
      ⟨"backups_dir".toList, Utf8.decodeLossy p.spelling⟩ :: []⟩ :: [s.packageSection,
        s.logSection] := by
    rw [toIni_eq, pathSection, hp]
    rfl
  have fresh : "data_dir".toList ≠ "backups_dir".toList := by decide
  exact value?_of_parse_print "paths" "backups_dir" (worded_toIni s) split (List.forall_mem_nil _)
    (List.forall_mem_singleton.mpr data.verbatim) (List.forall_mem_nil _)
    (List.forall_mem_singleton.mpr fresh) parsed

variable (front : ∀ i ∈ s.pathSection.items, Verbatim i.value)
include front

theorem kept_level (same : ((setting? ini "logging" "level").map String.ofList).getD "info" =
      s.level) :
    Kept (Utf8.ofString s.level) := by
  have split : s.toIni = [s.pathSection, s.packageSection] ++ ⟨some "logging".toList, [] ++
      ⟨"level".toList, s.level.toList⟩ :: (s.logFile.map (pathItem "file")).toList⟩ :: [] := rfl
  obtain ⟨value, found, read⟩ := value?_of_parse_print "logging" "level" (worded_toIni s) split
    (verbatim_front front) (List.forall_mem_nil _) (name_front_ne s) (List.forall_mem_nil _) parsed
  exact kept_of_level found read same

theorem kept_logFile (level : Kept (Utf8.ofString s.level))
    (same : samePath? ((setting? ini "logging" "file").map ofChars) s.logFile) :
    ∀ p ∈ s.logFile, Kept p.spelling := by
  refine kept_of_samePath (fun p hp => ?_) same
  have split : s.toIni = [s.pathSection, s.packageSection] ++ ⟨some "logging".toList,
      [item "level" s.level.toList] ++ ⟨"file".toList,
        Utf8.decodeLossy p.spelling⟩ :: []⟩ :: [] := by
    rw [toIni_eq, logSection, hp]
    rfl
  have fresh : "level".toList ≠ "file".toList := by decide
  exact value?_of_parse_print "logging" "file" (worded_toIni s) split (verbatim_front front)
    (List.forall_mem_singleton.mpr level.verbatim_level) (name_front_ne s)
    (List.forall_mem_singleton.mpr fresh) parsed

end

/-- The texts are read in the order of their lines, and the first that is not kept is read as
another. -/
theorem kept_of_same_parse_print (h : parse e s.print = .ok t) (same : t.same s) :
    ∀ bs ∈ s.texts, Kept bs := by
  obtain ⟨ini, parsed, read⟩ := parse_eq_ok h
  obtain ⟨verify, rfl⟩ := ofIni_eq_ok read
  simp only [Settings.same, Bool.and_eq_true, beq_iff_eq] at same
  obtain ⟨⟨⟨⟨sameData, sameBackups⟩, -⟩, sameLevel⟩, sameFile⟩ := same
  have data := kept_dataDirectory parsed sameData
  have backups := kept_backupsDirectory parsed data sameBackups
  have front := verbatim_pathSection data backups
  have level := kept_level parsed front sameLevel
  exact forall_mem_texts.mpr ⟨data, level, backups, kept_logFile parsed front level sameFile⟩

theorem samePath?_self (o : Option Path) : samePath? o o := by
  cases o with
  | none => rfl
  | some p => exact same_iff.mpr rfl

theorem same_self (s : Settings) : s.same s := by
  have own : s.dataDirectory.same s.dataDirectory := same_iff.mpr rfl
  simp only [Settings.same, own, samePath?_self, beq_self_eq_true, Bool.and_self]

/-- A vertical tab or a form feed within a text is lost, since its escape is not read as one. -/
theorem same_parse_print_iff (e : Environment) (s : Settings) :
    (∃ t, parse e s.print = .ok t ∧ t.same s) ↔
      ∀ bs ∈ s.texts, Tidy bs ∧ 0x0b ∉ bs ∧ 0x0c ∉ bs := by
  simp only [← kept_iff]
  constructor
  · rintro ⟨t, parsed, same⟩
    exact kept_of_same_parse_print parsed same
  · exact fun kept => ⟨s, parse_print kept, same_self s⟩

theorem not_same_parse_print_feed :
    ∃ (e : Environment) (s : Settings), (Utf8.decode? e.dataDirectory.spelling).isSome ∧
    (∀ bs ∈ s.texts, Tidy bs) ∧
      ¬ ∃ t, parse e s.print = .ok t ∧ t.same s := by
  let e : Environment := { home := some (ofString "/h") }
  let s : Settings := { dataDirectory := ofString "/d", level := "a\x0cb" }
  have parsed : parse e s.print = .ok { s with level := "afb" } := by decide +kernel
  refine ⟨e, s, by decide +kernel, by decide +kernel, ?_⟩
  rintro ⟨t, read, same⟩
  rw [parsed] at read
  obtain rfl := Except.ok.inj read
  exact absurd same (by decide +kernel)

end Stowage.Settings
