import Stowage.Package
import Stowage.Proofs.Registry.Tree
import Stowage.Proofs.Storage.Memory

/-! The check of a package, once its registry is known, and what was done where a registry was
written. -/
namespace Stowage.Package

open Memory Stowage.Path

variable {p : Package} {s t : Memory} {files : List ListedFile}

theorem components_directory (p : Package) :
    p.directory.components = p.root.components ++ [.name (Utf8.ofString packageDirectoryName)] :=
  components_joinText (by decide) p.root

theorem components_registryPath (p : Package) :
    p.registryPath.components = p.root.components ++ [.name (Utf8.ofString registryFileName)] :=
  components_joinText (by decide) p.root

theorem readOnly_load (root : Path) : ReadOnly (Registry.load root) := by
  refine (readOnly_read _).caught.bind fun readings => ?_
  split
  · split
    · exact (ReadOnly.note _).bind fun _ => .pure _
    · exact .throw _
  · split
    · exact (ReadOnly.lifted _).bind fun _ => .pure _
    · exact .throw _

def listing (path : Path) (s : Memory) : Except Error (Option (List ListedFile)) :=
  if s.isDenied path then .error (.io path (.denied path))
  else match s.get? path with
    | none => .ok none
    | some .directory => .error (.io path (.directory path))
    | some (.file bytes) =>
      match Utf8.fault? bytes with
      | some fault => .error (.io path (.badText fault))
      | none =>
        match Registry.parse (Utf8.decodeLossy bytes) with
        | .error (number, fault) => .error (.malformedLine number fault)
        | .ok files => .ok (some files)

theorem listing_eq_some_iff {path : Path} :
    listing path s = .ok (some files) ↔
      ∃ text, s.fileContent path = .ok (Utf8.encode text) ∧ Registry.parse text = .ok files := by
  constructor
  · intro found
    unfold listing at found
    split at found
    · cases found
    rename_i allowed
    split at found
    · cases found
    · cases found
    · rename_i bytes there
      split at found
      · cases found
      · rename_i whole
        obtain ⟨text, rfl⟩ := Utf8.fault?_eq_none_iff.mp whole
        rw [Utf8.decodeLossy_encode] at found
        split at found
        · cases found
        · rename_i parsed
          cases found
          exact ⟨text, fileContent_eq_ok.mpr ⟨Bool.eq_false_iff.mpr allowed, there⟩, parsed⟩
  · rintro ⟨text, stored, parsed⟩
    obtain ⟨allowed, there⟩ := fileContent_eq_ok.mp stored
    have whole := Utf8.fault?_eq_none_iff.mpr ⟨text, rfl⟩
    rw [listing, if_neg (Bool.eq_false_iff.mp allowed), there]
    simp only [whole, Utf8.decodeLossy_encode, parsed]

theorem answer_load (root : Path) (s : Memory) :
    answer (Registry.load root) s = listing (root.joinText registryFileName) s := by
  have read : answer (ExceptT.lift (Storage.read (root.joinText registryFileName)).run :
      ExceptT Error (StateM Memory) (Except Failure Bytes)) s =
      .ok (s.fileContent (root.joinText registryFileName)) := by
    rw [answer_caught, answer_read]
  unfold Registry.load
  dsimp only
  rw [(readOnly_read _).caught.answer_bind, read]
  · dsimp only [bind, Except.bind]
    rw [fileContent, allowed, listing]
    by_cases denied : s.isDenied (root.joinText registryFileName)
    · rw [if_pos denied, if_pos denied]
      rfl
    rw [if_neg denied, if_neg denied]
    rcases s.get? (root.joinText registryFileName) with _ | bytes | _
    · rfl
    · dsimp only
      cases fault : Utf8.fault? bytes with
      | some _ =>
        rw [Utf8.decode?_of_fault? fault]
        rfl
      | none =>
        obtain ⟨text, rfl⟩ := Utf8.fault?_eq_none_iff.mp fault
        rw [Utf8.decode?_encode, Utf8.decodeLossy_encode]
        dsimp only
        rw [Registry.parseText]
        rcases Registry.parse text with ⟨number, fault⟩ | files <;> rfl
    · rfl
  · intro readings
    split
    · split
      · exact (ReadOnly.note _).bind fun _ => .pure _
      · exact .throw _
    · split
      · exact (ReadOnly.lifted _).bind fun _ => .pure _
      · exact .throw _

def decision (p : Package) (s : Memory) : Except Error PackageStatus :=
  if s.isDenied p.directory then .error (.io p.directory (.denied p.directory))
  else if s.get? p.directory ≠ some .directory
    then .error (.missingPath (.ofString packageDirectoryName) p.root)
  else if !p.verifyChecksums then .ok .unverified
  else match listing p.registryPath s with
    | .error error => .error error
    | .ok none => .ok .unverified
    | .ok (some files) =>
      match files.findSome? (Registry.obstacle? p.root s) with
      | some error => .error error
      | none => .ok (.verified files.length)

theorem readOnly_verified (root : Path) (files : List ListedFile) :
    ReadOnly (do
      Registry.verify root files
      pure (.verified files.length) : ExceptT Error (StateM Memory) PackageStatus) :=
  (Registry.readOnly_verify _ _).bind fun _ => .pure _

theorem answer_verified (root : Path) (files : List ListedFile) (s : Memory) :
    answer (do
      Registry.verify root files
      pure (.verified files.length) : ExceptT Error (StateM Memory) PackageStatus) s =
      match files.findSome? (Registry.obstacle? root s) with
      | some error => .error error
      | none => .ok (.verified files.length) := by
  rw [(Registry.readOnly_verify _ _).answer_bind fun _ => .pure _, Registry.answer_verify]
  cases files.findSome? (Registry.obstacle? root s) <;> rfl

theorem answer_check (p : Package) (s : Memory) : answer p.check s = p.decision s := by
  have asked : answer (failingOn p.directory (Storage.isDirectory p.directory)) s =
      ((s.allowed p.directory).map fun _ => decide (s.get? p.directory = some .directory)).mapError
        (.io p.directory) := rfl
  unfold check
  rw [((readOnly_isDirectory _).failingOn _).answer_bind, asked, allowed, decision]
  · by_cases denied : s.isDenied p.directory
    · rw [if_pos denied, if_pos denied]
      rfl
    rw [if_neg denied, if_neg denied]
    dsimp only [Except.map, Except.mapError, Except.bind]
    by_cases there : s.get? p.directory = some .directory
    · rw [if_neg (not_not.mpr there)]
      simp only [there, decide_true, Bool.not_true, Bool.false_eq_true, if_false]
      split
      · rfl
      rw [(readOnly_load p.root).answer_bind, answer_load]
      · change (listing p.registryPath s).bind _ = _
        rcases listing p.registryPath s with error | _ | files
        · rfl
        · rfl
        · exact answer_verified p.root files s
      · rintro (_ | files)
        · exact (ReadOnly.note _).bind fun _ => .pure _
        · exact readOnly_verified p.root files
    · rw [if_pos there]
      simp only [there, decide_false, Bool.not_false, if_true]
      rfl
  · intro present
    dsimp only
    split
    · exact .throw _
    · split
      · exact (ReadOnly.note _).bind fun _ => .pure _
      · refine (readOnly_load _).bind ?_
        rintro (_ | files)
        · exact (ReadOnly.note _).bind fun _ => .pure _
        · exact readOnly_verified p.root files

theorem answer_check_of_parse {text : List Char} (on : p.verifyChecksums) (free : s.denied = [])
    (directory : s.get? p.directory = some .directory)
    (stored : s.fileContent p.registryPath = .ok (Utf8.encode text))
    (parsed : Registry.parse text = .ok files) :
    answer p.check s = (Registry.verdict p.root s files).map fun _ => .verified files.length := by
  have allowed (path : Path) : ¬ s.isDenied path := by
    rw [isDenied, free]
    exact Bool.false_ne_true
  have listed : listing p.registryPath s = .ok (some files) :=
    listing_eq_some_iff.mpr ⟨text, stored, parsed⟩
  rw [answer_check, decision, if_neg (allowed _), if_neg (not_not.mpr directory), on, listed]
  simp only [Bool.not_true, Bool.false_eq_true, if_false, Registry.obstacle?_of_free free,
    Registry.verdict]
  cases files.findSome? (Registry.flaw? p.root s) <;> rfl

theorem writeRegistry_cases (p : Package) (s : Memory) :
    (∃ e n, run p.writeRegistry s = (.error e, s.withOpens n)) ∨
      ∃ files n, answer (Registry.generate p.root (.ofString packageDirectoryName)) s = .ok files ∧
        run p.writeRegistry s =
          ((((s.withOpens n).writeFile p.registryPath
              (Utf8.encode (Registry.print files))).1.mapError (Error.io p.registryPath)).map
                fun _ => files,
            ((s.withOpens n).writeFile p.registryPath (Utf8.encode (Registry.print files))).2) := by
  -- The files are listed first, and that only reads.
  change (∃ e n, run p.writeRegistry (s.withOpens s.opens) = _) ∨
    ∃ files n, _ ∧ run p.writeRegistry (s.withOpens s.opens) = _
  unfold writeRegistry
  rcases (Registry.readOnly_generate _ _).run_bind_cases _ s s.opens with
    failed | ⟨files, n, listed, ran⟩
  · exact .inl failed
  · exact .inr ⟨files, n, listed, ran.trans (run_write_then fun _ => rfl)⟩

theorem writeRegistry_eq_ok (h : run p.writeRegistry s = (.ok files, t)) :
    answer (Registry.generate p.root (.ofString packageDirectoryName)) s = .ok files ∧
      ∃ n, (s.withOpens n).writeFile p.registryPath (Utf8.encode (Registry.print files)) = (.ok (),
        t) := by
  rcases writeRegistry_cases p s with ⟨e, n, failed⟩ | ⟨listed, n, generated, ran⟩
  · rw [failed] at h
    cases h
  · obtain ⟨rfl, wrote⟩ := of_written_eq_ok (ran.symm.trans h)
    exact ⟨generated, n, wrote⟩

end Stowage.Package
