import Stowage.Proofs.Package.Check
import Stowage.Proofs.Storage.History

/-! What a registry gives away: after any operations that leave it as it was written, the check
passes if every listed file has its content still, and else tells of the first one that has not. -/
namespace Stowage.Package

open Memory Stowage.Path ListedFile

variable {p : Package} {s t : Memory} {files : List ListedFile} {f : ListedFile}

def Intact (root : Path) (s : Memory) (f : ListedFile) : Prop :=
  ∃ data, s.get? (root.join f.path) = some (.file data) ∧ digest data = f.digest

/-- What the check says of a listed file that is not intact, under a path that it reads in the
registry. -/
def loss (root : Path) (s : Memory) (f : ListedFile) (path : Path) : Error :=
  match s.get? (root.join f.path) with
  | none => .missingFile path f.digest
  | some (.file data) => .mismatch path f.digest (digest data)
  | some .directory => .io (root.join path) (.directory (root.join path))

structure Recorded (root : Path) (s : Memory) (f : ListedFile) : Prop where
  start : ∃ rest, f.path.components = .name (Utf8.ofString packageDirectoryName) :: rest
  ending (last : Bytes) : f.path.components.getLast? = some (.name last) →
    f.path.spelling.getLast? = last.getLast?
  content : ∃ key data, s.get? key = some (.file data) ∧ digest data = f.digest ∧
    key.components = root.components ++ f.path.components

theorem recorded_of_generate
    (h : answer (Registry.generate p.root (.ofString packageDirectoryName)) s = .ok files) :
    ∀ f ∈ files, Recorded p.root s f := by
  obtain ⟨paths, walked, listed⟩ := Registry.answer_generate_eq_ok.mp h
  intro f hf
  obtain ⟨key, hk, filled⟩ := (exists_of_mem_mapM listed).1 f hf
  obtain ⟨data, read, rfl⟩ := map_eq_ok.mp filled
  -- Below the directory of the package the components of the file begin with its name.
  obtain ⟨-, rest, -, -, eq⟩ := storedBelow_of_walk walked key hk
  have whole :
      key.components = p.root.components ++
      (.name (Utf8.ofString packageDirectoryName) :: rest) := by
    rw [eq]
    exact (congrArg (· ++ rest) (components_directory p)).trans (List.append_assoc _ _ _)
  obtain ⟨q, below, same⟩ := below?_of_append whole
  have path : (Registry.listedAs p.root key data).path = q := by rw [Registry.listedAs, below]; rfl
  refine ⟨⟨rest, by rw [path, same]⟩, fun last h => ?_, key, data, (fileContent_eq_ok.mp read).2,
    rfl, by rw [path, same, whole]⟩
  rw [path] at h ⊢
  have full := (isName_of_mem (List.mem_of_getLast? h)).1
  rw [same] at h
  exact getLast?_of_below? whole below h full

theorem Recorded.printable (h : Recorded p.root s f) (recordable : Recordable f.path) :
    f.Printable := by
  obtain ⟨rest, start⟩ := h.start
  obtain ⟨key, data, -, digest, -⟩ := h.content
  have text : Utf8.ofString packageDirectoryName = Utf8.encode ('p' :: ['k', 'g']) := by decide
  rw [text] at start
  exact recordable.printable digest.symm start (by decide) h.ending

theorem flaw?_asRead (plain : f.path.Plain) (same : f.asRead.path.components = f.path.components)
    (root : Path) (s : Memory) :
    (Intact root s f → Registry.flaw? root s f.asRead = none) ∧
      (¬ Intact root s f →
        Registry.flaw? root s f.asRead = some (loss root s f f.asRead.path)) := by
  have plainly : f.asRead.path.Plain := fun c hc => plain c (same ▸ hc)
  have joined : (root.join f.asRead.path).same (root.join f.path) := by
    rw [same_iff, components_join_of_plain plainly, components_join_of_plain plain, same]
  have digest : f.asRead.digest = f.digest := rfl
  rw [Registry.flaw?, loss, get?_congr joined, digest]
  constructor
  · rintro ⟨data, there, matching⟩
    rw [there]
    exact if_pos matching
  · intro lost
    rcases there : s.get? (root.join f.path) with _ | data | _
    · rfl
    · exact if_neg fun matching => lost ⟨data, there, matching⟩
    · rfl

theorem verdict_asRead (printable : ∀ f ∈ files, f.Printable) (root : Path) (u : Memory) :
    (Registry.verdict root u (files.map asRead) = .ok () ↔ ∀ f ∈ files, Intact root u f) ∧
      ∀ before f rest, files = before ++ f :: rest → (∀ g ∈ before, Intact root u g) →
      ¬ Intact root u f →
        Registry.verdict root u (files.map asRead) = .error (loss root u f f.asRead.path) := by
  have flaw (f : ListedFile) (hf : f ∈ files) :=
    flaw?_asRead (printable f hf).plain (printable f hf).asRead_same root u
  have none_iff : (files.map asRead).findSome? (Registry.flaw? root u) = none ↔
      ∀ f ∈ files, Intact root u f := by
    rw [List.findSome?_eq_none_iff]
    constructor
    · intro h f hf
      by_contra lost
      have found := h f.asRead (List.mem_map_of_mem hf)
      rw [(flaw f hf).2 lost] at found
      cases found
    · rintro h _ listed
      obtain ⟨f, hf, rfl⟩ := List.mem_map.mp listed
      exact (flaw f hf).1 (h f hf)
  constructor
  · rw [← none_iff, Registry.verdict]
    cases (files.map asRead).findSome? (Registry.flaw? root u) <;> simp
  · rintro before f rest rfl fine lost
    have passed : (before.map asRead).findSome? (Registry.flaw? root u) = none := by
      rw [List.findSome?_eq_none_iff]
      rintro _ listed
      obtain ⟨g, hg, rfl⟩ := List.mem_map.mp listed
      exact (flaw g (List.mem_append_left _ hg)).1 (fine g hg)
    rw [Registry.verdict, List.map_append, List.findSome?_append, passed, List.map_cons,
      List.findSome?_cons, (flaw f (List.mem_append_right _ List.mem_cons_self)).2 lost]
    rfl

theorem not_same_registryPath (h : Recorded p.root s f) (plain : f.path.Plain) :
    ¬ p.registryPath.same (p.root.join f.path) := by
  obtain ⟨rest, start⟩ := h.start
  rw [same_iff, components_registryPath, components_join_of_plain plain, start,
    List.append_cancel_left_eq]
  intro same
  exact absurd (List.head_eq_of_cons_eq same) (by decide)

theorem intact_of_writeFile {n : Nat} {data : Bytes}
    (wrote : (s.withOpens n).writeFile p.registryPath data = (.ok (), t)) (h : Recorded p.root s f)
    (plain : f.path.Plain) : Intact p.root t f := by
  obtain ⟨key, content, there, digest, eq⟩ := h.content
  have same : (p.root.join f.path).same key := by
    rw [same_iff, eq, components_join_of_plain plain]
  refine ⟨content, ?_, digest⟩
  rw [get?_writeFile wrote, if_neg (not_same_registryPath h plain)]
  exact (grown_insertAncestors ..).1 _ _ ((get?_congr same).trans there)

theorem answer_check_printed {u : Memory} (on : p.verifyChecksums) (free : u.denied = [])
    (directory : u.get? p.directory = some .directory)
    (stored : u.fileContent p.registryPath = .ok (Utf8.encode (Registry.print files)))
    (printable : ∀ f ∈ files, f.Printable) :
    (answer p.check u = .ok (.verified files.length) ↔
        ∀ f ∈ files, Intact p.root u f) ∧
      ∀ before f rest, files = before ++ f :: rest → (∀ g ∈ before, Intact p.root u g) →
        ¬ Intact p.root u f →
        answer p.check u = .error (loss p.root u f f.asRead.path) := by
  obtain ⟨passes, fails⟩ := verdict_asRead printable p.root u
  rw [answer_check_of_parse on free directory stored (Registry.parse_print printable),
    List.length_map, ← passes]
  constructor
  · cases Registry.verdict p.root u (files.map asRead) <;> simp [Except.map]
  · intro before f rest split fine lost
    rw [fails before f rest split fine lost]
    rfl

/-- A registry that is left as it was written vouches for the files as they were then, and for
nothing else. -/
theorem check_of_writeRegistry (on : p.verifyChecksums) (free : s.denied = [])
    (written : run p.writeRegistry s = (.ok files, t))
    (recordable : ∀ f ∈ files, Recordable f.path) :
    answer p.check t = .ok (.verified files.length) ∧
      ∀ operations, (t.after operations).fileContent p.registryPath = t.fileContent p.registryPath →
        (answer p.check (t.after operations) = .ok (.verified files.length) ↔
          ∀ f ∈ files, Intact p.root (t.after operations) f) ∧
        ∀ before f rest, files = before ++ f :: rest →
          (∀ g ∈ before, Intact p.root (t.after operations) g) →
          ¬ Intact p.root (t.after operations) f →
          ∃ path, path.same f.path ∧ answer p.check (t.after operations) =
            .error (loss p.root (t.after operations) f path) := by
  obtain ⟨generated, n, wrote⟩ := writeRegistry_eq_ok written
  obtain ⟨paths, walked, -⟩ := Registry.answer_generate_eq_ok.mp generated
  have recorded := recorded_of_generate generated
  have printable : ∀ f ∈ files, f.Printable :=
    fun f hf => (recorded f hf).printable (recordable f hf)
  -- The write denies no access and leaves each directory, and so do the operations after it.
  have kept : Kept s t := by
    have step := kept_writeFile (s.withOpens n) p.registryPath (Utf8.encode (Registry.print files))
    rw [wrote] at step
    exact ⟨step.denied, step.directory⟩
  have directory : t.get? p.directory = some .directory :=
    kept.directory _ (directory_of_walk walked)
  have stored := fileContent_writeFile wrote
  have later (operations : List Operation)
      (untouched : (t.after operations).fileContent p.registryPath =
        t.fileContent p.registryPath) :=
    answer_check_printed on (((kept_after t operations).denied.trans kept.denied).trans free)
      ((kept_after t operations).directory _ directory) (untouched.trans stored) printable
  refine ⟨(later [] rfl).1.mpr fun f hf => ?_, fun operations untouched => ?_⟩
  · exact intact_of_writeFile wrote (recorded f hf) (recordable f hf).plain
  · obtain ⟨passes, fails⟩ := later operations untouched
    refine ⟨passes, fun before f rest split fine lost =>
      ⟨f.asRead.path, ?_, fails before f rest split fine lost⟩⟩
    rw [same_iff]
    exact (printable f (split ▸ List.mem_append_right _ List.mem_cons_self)).asRead_same

theorem check_of_writeRegistry_rewritten :
    ∃ p s t files, run (Package.writeRegistry p) s = (.ok files, t) ∧
      answer p.check t = .ok (.verified 1) ∧
      ∃ path, path.same (ofString "pkg/a b") ∧
        answer p.check (t.after [.write (ofString "/r/pkg/a b") [0x32]]) =
          .error (.mismatch path (digest [0x31]) (digest [0x32])) := by
  let p : Package := { root := ofString "/r" }
  let s : Memory := (({} : Memory).writeFile (ofString "/r/pkg/a b") [0x31]).2
  let t : Memory := (run p.writeRegistry s).2
  let u : Memory := t.after [.write (ofString "/r/pkg/a b") [0x32]]
  let f : ListedFile := ⟨ofString "pkg/a b", digest [0x31]⟩
  have answered : (run p.writeRegistry s).1 = .ok [f] := by decide +kernel
  have written : run p.writeRegistry s = (.ok [f], t) := Prod.ext answered rfl
  have recordable : ∀ g ∈ [f], Recordable g.path := by
    intro g hg
    rw [List.mem_singleton.mp hg]
    exact ⟨by decide, by decide, by decide, by decide⟩
  obtain ⟨verified, later⟩ := check_of_writeRegistry rfl (by decide +kernel) written recordable
  have there : u.get? (p.root.join f.path) = some (.file [0x32]) := by decide +kernel
  have lost : ¬ Intact p.root u f := by
    rintro ⟨data, held, matching⟩
    rw [there] at held
    cases held
    exact absurd matching (by decide +kernel)
  have untouched : u.fileContent p.registryPath = t.fileContent p.registryPath := by decide +kernel
  obtain ⟨path, same, told⟩ := (later _ untouched).2 [] f [] rfl (by simp) lost
  refine ⟨p, s, t, [f], written, verified, path, same, told.trans ?_⟩
  rw [loss, there]

end Stowage.Package
