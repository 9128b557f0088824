import Stowage.Proofs.Backup.Catalogue
import Stowage.Proofs.Backup.Create
import Stowage.Proofs.Backup.RoundTrip
import Stowage.Proofs.Package.Containment

/-! An archive stays as it was made, whatever is called after that. New archives are put where
nothing is, and the two other files that are written do not have the extension. -/
namespace Stowage.Backup

open Memory Stowage.Path

variable {s t u : Memory} {p q directory backups : Path} {now : Moment} {c : CreatedBackup}

inductive Call
  | create (directory backups : Path) (now : Moment)
  | save (i : Instance) (directory : Path)
  | writeRegistry (p : Package)
  | check (p : Package)
  | list (directory : Path)
  | inspect (archive : Path)

def Call.apply (s : Memory) : Call → Memory
  | .create directory backups now => (run (Backup.create directory backups now) s).2
  | .save i directory => (run (i.save directory) s).2
  | .writeRegistry p => (run p.writeRegistry s).2
  | .check p => (run p.check s).2
  | .list directory => (run (Backup.list directory) s).2
  | .inspect archive => (run (Backup.inspect archive) s).2

def afterCalls (calls : List Call) (s : Memory) : Memory := calls.foldl Call.apply s

/-- A file under the path, if there is one, stays as it is, and so do all denials. -/
structure FileKept (p : Path) (s t : Memory) : Prop where
  denied : t.denied = s.denied
  file (data : Bytes) : s.get? p = some (.file data) → t.get? p = some (.file data)

theorem FileKept.refl (p : Path) (s : Memory) : FileKept p s s := ⟨rfl, fun _ h => h⟩

theorem FileKept.trans (h : FileKept p s t) (k : FileKept p t u) : FileKept p s u :=
  ⟨k.denied.trans h.denied, fun data there => k.file data (h.file data there)⟩

theorem fileKept_withOpens (p : Path) (s : Memory) (n : Nat) : FileKept p s (s.withOpens n) :=
  ⟨rfl, fun _ h => h⟩

theorem fileKept_of_readOnly {ε α : Type} {act : ExceptT ε (StateM Memory) α} (h : ReadOnly act)
    (p : Path) (s : Memory) :
    FileKept p s (run act s).2 := by
  obtain ⟨n, left⟩ := h.leaves s
  rw [left]
  exact fileKept_withOpens p s n

theorem fileKept_writeFile {data : Bytes}
    (apart : ∀ data, s.get? p = some (.file data) → ¬ q.same p) :
    FileKept p s (s.writeFile q data).2 := by
  have denied := (kept_writeFile s q data).denied
  refine ⟨denied, fun held there => ?_⟩
  have grown := (grown_insertAncestors s.nodes q.ancestors).1 p _ there
  unfold writeFile
  split
  · exact there
  · exact there
  · unfold put
    split
    · rename_i nodes eq
      rw [eq] at grown
      exact grown
    · rename_i nodes eq
      rw [eq] at grown
      change (nodes.insert q (.file data)).get? p = _
      rw [Nodes.get?_insert, if_neg (apart held there)]
      exact grown

theorem fileKept_create (p directory backups : Path) (now : Moment) (s : Memory) :
    FileKept p s (run (create directory backups now) s).2 := by
  rcases create_cases directory backups now s with
    ⟨e, n, failed⟩ | ⟨i, files, bytes, path, n, draft, rfl, ran⟩
  · rw [failed]
    exact fileKept_withOpens p s n
  · rw [ran]
    apply (fileKept_withOpens p s n).trans
    apply fileKept_writeFile
    intro held there same
    have absent : (s.withOpens n).get? p = none := (get?_congr same).symm.trans draft.absent
    rw [absent] at there
    cases there

theorem not_same_of_hasExtension {base : Path} {name : Bytes} (archive : hasExtension p)
    (other : (extensionOf? name == some (Utf8.ofString backupExtension)) = false)
    (last : q.components = base.components ++ [.name name]) : ¬ q.same p := by
  intro same
  have own : p.fileName? = some name := by
    rw [fileName?, ← same_iff.mp same, last, List.getLast?_concat]
  rw [hasExtension, extension?, own, Option.bind_some, other] at archive
  cases archive

theorem fileKept_save (archive : hasExtension p) (i : Instance) (directory : Path) (s : Memory) :
    FileKept p s (run (i.save directory) s).2 := by
  have apart : ¬ (directory.joinText stateFileName).same p :=
    not_same_of_hasExtension archive (by decide) (components_statePath directory)
  exact fileKept_writeFile fun _ _ => apart

theorem fileKept_writeRegistry (archive : hasExtension p) (package : Package) (s : Memory) :
    FileKept p s (run package.writeRegistry s).2 := by
  have apart : ¬ package.registryPath.same p :=
    not_same_of_hasExtension archive (by decide) package.components_registryPath
  rcases package.writeRegistry_cases s with ⟨e, n, failed⟩ | ⟨files, n, -, ran⟩
  · rw [failed]
    exact fileKept_withOpens p s n
  · rw [ran]
    exact (fileKept_withOpens p s n).trans (fileKept_writeFile fun _ _ => apart)

theorem fileKept_apply (archive : hasExtension p) (s : Memory) (call : Call) :
    FileKept p s (call.apply s) := by
  cases call with
  | create directory backups now => exact fileKept_create p directory backups now s
  | save i directory => exact fileKept_save archive i directory s
  | writeRegistry package => exact fileKept_writeRegistry archive package s
  | check package => exact fileKept_of_readOnly (Package.readsBelow_check package).toReadOnly p s
  | list directory => exact fileKept_of_readOnly (readOnly_list directory) p s
  | inspect path => exact fileKept_of_readOnly (readOnly_inspect path) p s

theorem fileKept_afterCalls (archive : hasExtension p) (calls : List Call) (s : Memory) :
    FileKept p s (afterCalls calls s) := by
  induction calls generalizing s with
  | nil => exact .refl p s
  | cons call calls ih => exact (fileKept_apply archive s call).trans (ih _)

/-- An archive that was made holds the same octets after all later calls, and the same is said of
it. -/
theorem inspect_afterCalls (created : run (create directory backups now) s = (.ok c, t)) :
    ∃ bs, t.get? c.path = some (.file bs) ∧ ∀ calls,
      (afterCalls calls t).get? c.path = some (.file bs) ∧
        answer (Storage.read c.path) (afterCalls calls t) = .ok bs ∧
        answer (inspect c.path) (afterCalls calls t) = answer (inspect c.path) t := by
  obtain ⟨i, files, bs, made⟩ := create_eq_ok created
  obtain ⟨n, wrote⟩ := made.stored
  obtain ⟨fine, there⟩ := fileContent_eq_ok.mp (fileContent_writeFile wrote)
  have archive : hasExtension c.path := by
    rw [made.path, made.backup]
    exact hasExtension_joinText backups i.id made.since
  refine ⟨bs, there, fun calls => ?_⟩
  have kept := fileKept_afterCalls archive calls t
  have later := kept.file bs there
  have denied : (afterCalls calls t).isDenied c.path = t.isDenied c.path := by
    rw [isDenied, isDenied, kept.denied]
  refine ⟨later, ?_, (alike_inspect (later.trans there.symm) denied).same⟩
  rw [answer_read]
  exact fileContent_eq_ok.mpr ⟨denied.trans fine, later⟩

theorem inspect_afterCalls_node :
    ∃ s c t bs calls, run (create (ofString "/i") (ofString "/b") .epoch) s = (.ok c, t) ∧
      c.path = ofString "/b/node-1-0.tar" ∧ calls.length = 3 ∧
      (afterCalls calls t).get? c.path = some (.file bs) ∧
      answer (inspect c.path) (afterCalls calls t) = answer (inspect c.path) t := by
  let i : Instance := { name := "node", tag := "1", url := "u", version := "2", commit := "c" }
  let s : Memory := (({} : Memory).writeFile (ofString "/i/state.json") i.toJson).2
  -- The same again, a state below the archive, and a registry next to it.
  let calls : List Call :=
    [.create (ofString "/i") (ofString "/b/.") .epoch, .save i (ofString "/b/node-1-0.tar"),
      .writeRegistry { root := ofString "/b" }]
  have ran :
      ((run (create (ofString "/i") (ofString "/b") .epoch) s).1.toOption.map CreatedBackup.path) =
      some (ofString "/b/node-1-0.tar") := by decide +kernel
  rcases created : run (create (ofString "/i") (ofString "/b") .epoch) s with ⟨_ | c, t⟩
  · rw [created] at ran
    cases ran
  · rw [created] at ran
    have path : c.path = ofString "/b/node-1-0.tar" := Option.some.inj ran
    obtain ⟨bs, -, kept⟩ := inspect_afterCalls created
    obtain ⟨later, -, same⟩ := kept calls
    exact ⟨s, c, t, bs, calls, created, path, rfl, later, same⟩

end Stowage.Backup
