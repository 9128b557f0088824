import Stowage.Proofs.Package.Check
import Stowage.Proofs.Registry.Grammar
import Stowage.Proofs.Storage.Footprint
import Stowage.Proofs.Storage.History

/-! The check of a package looks at nothing outside of its directory, whatever the registry lists:
what is stored or denied elsewhere bears on no answer. -/
namespace Stowage.Package

open Memory Stowage.Path

variable {root : Path} {files : List ListedFile}

theorem below_join {q : Path} (h : q.Plain) : root.components <+: (root.join q).components :=
  ⟨q.components, (components_join_of_plain h).symm⟩

theorem readsBelow_load (root : Path) : ReadsBelow root (Registry.load root) := by
  refine (readsBelow_read (below_join (by decide))).caught.bind fun readings => ?_
  split
  · split
    · exact (ReadsBelow.note _).bind fun _ => .pure _
    · exact .throw _
  · split
    · exact (ReadsBelow.settled _).bind fun _ => .pure _
    · exact .throw _

theorem exists_parse_of_load {s : Memory} (h : answer (Registry.load root) s = .ok (some files)) :
    ∃ text, Registry.parse text = .ok files := by
  obtain ⟨t, ran⟩ := answer_eq_ok.mp h
  unfold Registry.load at ran
  obtain ⟨readings, u, -, ran⟩ := run_bind_ok.mp ran
  split at ran
  · split at ran
    · obtain ⟨_, _, -, ran⟩ := run_bind_ok.mp ran
      cases ran
    · cases ran
  · split at ran
    · rename_i text _
      obtain ⟨listed, _, parsed, ran⟩ := run_bind_ok.mp ran
      cases ran
      refine ⟨text, ?_⟩
      have settled : Registry.parseText text = .ok files := congrArg Prod.fst parsed
      unfold Registry.parseText at settled
      split at settled
      · rename_i parsed
        cases settled
        exact parsed
      · cases settled
    · cases ran

theorem readsBelow_verifyFile {file : ListedFile} (plain : file.path.Plain) :
    ReadsBelow root (Registry.verifyFile root file) := by
  refine ((readsBelow_openFile (below_join plain)).adapt _).bind fun handle =>
    (ReadsBelow.failingOn (.settled _) _).bind fun actual => ?_
  split
  · exact .throw _
  · exact .pure _

theorem readsBelow_verify (plain : ∀ f ∈ files, f.path.Plain) :
    ReadsBelow root (Registry.verify root files) := by
  have each : ReadsBelow root (Registry.verifyAll root files) := by
    induction files with
    | nil => exact .pure _
    | cons file rest ih =>
      exact (readsBelow_verifyFile (plain file List.mem_cons_self)).bind fun _ =>
        ih fun f hf => plain f (List.mem_cons_of_mem _ hf)
  exact each.bind fun _ => .note _

theorem readsBelow_check (p : Package) : ReadsBelow p.root p.check := by
  have directory : p.root.components <+: p.directory.components := below_join (by decide)
  unfold check
  refine ((readsBelow_isDirectory directory).failingOn _).bind fun present => ?_
  dsimp only
  split
  · exact .throw _
  · split
    · exact (ReadsBelow.note _).bind fun _ => .pure _
    · refine (readsBelow_load _).bind_of_answer (fun found => ?_) fun s found loaded => ?_
      · split
        · exact (ReadOnly.note _).bind fun _ => .pure _
        · exact readOnly_verified _ _
      · split
        · exact (ReadsBelow.note _).bind fun _ => .pure _
        -- Not every list of files leads below the directory, but one that was loaded does.
        · obtain ⟨text, parsed⟩ := exists_parse_of_load loaded
          exact (readsBelow_verify fun f hf =>
            (Registry.plain_of_parse parsed f hf).2).bind fun _ => .pure _

/-- Memories that agree below the directory of a package are the same to its check, and no registry
that can be read lists a path that leads elsewhere. -/
theorem check_contained (p : Package) :
    (∀ s t, AgreeBelow p.root s t → answer p.check t = answer p.check s) ∧
      ∀ text files, Registry.parse text = .ok files → ∀ f ∈ files, f.path.components ≠ [] ∧
      f.path.Plain :=
  ⟨fun _ _ agreed => (readsBelow_check p).agree agreed, fun _ _ parsed =>
    Registry.plain_of_parse parsed⟩

theorem check_contained_dotted :
    ∃ s t text files, AgreeBelow (ofString "/r") s t ∧
    t.get? (ofString "/x") ≠ s.get? (ofString "/x") ∧
      s.fileContent (ofString "/r/checksum.txt") = .ok (Utf8.encode text) ∧
      answer (check { root := ofString "/r" }) s = .ok (.verified 1) ∧
      answer (check { root := ofString "/r" }) t = .ok (.verified 1) ∧
      Registry.parse text = .ok files ∧ ∀ f ∈ files, f.path.components ≠ [] ∧ f.path.Plain := by
  let p : Package := { root := ofString "/r" }
  let text : List Char := (digest [0x31]).toList ++ "  ./pkg//a\n".toList
  let f : ListedFile := ⟨ofString "pkg/a", digest [0x31]⟩
  let s : Memory := ({} : Memory).after
    [.write (ofString "/r/pkg/a") [0x31], .write (ofString "/r/checksum.txt") (Utf8.encode text)]
  let t : Memory :=
    { s with nodes := s.nodes.insert (ofString "/x") (.file []), denied := [ofString "/x"] }
  have apart (q : Path) (below : p.root.components <+: q.components) :
      (ofString "/x").same q = false := by
    refine Bool.eq_false_iff.mpr fun same => ?_
    rw [← same_iff.mp same] at below
    exact absurd below (by decide)
  have agreed : AgreeBelow p.root s t := by
    refine ⟨fun q below => ?_, fun q below => ?_⟩
    · change (s.nodes.insert (ofString "/x") (.file [])).get? q = _
      rw [Nodes.get?_insert, apart q below]
      rfl
    · change ([ofString "/x"].any fun key => key.same q) = _
      rw [List.any_cons, apart q below]
      rfl
  have verified : answer p.check s = .ok (.verified 1) := by decide +kernel
  have parsed : Registry.parse text = .ok [f] := by decide +kernel
  obtain ⟨same, plain⟩ := check_contained p
  exact ⟨s, t, text, [f], agreed, by decide +kernel, by decide +kernel, verified,
    (same s t agreed).trans verified, parsed, plain text [f] parsed⟩

end Stowage.Package
