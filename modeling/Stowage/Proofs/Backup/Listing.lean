import Stowage.Proofs.Backup.Catalogue
import Stowage.Proofs.Storage.Creation
import Stowage.Proofs.Storage.Traversal

/-! The catalogue of a directory against all that is stored: it has a backup for each file right in
the directory that has the name of one, as often as there is such a file, and nothing else. Which
files those are is told by the kinds of nodes and their paths, so that the order in which files were
created is not seen. -/
namespace Stowage.Backup

open BackupName Memory Stowage.Path

variable {s t : Memory} {directory : Path} {p q : Path}

theorem toOption_parse (name : String) : (parse name).toOption = ofText? name.toList := by
  rw [parse]
  cases ofText? name.toList <;> rfl

theorem storedNames_eq_filesIn (s : Memory) (directory : Path) :
    storedNames s.nodes directory =
      (s.filesIn directory).filterMap fun file => file.1.fileNameText?.bind fun name =>
      (parse name).toOption := by
  simp only [toOption_parse]
  rw [storedNames, filesIn, nodesIn, List.filterMap_filterMap, List.filterMap_filter]
  refine List.filterMap_congr ?_
  rintro ⟨path, _ | _⟩ -
  · rfl
  · by_cases child : isChild directory path <;> simp [child, storedName?, fileOf?]

theorem isChild_congr (h : p.same q) : isChild directory p = isChild directory q := by
  rw [Bool.eq_iff_iff, isChild_iff, isChild_iff, same_iff.mp h]

theorem nameAt?_congr (h : p.same q) : nameAt? p = nameAt? q := by
  rw [nameAt?, nameAt?, fileNameText?, fileNameText?, fileName?, fileName?, same_iff.mp h]

theorem storedName?_congr {a b : Path × Node} (same : a.1.same b.1) (kind : a.2.kind = b.2.kind) :
    storedName? directory a = storedName? directory b := by
  obtain ⟨p, _ | _⟩ := a <;> obtain ⟨q, _ | _⟩ := b
  · rw [storedName?, storedName?, isChild_congr same, nameAt?_congr same]
  · cases kind
  · cases kind
  · rfl

theorem storedNames_congr (h : SameKinds s t) :
    storedNames t.nodes directory = storedNames s.nodes directory := by
  have level := h.entries
  rw [storedNames, storedNames]
  generalize t.nodes.entries = after, s.nodes.entries = before at level
  induction level with
  | nil => rfl
  | cons alike _ ih =>
    rw [List.filterMap_cons, List.filterMap_cons, storedName?_congr alike.1 alike.2, ih]

theorem answer_list_congr (h : SameKinds s t) (directory : Path) :
    answer (list directory) t = answer (list directory) s := by
  have kind := h.kinds directory
  rw [answer_list_cases, answer_list_cases, storedNames_congr h, isDenied, isDenied, h.denied]
  rw [kind?, kind?] at kind
  generalize s.get? directory = before, t.get? directory = after at kind
  rcases before with _ | _ | _ <;> rcases after with _ | _ | _ <;> first | rfl | cases kind

/-- The catalogue is empty where nothing is, and fails on what is denied or no directory. Of a
directory it has what the names of its files say, by age, and as often as they say it. The extension
passes over none of them. The same files created in another order give the same catalogue. -/
theorem list_exact (s : Memory) (directory : Path) :
    (∃ names : List BackupName,
      answer (list directory) s =
        (if s.isDenied directory then .error (.io directory (.denied directory))
        else match s.get? directory with
          | none => .ok []
          | some (.file _) => .error (.io directory (.notDirectory directory))
          | some .directory => .ok names) ∧
      names.Pairwise (fun a b => (a.compareAge b).isLE) ∧
      names.Perm ((s.filesIn directory).filterMap fun file =>
        file.1.fileNameText?.bind fun name => (parse name).toOption)) ∧
    (∀ path name n, path.fileNameText? = some name → parse name = .ok n → hasExtension path) ∧
    ∀ files files' t, files.Perm files' → run (writeAll files) s = (.ok (), t) →
      ∃ t', run (writeAll files') s = (.ok (), t') ∧
      answer (list directory) t' = answer (list directory) t := by
  refine ⟨⟨byAge (storedNames s.nodes directory), answer_list_cases directory s, byAge_pairwise _,
    ?_⟩, ?_, ?_⟩
  · rw [← storedNames_eq_filesIn]
    exact byAge_perm _
  · intro path name n text parsed
    exact hasExtension_of_nameAt? (Option.bind_eq_some_iff.mpr ⟨name, text, parse_eq_ok.mp parsed⟩)
  · intro files files' t perm wrote
    obtain ⟨t', wrote', same⟩ := writeAll_perm perm wrote
    exact ⟨t', wrote', answer_list_congr same directory⟩

/-- Written forth and back, next to a file that is all extension and one that is no archive. -/
theorem list_exact_reversed :
    ∃ files t t', files = [(ofString "/b/node-90.tar", []), (ofString "/b//node-07.tar", [1]),
        (ofString "/b/.tar", []), (ofString "/b/node-7", [])] ∧
      run (writeAll files) {} = (.ok (), t) ∧ run (writeAll files.reverse) {} = (.ok (), t') ∧
      answer (list (ofString "/b")) t = .ok [⟨"node", { seconds := 7, nanos := 0 }⟩,
        ⟨"node", { seconds := 90, nanos := 0 }⟩] ∧
      answer (list (ofString "/b")) t' = .ok [⟨"node", { seconds := 7, nanos := 0 }⟩,
        ⟨"node", { seconds := 90, nanos := 0 }⟩] := by
  let files : List (Path × Bytes) :=
    [(ofString "/b/node-90.tar", []), (ofString "/b//node-07.tar", [1]), (ofString "/b/.tar", []),
      (ofString "/b/node-7", [])]
  let t : Memory := (run (writeAll files) {}).2
  have wrote : run (writeAll files) {} = (.ok (), t) := Prod.ext (by decide +kernel) rfl
  have stored : storedNames t.nodes (ofString "/b") =
      [⟨"node", { seconds := 7, nanos := 0 }⟩, ⟨"node", { seconds := 90, nanos := 0 }⟩] := by
        decide +kernel
  have listed :=
    answer_list_of_pairwise (s := t) (by decide +kernel) (by decide +kernel) stored
      (by decide +kernel)
  obtain ⟨-, -, reordered⟩ := list_exact {} (ofString "/b")
  obtain ⟨t', wrote', same⟩ := reordered files files.reverse t (List.reverse_perm files).symm wrote
  exact ⟨files, t, t', rfl, wrote, wrote', listed, same.trans listed⟩

end Stowage.Backup
