import Stowage.Proofs.Storage.Memory

/-! Whatever operations follow one another, no access is granted or denied by them, and a directory
stays one. -/
namespace Stowage.Memory

variable {s : Memory} {q path : Path}

inductive Operation
  | exists? (path : Path)
  | isDirectory (path : Path)
  | isFile (path : Path)
  | openFile (path : Path)
  | read (path : Path)
  | write (path : Path) (data : Bytes)
  | createDirectory (path : Path)
  | readDirectory (path : Path)
  | removeFile (path : Path)
deriving DecidableEq

def Operation.apply (s : Memory) : Operation → Memory
  | .exists? path => (run (Storage.exists? path) s).2
  | .isDirectory path => (run (Storage.isDirectory path) s).2
  | .isFile path => (run (Storage.isFile path) s).2
  | .openFile path => (run (Storage.openFile path) s).2
  | .read path => (run (Storage.read path) s).2
  | .write path data => (run (Storage.write path data) s).2
  | .createDirectory path => (run (Storage.createDirectory path) s).2
  | .readDirectory path => (run (Storage.readDirectory path) s).2
  | .removeFile path => (run (Storage.removeFile path) s).2

def after (s : Memory) (operations : List Operation) : Memory := operations.foldl Operation.apply s

/-- The same accesses are denied, and every directory is still one. -/
structure Kept (s t : Memory) : Prop where
  denied : t.denied = s.denied
  directory (path : Path) : s.get? path = some .directory → t.get? path = some .directory

theorem Kept.refl (s : Memory) : Kept s s := ⟨rfl, fun _ h => h⟩

theorem Kept.trans {t u : Memory} (h : Kept s t) (k : Kept t u) : Kept s u :=
  ⟨k.denied.trans h.denied, fun path there => k.directory path (h.directory path there)⟩

theorem ReadOnly.kept {ε α : Type} {act : ExceptT ε (StateM Memory) α} (h : ReadOnly act)
    (s : Memory) :
    Kept s (run act s).2 := by
  obtain ⟨n, left⟩ := h.leaves s
  rw [left]
  exact ⟨rfl, fun _ there => there⟩

theorem kept_put {node : Node} (h : s.get? path = some .directory → node = .directory) :
    Kept s (s.put path node).2 := by
  have grown := grown_insertAncestors s.nodes path.ancestors
  unfold put
  split
  · rename_i nodes eq
    rw [eq] at grown
    exact ⟨rfl, fun q there => grown.1 q _ there⟩
  · rename_i nodes eq
    rw [eq] at grown
    refine ⟨rfl, fun q there => ?_⟩
    change (nodes.insert path node).get? q = _
    rw [Nodes.get?_insert]
    split
    · rename_i same
      rw [h ((get?_congr same).trans there)]
    · exact grown.1 q _ there

theorem kept_writeFile (s : Memory) (path : Path) (data : Bytes) :
    Kept s (s.writeFile path data).2 := by
  unfold writeFile
  split
  · exact .refl s
  · exact .refl s
  · rename_i apart
    exact kept_put fun there => absurd there apart

theorem kept_createDirectory (s : Memory) (path : Path) : Kept s (s.createDirectory path).2 := by
  unfold createDirectory
  split
  · exact .refl s
  · exact .refl s
  · exact kept_put fun _ => rfl

theorem kept_removeFile (s : Memory) (path : Path) : Kept s (s.removeFile path).2 := by
  unfold removeFile
  split
  · exact .refl s
  · rename_i data _ file
    refine ⟨rfl, fun q there => ?_⟩
    change (s.nodes.erase path).get? q = _
    rw [Nodes.get?_erase, if_neg]
    -- A file is removed, so that the directory asked for is another node.
    · exact there
    · intro same
      rw [(get?_congr same).trans there] at file
      cases file
  · exact .refl s
  · exact .refl s

theorem kept_apply (s : Memory) (operation : Operation) : Kept s (operation.apply s) := by
  cases operation with
  | exists? path => exact (readOnly_exists? path).kept s
  | isDirectory path => exact (readOnly_isDirectory path).kept s
  | isFile path => exact (readOnly_isFile path).kept s
  | openFile path => exact (readOnly_openFile path).kept s
  | read path => exact (readOnly_read path).kept s
  | write path data => exact kept_writeFile s path data
  | createDirectory path => exact kept_createDirectory s path
  | readDirectory path => exact (readOnly_readDirectory path).kept s
  | removeFile path => exact kept_removeFile s path

theorem kept_after (s : Memory) (operations : List Operation) : Kept s (s.after operations) := by
  induction operations generalizing s with
  | nil => exact .refl s
  | cons operation operations ih => exact (kept_apply s operation).trans (ih _)

end Stowage.Memory
