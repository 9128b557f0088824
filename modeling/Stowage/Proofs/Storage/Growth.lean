import Stowage.Proofs.Storage.Atomicity
import Stowage.Proofs.Storage.Shape

/-! What a file that is written adds to the nodes: itself, and directories for those of its
ancestors that are missing. All other files stay as they are. -/
namespace Stowage

namespace Nodes

theorem insertInto_perm {path : Path} {node : Node} {entries : List (Path × Node)}
    (absent : lookup path entries = none) :
    (insertInto path node entries).Perm ((path, node) :: entries) := by
  induction entries with
  | nil => exact .refl _
  | cons entry rest ih =>
    rw [lookup_cons] at absent
    have apart : ¬ entry.1.same path := fun same => by
      rw [if_pos same] at absent
      cases absent
    rw [if_neg apart] at absent
    rw [insertInto]
    split
    · exact .refl _
    · rename_i level
      rw [Path.same_comm] at apart
      exact absurd (Path.same_iff_compare.mpr level) apart
    · exact ((ih absent).cons entry).trans (.swap _ _ _)

theorem insertInto_insertInto (path : Path) (first second : Node) (entries : List (Path × Node)) :
    insertInto path second (insertInto path first entries) = insertInto path second entries := by
  have level : path.compare path = .eq := Std.ReflCmp.compare_self
  induction entries with
  | nil => simp [insertInto, level]
  | cons entry rest ih => cases order : path.compare entry.1 <;> simp [insertInto, order, level, ih]

theorem insert_insert (n : Nodes) (path : Path) (first second : Node) :
    (n.insert path first).insert path second = n.insert path second := by
  rw [insert, mk.injEq]
  exact insertInto_insertInto path first second n.entries

theorem filter_insertInto {path : Path} {keep : Path → Bool}
    (congr : ∀ q, path.same q → keep q = keep path) (out : keep path = false) (node : Node)
    (entries : List (Path × Node)) :
    ((insertInto path node entries).filter fun entry => keep entry.1) = entries.filter fun entry =>
      keep entry.1 := by
  induction entries with
  | nil => simp [insertInto, out]
  | cons entry rest ih =>
    rw [insertInto]
    split
    · rw [List.filter_cons_of_neg (by simp [out])]
    · rename_i level
      have gone : keep entry.1 = false :=
        (congr entry.1 (Path.same_iff_compare.mpr level)).trans out
      rw [List.filter_cons_of_neg (by simp [gone]), List.filter_cons_of_neg (by simp [gone])]
    · rw [List.filter_cons, List.filter_cons, ih]

end Nodes

namespace Memory

variable {s : Memory} {nodes : Nodes} {path : Path}

def withFile (s : Memory) (path : Path) (data : Bytes) : Memory :=
  { s with nodes := s.nodes.insert path (.file data) }

theorem get?_withFile (s : Memory) (path q : Path) (data : Bytes) :
    (s.withFile path data).get? q = if path.same q then some (.file data) else s.get? q :=
  Nodes.get?_insert ..

theorem insertAncestors_of_directories {ancestors : List Path}
    (above : ∀ a ∈ ancestors, a.isEmpty = false → nodes.get? a = some .directory) :
    insertAncestors nodes ancestors = (.ok (), nodes) := by
  induction ancestors with
  | nil => rfl
  | cons a rest ih =>
    have others := ih fun b hb => above b (List.mem_cons_of_mem _ hb)
    rw [insertAncestors]
    split
    · exact others
    · rename_i named
      rw [above a List.mem_cons_self (Bool.eq_false_iff.mpr named)]
      exact others

theorem writeFile_of_directories (above : ∀ a ∈ path.ancestors, a.isEmpty = false →
      s.get? a = some .directory) (data : Bytes) :
    s.writeFile path data =
      if s.isDenied path then (.error (.denied path), s)
      else if s.get? path = some .directory then (.error (.directory path), s)
      else (.ok (), s.withFile path data) := by
  have wrote : s.put path (.file data) = (.ok (), s.withFile path data) := by
    rw [put, insertAncestors_of_directories above]
    rfl
  rw [writeFile, allowed]
  split_ifs with denied there
  · rfl
  · rw [there]
  · rcases found : s.get? path with _ | _ | _
    · exact wrote
    · exact wrote
    · exact absurd found there

def madeDirectory (path : Path) : Path × Node := (path, .directory)

theorem insertAncestors_perm (nodes : Nodes) (ancestors : List Path) :
    ∃ made : List Path,
    (insertAncestors nodes ancestors).2.entries.Perm (made.map madeDirectory ++ nodes.entries) := by
  induction ancestors generalizing nodes with
  | nil => exact ⟨[], .refl _⟩
  | cons a rest ih =>
    rw [insertAncestors]
    split
    · exact ih nodes
    · split
      · exact ih nodes
      · exact ⟨[], .refl _⟩
      · rename_i absent
        obtain ⟨made, added⟩ := ih (nodes.insert a .directory)
        have first : (nodes.insert a .directory).entries.Perm (madeDirectory a :: nodes.entries) :=
          Nodes.insertInto_perm absent
        refine ⟨a :: made, added.trans ((first.append_left _).trans ?_)⟩
        exact List.perm_middle

theorem directory_of_insertAncestors {ancestors : List Path} {nodes' : Nodes}
    (h : insertAncestors nodes ancestors = (.ok (), nodes')) :
    ∀ a ∈ ancestors, a.isEmpty = false → nodes'.get? a = some .directory := by
  induction ancestors generalizing nodes with
  | nil => exact fun a ha => absurd ha List.not_mem_nil
  | cons first rest ih =>
    have grown := (grown_insertAncestors nodes rest).1
    rw [insertAncestors] at h
    rintro a ha named
    rcases List.mem_cons.mp ha with rfl | ha
    · rw [named] at h
      split at h
      · rename_i empty
        cases empty
      · split at h
        · rename_i there
          rw [h] at grown
          exact grown _ _ there
        · cases h
        · have grown := (grown_insertAncestors (nodes.insert a .directory) rest).1
          rw [h] at grown
          refine grown _ _ ?_
          rw [Nodes.get?_insert, if_pos (Path.same_iff.mpr rfl)]
    · split at h
      · exact ih h a ha named
      · split at h
        · exact ih h a ha named
        · cases h
        · exact ih h a ha named

theorem get?_insertAncestors_self (nodes : Nodes) (path : Path) :
    (insertAncestors nodes path.ancestors).2.get? path = nodes.get? path := by
  refine (get?_insertAncestors nodes path.ancestors path).2 ?_
  rintro ⟨-, a, before, -, same⟩
  have above : a ∈ path.ancestors := List.takeWhile_subset _ before
  exact Path.not_same_of_mem_ancestors above same

theorem writeFile_absent (data : Bytes) (fine : s.isDenied path = false)
    (absent : s.get? path = none) :
    ∃ made : List Path,
      (∃ e, (s.writeFile path data).1 = .error e) ∧
          (s.writeFile path data).2.nodes.entries.Perm (made.map madeDirectory ++ s.nodes.entries) ∨
        (s.writeFile path data).1 = .ok () ∧
          (s.writeFile path data).2.nodes.entries.Perm ((path,
            .file data) :: (made.map madeDirectory ++ s.nodes.entries)) ∧
          ∀ a ∈ path.ancestors, a.isEmpty = false →
          (s.writeFile path data).2.get? a = some .directory := by
  obtain ⟨made, added⟩ := insertAncestors_perm s.nodes path.ancestors
  have free := (get?_insertAncestors_self s.nodes path).trans absent
  have wrote : s.writeFile path data = s.put path (.file data) := by
    rw [writeFile, allowed_eq_ok.mpr fine, absent]
  rw [wrote, put]
  rcases eq : insertAncestors s.nodes path.ancestors with ⟨e | _, nodes⟩
  · rw [eq] at added
    exact ⟨made, .inl ⟨⟨e, rfl⟩, added⟩⟩
  · rw [eq] at added free
    have last :
        (nodes.insert path (.file data)).entries.Perm ((path, .file data) :: nodes.entries) :=
      Nodes.insertInto_perm free
    refine ⟨made, .inr ⟨rfl, last.trans (added.cons _), fun a above named => ?_⟩⟩
    change (nodes.insert path (.file data)).get? a = _
    have apart : ¬ path.same a := by
      rw [Path.same_comm]
      exact Path.not_same_of_mem_ancestors above
    rw [Nodes.get?_insert, if_neg apart]
    exact directory_of_insertAncestors eq a above named

end Memory
end Stowage
