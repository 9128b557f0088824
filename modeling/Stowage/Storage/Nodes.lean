import Stowage.Path

/-! Nodes kept under paths, in the strict order of the paths, so that no two of them have the same
components. A node that replaces another one stays under the spelling of the first. What is found
after an insertion or a removal is told by `get?_insert` and `get?_erase`. -/
namespace Stowage

inductive Node
  | file (data : Bytes)
  | directory
deriving DecidableEq

structure Nodes where
  entries : List (Path × Node)
  ordered : entries.Pairwise fun a b => a.1.compare b.1 = .lt
deriving DecidableEq

namespace Nodes

def lookup (path : Path) (entries : List (Path × Node)) : Option Node :=
  (entries.find? fun entry => entry.1.same path).map Prod.snd

def insertInto (path : Path) (node : Node) : List (Path × Node) → List (Path × Node)
  | [] => [(path, node)]
  | entry :: rest =>
    match path.compare entry.1 with
    | .lt => (path, node) :: entry :: rest
    | .eq => (entry.1, node) :: rest
    | .gt => entry :: insertInto path node rest

theorem key_of_mem_insertInto {path : Path} {node : Node} {entries : List (Path × Node)}
    {a : Path × Node} (h : a ∈ insertInto path node entries) :
    a.1 = path ∨ ∃ b ∈ entries, b.1 = a.1 := by
  induction entries with
  | nil =>
    rw [insertInto, List.mem_singleton] at h
    exact .inl (congrArg Prod.fst h)
  | cons entry rest ih =>
    rw [insertInto] at h
    split at h
    · rcases List.mem_cons.mp h with rfl | h
      · exact .inl rfl
      · exact .inr ⟨a, h, rfl⟩
    · rcases List.mem_cons.mp h with rfl | h
      · exact .inr ⟨entry, List.mem_cons_self, rfl⟩
      · exact .inr ⟨a, List.mem_cons_of_mem _ h, rfl⟩
    · rcases List.mem_cons.mp h with rfl | h
      · exact .inr ⟨a, List.mem_cons_self, rfl⟩
      · rcases ih h with h | ⟨b, hb, h⟩
        · exact .inl h
        · exact .inr ⟨b, List.mem_cons_of_mem _ hb, h⟩

theorem insertInto_ordered {path : Path} {node : Node} {entries : List (Path × Node)}
    (h : entries.Pairwise fun a b => a.1.compare b.1 = .lt) :
    (insertInto path node entries).Pairwise fun a b => a.1.compare b.1 = .lt := by
  induction entries with
  | nil => exact List.pairwise_singleton ..
  | cons entry rest ih =>
    obtain ⟨first, others⟩ := List.pairwise_cons.mp h
    rw [insertInto]
    split
    · rename_i before
      refine List.pairwise_cons.mpr ⟨fun a ha => ?_, h⟩
      rcases List.mem_cons.mp ha with rfl | ha
      · exact before
      · exact Std.TransCmp.lt_trans before (first a ha)
    · exact List.pairwise_cons.mpr ⟨first, others⟩
    · rename_i behind
      refine List.pairwise_cons.mpr ⟨fun a ha => ?_, ih others⟩
      rcases key_of_mem_insertInto ha with h | ⟨b, hb, h⟩
      · rw [h]
        exact Std.OrientedCmp.lt_of_gt behind
      · rw [← h]
        exact first b hb

def empty : Nodes := ⟨[], List.Pairwise.nil⟩

def get? (n : Nodes) (path : Path) : Option Node := lookup path n.entries

def insert (n : Nodes) (path : Path) (node : Node) : Nodes :=
  ⟨insertInto path node n.entries, insertInto_ordered n.ordered⟩

def erase (n : Nodes) (path : Path) : Nodes :=
  ⟨n.entries.filter fun entry => !entry.1.same path, n.ordered.filter _⟩

def size (n : Nodes) : Nat := n.entries.length

theorem lookup_cons (q : Path) (entry : Path × Node) (rest : List (Path × Node)) :
    lookup q (entry :: rest) = if entry.1.same q then some entry.2 else lookup q rest := by
  rw [lookup, List.find?_cons]
  cases entry.1.same q <;> rfl

theorem lookup_insertInto (path q : Path) (node : Node) (entries : List (Path × Node)) :
    lookup q (insertInto path node entries) = if path.same q then some node
      else lookup q entries := by
  induction entries with
  | nil => rw [insertInto, lookup_cons]
  | cons entry rest ih =>
    rw [insertInto]
    split
    · rw [lookup_cons]
    · rename_i level
      rw [lookup_cons, lookup_cons, Path.same_congr (Path.same_iff_compare.mpr level)]
      split <;> rfl
    · rename_i behind
      rw [lookup_cons, lookup_cons, ih]
      by_cases there : entry.1.same q
      · have apart : ¬ path.same q := by
          intro same
          have level :=
            Path.same_iff_compare.mp ((Path.same_comm ..).trans
              ((Path.same_congr there _).trans ((Path.same_comm ..).trans same)))
          exact absurd (level.symm.trans behind) (by decide)
        rw [if_pos there, if_neg apart, if_pos there]
      · rw [if_neg there, if_neg there]

theorem lookup_filter (path q : Path) (entries : List (Path × Node)) :
    lookup q (entries.filter fun entry => !entry.1.same path) = if path.same q then none
      else lookup q entries := by
  induction entries with
  | nil => split <;> rfl
  | cons entry rest ih =>
    rw [List.filter_cons, lookup_cons]
    by_cases gone : entry.1.same path
    · rw [if_neg (by simp [gone]), ih, Path.same_congr gone]
      split <;> rfl
    · rw [if_pos (by simp [gone]), lookup_cons, ih]
      by_cases there : entry.1.same q
      · have apart : ¬ path.same q :=
          fun same => gone (by rw [Path.same_comm, Path.same_congr same, Path.same_comm, there])
        rw [if_pos there, if_neg apart, if_pos there]
      · rw [if_neg there, if_neg there]

theorem get?_insert (n : Nodes) (path q : Path) (node : Node) :
    (n.insert path node).get? q = if path.same q then some node else n.get? q :=
  lookup_insertInto ..

theorem get?_erase (n : Nodes) (path q : Path) :
    (n.erase path).get? q = if path.same q then none else n.get? q :=
  lookup_filter ..

end Nodes
end Stowage
