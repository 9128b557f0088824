import Mathlib.Data.List.Forall2
import Stowage.Proofs.Order
import Stowage.Proofs.Storage.Growth

/-! Files that are created one after the other. Where files and directories are decides whether a
write succeeds and where they are after it, whatever the files hold. Two writes that succeed do so
in either order, and so do any number of them. -/
namespace Stowage

def Node.kind : Node → EntryKind
  | .file _ => .file
  | .directory => .directory

namespace Memory

open Stowage.Path

variable {s t u : Memory} {path p q : Path} {data : Bytes}

def kind? (s : Memory) (path : Path) : Option EntryKind := (s.get? path).map Node.kind

theorem kind?_congr (h : p.same q) : s.kind? p = s.kind? q := by rw [kind?, kind?, get?_congr h]

/-- A path other than the empty one that stands above another one, so that no file may be there. -/
def leadsTo (q path : Path) : Bool := path.ancestors.any fun a => !a.isEmpty && a.same q

theorem leadsTo_iff : leadsTo q path ↔ ∃ a ∈ path.ancestors, a.isEmpty = false ∧ a.same q := by
  simp [leadsTo]

theorem leadsTo_congr (h : p.same q) (path : Path) : leadsTo p path = leadsTo q path := by
  simp only [leadsTo, same_congr_right h]

theorem not_same_of_leadsTo (above : leadsTo q path) : ¬ path.same q := by
  intro same
  obtain ⟨a, mem, -, level⟩ := leadsTo_iff.mp above
  exact not_same_of_mem_ancestors mem (by rw [same_congr level, same_comm, same])

theorem blocks_eq_false_iff : blocks s.nodes p = false ↔
    (p.isEmpty = false → s.kind? p ≠ some .file) := by
  rw [blocks, kind?, get?]
  rcases s.nodes.get? p with _ | _ | _ <;> simp [Node.kind]

theorem exists_insertAncestors_iff {nodes : Nodes} {ancestors : List Path} :
    (∃ made, insertAncestors nodes ancestors = (.ok (), made)) ↔
    ∀ a ∈ ancestors, blocks nodes a = false := by
  induction ancestors generalizing nodes with
  | nil => simp [insertAncestors]
  | cons a rest ih =>
    rw [insertAncestors, List.forall_mem_cons]
    split
    · rename_i empty
      rw [ih]
      simp [blocks, empty]
    · rename_i named
      split
      · rename_i there
        rw [ih]
        simp [blocks, there]
      · rename_i there
        simp [blocks, there, named]
      · rename_i absent
        simp only [ih, blocks_insert absent]
        simp [blocks, absent]

/-- Where a file can be written: the access is allowed, no directory is there, and no file is
further up. -/
structure Vacant (s : Memory) (path : Path) : Prop where
  fine : s.isDenied path = false
  free : s.kind? path ≠ some .directory
  clear (q : Path) : leadsTo q path → s.kind? q ≠ some .file

theorem clear_iff : (∀ a ∈ path.ancestors, blocks s.nodes a = false) ↔ ∀ q, leadsTo q path →
    s.kind? q ≠ some .file := by
  simp only [blocks_eq_false_iff]
  constructor
  · intro clear q above
    obtain ⟨a, mem, named, same⟩ := leadsTo_iff.mp above
    rw [← kind?_congr same]
    exact clear a mem named
  · exact fun clear a mem named => clear a (leadsTo_iff.mpr ⟨a, mem, named, same_iff.mpr rfl⟩)

theorem exists_writeFile_iff : (∃ t, s.writeFile path data = (.ok (), t)) ↔ s.Vacant path := by
  have put : (∃ t, s.put path (.file data) = (.ok (), t)) ↔ ∀ q, leadsTo q path →
      s.kind? q ≠ some .file := by
    rw [← clear_iff, ← exists_insertAncestors_iff, Memory.put]
    rcases insertAncestors s.nodes path.ancestors with ⟨_ | _, nodes⟩ <;> simp
  have vacant : s.Vacant path ↔
      s.isDenied path = false ∧ s.kind? path ≠ some .directory ∧ ∀ q, leadsTo q path →
      s.kind? q ≠ some .file :=
    ⟨fun h => ⟨h.fine, h.free, h.clear⟩, fun h => ⟨h.1, h.2.1, h.2.2⟩⟩
  rw [vacant, ← put, writeFile, allowed, kind?]
  cases s.isDenied path
  · rcases s.get? path with _ | _ | _ <;> simp [Node.kind]
  · simp

section Written

variable (wrote : s.writeFile path data = (.ok (), t))
include wrote

theorem denied_writeFile : t.denied = s.denied := by rw [(writeFile_eq_ok wrote).2]

theorem kind?_writeFile (q : Path) :
    t.kind? q = if path.same q then some .file else if leadsTo q path then some .directory
      else s.kind? q := by
  obtain ⟨nodes, made⟩ :=
    exists_insertAncestors_iff.mpr (clear_iff.mpr (exists_writeFile_iff.mp ⟨t, wrote⟩).clear)
  have each := (get?_insertAncestors s.nodes path.ancestors q).2
  rw [kind?, get?_writeFile wrote]
  rw [made] at each ⊢
  split_ifs with same above
  · rfl
  · obtain ⟨a, mem, named, level⟩ := leadsTo_iff.mp above
    rw [← get?_nodes_congr level, directory_of_insertAncestors made a mem named]
    rfl
  · refine congrArg (Option.map Node.kind) (each ?_)
    rintro ⟨-, a, before, named, level⟩
    exact above (leadsTo_iff.mpr ⟨a, List.takeWhile_subset _ before, named, level⟩)

/-- A second file can be written where it could be before, unless one of the two paths leads to the
other. -/
theorem vacant_after_iff :
    t.Vacant q ↔ s.Vacant q ∧ leadsTo path q = false ∧ leadsTo q path = false := by
  have vacant := exists_writeFile_iff.mp ⟨t, wrote⟩
  have kinds := kind?_writeFile wrote
  have denied : t.isDenied q = s.isDenied q := by rw [isDenied, isDenied, denied_writeFile wrote]
  constructor
  · rintro ⟨fine, free, clear⟩
    have below : leadsTo path q = false := by
      refine Bool.eq_false_iff.mpr fun above => clear path above ?_
      rw [kinds, if_pos (same_iff.mpr rfl)]
    have apart : leadsTo q path = false := by
      refine Bool.eq_false_iff.mpr fun above => free ?_
      rw [kinds, if_neg (not_same_of_leadsTo above), if_pos above]
    refine ⟨⟨denied ▸ fine, fun there => ?_, fun a above held => ?_⟩, below, apart⟩
    · by_cases same : path.same q
      · exact vacant.free ((kind?_congr same).trans there)
      · exact free (by simp [kinds, same, apart, there])
    · by_cases up : leadsTo a path
      · exact vacant.clear a up held
      · exact clear a above (by simp [kinds, up, held])
  · rintro ⟨⟨fine, free, clear⟩, below, apart⟩
    refine ⟨denied ▸ fine, fun there => ?_, fun a above held => ?_⟩
    · by_cases same : path.same q
      · simp [kinds, same] at there
      · exact free (by simpa [kinds, same, apart] using there)
    · have other : ¬ path.same a := fun same => by
        rw [← leadsTo_congr same, below] at above
        cases above
      by_cases up : leadsTo a path
      · simp [kinds, other, up] at held
      · exact clear a above (by simpa [kinds, other, up] using held)

end Written

structure SameKinds (s t : Memory) : Prop where
  denied : t.denied = s.denied
  kinds (q : Path) : t.kind? q = s.kind? q

namespace SameKinds

theorem refl (s : Memory) : SameKinds s s := ⟨rfl, fun _ => rfl⟩

theorem trans (h : SameKinds s t) (k : SameKinds t u) : SameKinds s u :=
  ⟨k.denied.trans h.denied, fun q => (k.kinds q).trans (h.kinds q)⟩

theorem vacant (h : SameKinds s t) (free : s.Vacant path) : t.Vacant path where
  fine := by rw [isDenied, h.denied]; exact free.fine
  free := h.kinds path ▸ free.free
  clear q above := h.kinds q ▸ free.clear q above

theorem writeFile {s' : Memory} (h : SameKinds s t) (wrote : s.writeFile path data = (.ok (), s')) :
    ∃ t', t.writeFile path data = (.ok (), t') ∧ SameKinds s' t' := by
  obtain ⟨t', wrote'⟩ := exists_writeFile_iff.mpr (h.vacant (exists_writeFile_iff.mp ⟨s', wrote⟩))
  refine ⟨t', wrote', ?_, fun q => ?_⟩
  · rw [denied_writeFile wrote', denied_writeFile wrote, h.denied]
  · rw [kind?_writeFile wrote', kind?_writeFile wrote, h.kinds]

end SameKinds

theorem writeFile_swap {other : Bytes} (first : s.writeFile p data = (.ok (), u))
    (second : u.writeFile q other = (.ok (), t)) :
    ∃ u' t', s.writeFile q other = (.ok (), u') ∧ u'.writeFile p data = (.ok (), t') ∧
    SameKinds t t' := by
  obtain ⟨vacant, below, apart⟩ := (vacant_after_iff first).mp (exists_writeFile_iff.mp ⟨t, second⟩)
  obtain ⟨u', first'⟩ := exists_writeFile_iff.mpr vacant
  obtain ⟨t', second'⟩ := exists_writeFile_iff.mpr
    ((vacant_after_iff first').mpr ⟨exists_writeFile_iff.mp ⟨u, first⟩, apart, below⟩)
  refine ⟨u', t', first', second', ?_, fun a => ?_⟩
  · rw [denied_writeFile second', denied_writeFile first', denied_writeFile second,
      denied_writeFile first]
  · have leftApart : q.same a → leadsTo a p = false := fun same => by
      rw [← leadsTo_congr same, apart]
    have rightApart : p.same a → leadsTo a q = false := fun same => by
      rw [← leadsTo_congr same, below]
    rw [kind?_writeFile second', kind?_writeFile first', kind?_writeFile second,
      kind?_writeFile first]
    split_ifs <;> simp_all

def writeAll : List (Path × Bytes) → ExceptT Failure (StateM Memory) Unit
  | [] => return ()
  | file :: rest => do
    Storage.write file.1 file.2
    writeAll rest

theorem run_writeAll_cons {file : Path × Bytes} {rest : List (Path × Bytes)} :
    run (writeAll (file :: rest)) s = (.ok (), t) ↔
      ∃ u, s.writeFile file.1 file.2 = (.ok (), u) ∧ run (writeAll rest) u = (.ok (), t) := by
  rw [writeAll, run_bind_ok]
  constructor
  · rintro ⟨_, u, first, later⟩
    exact ⟨u, first, later⟩
  · rintro ⟨u, first, later⟩
    exact ⟨(), u, first, later⟩

theorem SameKinds.writeAll {files : List (Path × Bytes)} {s' : Memory} (h : SameKinds s t)
    (wrote : run (writeAll files) s = (.ok (), s')) :
    ∃ t', run (Memory.writeAll files) t = (.ok (), t') ∧ SameKinds s' t' := by
  induction files generalizing s t with
  | nil =>
    cases wrote
    exact ⟨t, rfl, h⟩
  | cons file rest ih =>
    obtain ⟨u, first, later⟩ := run_writeAll_cons.mp wrote
    obtain ⟨v, first', same⟩ := h.writeFile first
    obtain ⟨t', later', same'⟩ := ih same later
    exact ⟨t', run_writeAll_cons.mpr ⟨v, first', later'⟩, same'⟩

theorem writeAll_perm {files files' : List (Path × Bytes)} (perm : files.Perm files')
    (wrote : run (writeAll files) s = (.ok (), t)) : ∃ t', run (writeAll files') s = (.ok (), t') ∧
    SameKinds t t' := by
  induction perm generalizing s t with
  | nil => exact ⟨t, wrote, .refl t⟩
  | cons file _ ih =>
    obtain ⟨u, first, later⟩ := run_writeAll_cons.mp wrote
    obtain ⟨t', later', same⟩ := ih later
    exact ⟨t', run_writeAll_cons.mpr ⟨u, first, later'⟩, same⟩
  | swap f g rest =>
    obtain ⟨u, first, wrote⟩ := run_writeAll_cons.mp wrote
    obtain ⟨v, second, later⟩ := run_writeAll_cons.mp wrote
    obtain ⟨u', v', second', first', same⟩ := writeFile_swap first second
    obtain ⟨t', later', same'⟩ := same.writeAll later
    exact ⟨t', run_writeAll_cons.mpr ⟨u', second', run_writeAll_cons.mpr ⟨v', first', later'⟩⟩,
      same'⟩
  | trans _ _ ih ih' =>
    obtain ⟨u, wrote', same⟩ := ih wrote
    obtain ⟨t', wrote', same'⟩ := ih' wrote'
    exact ⟨t', wrote', same.trans same'⟩

end Memory

namespace Nodes

def outline (n : Nodes) : List (List Component × EntryKind) :=
  n.entries.map fun entry => (entry.1.components, entry.2.kind)

theorem mem_outline {n : Nodes} {components : List Component} {kind : EntryKind} :
    (components, kind) ∈ n.outline ↔
      ∃ path : Path, path.components = components ∧ (n.get? path).map Node.kind = some kind := by
  rw [outline, List.mem_map]
  constructor
  · rintro ⟨⟨path, node⟩, mem, eq⟩
    obtain ⟨rfl, rfl⟩ := Prod.mk.inj eq
    exact ⟨path, rfl, by rw [get?_of_mem mem]; rfl⟩
  · rintro ⟨path, rfl, found⟩
    obtain ⟨node, there, rfl⟩ := Option.map_eq_some_iff.mp found
    obtain ⟨key, same, mem⟩ := exists_mem_of_get? there
    exact ⟨(key, node), mem, by rw [Path.same_iff.mp same]⟩

theorem outline_eq {m n : Nodes}
    (h : ∀ path, (m.get? path).map Node.kind = (n.get? path).map Node.kind) :
    m.outline = n.outline := by
  have ordered (n : Nodes) : n.outline.Pairwise fun a b => compareOn Prod.fst a b = .lt :=
    List.pairwise_map.mpr n.ordered
  refine eq_of_mem_iff_of_strict (ordered m) (ordered n) fun ⟨components, kind⟩ => ?_
  simp only [mem_outline, h]

end Nodes

theorem Memory.SameKinds.entries {s t : Memory} (h : SameKinds s t) :
    List.Forall₂ (fun a b => a.1.same b.1 ∧ a.2.kind = b.2.kind) t.nodes.entries
      s.nodes.entries := by
  have level : List.Forall₂ Eq t.nodes.outline s.nodes.outline :=
    List.forall₂_eq_eq_eq ▸ Nodes.outline_eq h.kinds
  rw [Nodes.outline, Nodes.outline, List.forall₂_map_left_iff, List.forall₂_map_right_iff] at level
  exact level.imp fun a b eq => ⟨Path.same_iff.mpr (Prod.mk.inj eq).1, (Prod.mk.inj eq).2⟩

end Stowage
