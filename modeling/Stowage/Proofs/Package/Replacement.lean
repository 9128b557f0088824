import Stowage.Proofs.Package.Check
import Stowage.Proofs.Registry.Generate
import Stowage.Proofs.Storage.Growth

/-! A registry that is written again. It is written next to the files that it lists and not among
them, so that they are listed anew as before, and the write replaces one node or changes nothing. -/
namespace Stowage

namespace Memory

open Stowage.Path

variable {s : Memory} {directory path q : Path}

theorem isBelow_congr (h : path.same q) : isBelow directory path = isBelow directory q := by
  rw [Bool.eq_iff_iff, isBelow_iff, isBelow_iff, same_iff.mp h]

theorem nodesBelow_withFile (apart : isBelow directory path = false) (data : Bytes) :
    (s.withFile path data).nodesBelow directory = s.nodesBelow directory :=
  Nodes.filter_insertInto (fun _ same =>
    (isBelow_congr same).symm) apart (.file data) s.nodes.entries

theorem Readable.withFile (readable : s.Readable directory) (free : s.get? path ≠ some .directory)
    (data : Bytes) :
    (s.withFile path data).Readable directory := by
  have apart : ¬ path.same directory := fun same => free ((get?_congr same).trans readable.there)
  exact ⟨readable.fine, by rw [get?_withFile, if_neg apart, readable.there]⟩

end Memory

namespace Registry

open Memory

variable {s : Memory} {root directory path : Path} {files : List ListedFile} {data : Bytes}

theorem generate_withFile (shaped : s.TreeShaped) (shaped' : (s.withFile path data).TreeShaped)
    (apart : isBelow (root.join directory) path = false) (free : s.get? path ≠ some .directory)
    (listed : answer (generate root directory) s = .ok files) :
    answer (generate root directory) (s.withFile path data) = .ok files := by
  obtain ⟨readable, fine, eq⟩ := (generate_eq_ok_iff shaped).mp listed
  have below := nodesBelow_withFile (s := s) apart data
  refine (generate_eq_ok_iff shaped').mpr ?_
  rw [directoriesFrom, filesBelow, below]
  exact ⟨fun d mem => (readable d mem).withFile free data, fine, eq⟩

end Registry

namespace Package

open Memory Stowage.Path

variable {s t : Memory} {files : List ListedFile}

theorem isBelow_registryPath (p : Package) : isBelow p.directory p.registryPath = false := by
  rw [Bool.eq_false_iff, Ne, isBelow_iff]
  rintro ⟨rest, nonempty, -, eq⟩
  rw [components_registryPath, components_directory, List.append_assoc, List.append_cancel_left_eq]
    at eq
  exact nonempty (List.cons.inj eq).2.symm

theorem directories_above_registryPath (nested : s.Nested) (p : Package)
    (there : s.get? p.directory = some .directory) :
    ∀ a ∈ p.registryPath.ancestors, a.isEmpty = false → s.get? a = some .directory := by
  intro a mem named
  obtain ⟨rest, nonempty, eq⟩ := above_of_mem_ancestors mem
  obtain ⟨front, c, rfl⟩ := (List.eq_nil_or_concat' rest).resolve_left nonempty
  rw [components_registryPath, ← List.append_assoc] at eq
  have level := (List.append_inj' eq rfl).1
  refine nested p.directory .directory there a named
    ⟨front ++ [.name (Utf8.ofString packageDirectoryName)], ?_, ?_⟩
  · exact List.append_ne_nil_of_right_ne_nil _ (List.cons_ne_nil _ _)
  · rw [components_directory, level, List.append_assoc]

def registryData (files : List ListedFile) : Bytes := Utf8.encode (Registry.print files)

theorem writeRegistry_of_generate (shaped : s.TreeShaped) (p : Package)
    (listed : answer (Registry.generate p.root (.ofString packageDirectoryName)) s = .ok files) :
    ∃ n, run p.writeRegistry s =
      if s.isDenied p.registryPath then (.error (.io p.registryPath (.denied p.registryPath)),
        s.withOpens n)
      else if s.get? p.registryPath = some .directory then
        (.error (.io p.registryPath (.directory p.registryPath)), s.withOpens n)
      else (.ok files, (s.withOpens n).withFile p.registryPath (registryData files)) := by
  obtain ⟨paths, walked, -⟩ := Registry.answer_generate_eq_ok.mp listed
  have above :=
    directories_above_registryPath (nested_iff_treeShaped.mpr shaped) p (directory_of_walk walked)
  unfold writeRegistry
  obtain ⟨n, ran⟩ := (Registry.readOnly_generate _ _).run_bind_of_answer listed _
  refine ⟨n, ran.trans ((run_write_then fun _ => rfl).trans ?_)⟩
  have wrote : (s.withOpens n).writeFile p.registryPath (registryData files) =
      if s.isDenied p.registryPath then (.error (.denied p.registryPath), s.withOpens n)
      else if s.get? p.registryPath = some .directory
        then (.error (.directory p.registryPath), s.withOpens n)
      else (.ok (), (s.withOpens n).withFile p.registryPath (registryData files)) :=
    writeFile_of_directories (s := s.withOpens n) above _
  rw [← registryData, wrote]
  split_ifs <;> rfl

theorem writeRegistry_withFile (shaped : s.TreeShaped) (p : Package)
    (listed : answer (Registry.generate p.root (.ofString packageDirectoryName)) s = .ok files)
    (allowed : ¬ s.isDenied p.registryPath) (free : s.get? p.registryPath ≠ some .directory)
    (n : Nat) :
    ∃ m, run p.writeRegistry ((s.withFile p.registryPath (registryData files)).withOpens n) =
      (.ok files,
        ((s.withFile p.registryPath (registryData files)).withOpens m).withFile p.registryPath
          (registryData files)) := by
  have nested := nested_iff_treeShaped.mpr shaped
  obtain ⟨paths, walked, -⟩ := Registry.answer_generate_eq_ok.mp listed
  have wrote : s.writeFile p.registryPath (registryData files) = (.ok (),
      s.withFile p.registryPath (registryData files)) := by
    have above := directories_above_registryPath nested p (directory_of_walk walked)
    rw [writeFile_of_directories above, if_neg allowed, if_neg free]
  have shaped' := nested_iff_treeShaped.mp (nested_writeFile nested wrote)
  have again := Registry.generate_withFile shaped shaped' p.isBelow_registryPath free listed
  have file : (s.withFile p.registryPath (registryData files)).get? p.registryPath =
      some (.file (registryData files)) := by
    rw [get?_withFile, if_pos (same_iff.mpr rfl)]
  obtain ⟨m, ran⟩ :=
    writeRegistry_of_generate (s := (s.withFile p.registryPath (registryData files)).withOpens n)
      shaped' p
    (((Registry.readOnly_generate _ _).blind _ n).trans again)
  exact ⟨m, ran.trans ((if_neg allowed).trans (if_neg fun there => by cases file.symm.trans there))⟩

/-- A registry that cannot be written changes no node. One that can takes the place of the registry
and changes no other node, and when it is written again, the files are listed as before and every
node stays. -/
theorem writeRegistry_again (shaped : s.TreeShaped) (p : Package) :
    match run p.writeRegistry s with
    | (.error _, t) => t.nodes = s.nodes
    | (.ok files, t) =>
      t.nodes = s.nodes.insert p.registryPath (.file (Utf8.encode (Registry.print files))) ∧
        (∀ q, ¬ q.same p.registryPath → t.get? q = s.get? q) ∧
        ∃ u, run p.writeRegistry t = (.ok files, u) ∧ u.nodes = t.nodes := by
  rcases writeRegistry_cases p s with ⟨e, n, failed⟩ | ⟨files, -, listed, -⟩
  · rw [failed]
    rfl
  obtain ⟨n, ran⟩ := writeRegistry_of_generate shaped p listed
  rw [ran]
  split_ifs with denied there
  · rfl
  · rfl
  obtain ⟨m, again⟩ := writeRegistry_withFile shaped p listed denied there n
  refine ⟨rfl, fun q other => ?_, _, again, Nodes.insert_insert s.nodes _ _ _⟩
  exact (get?_withFile s p.registryPath q _).trans (if_neg fun same => other (by rwa [same_comm]))

/-- An earlier registry, and a file among those of the package that has the name of one. -/
theorem writeRegistry_again_nested :
    ∃ (s : Memory) (p : Package), s.TreeShaped ∧ s.get? p.registryPath = some (.file [1]) ∧
      ∃ files t u, files = [⟨ofString "pkg/checksum.txt", digest [2]⟩] ∧
      run p.writeRegistry s = (.ok files, t) ∧
        t.get? p.registryPath = some (.file (Utf8.encode (Registry.print files))) ∧
        run p.writeRegistry t = (.ok files, u) ∧ u.nodes = t.nodes := by
  let p : Package := ⟨ofString "r", true⟩
  let files : List ListedFile := [⟨ofString "pkg/checksum.txt", digest [2]⟩]
  obtain ⟨s, shaped, before, answered⟩ : ∃ s : Memory, s.TreeShaped ∧
      s.get? p.registryPath = some (.file [1]) ∧
      answer p.writeRegistry s = .ok files :=
    ⟨edited [.write (ofString "r/checksum.txt") [1], .write (ofString "r/pkg/checksum.txt") [2]] {},
      by decide +kernel, by decide +kernel, by decide +kernel⟩
  obtain ⟨t, ran⟩ := answer_eq_ok.mp answered
  have again := writeRegistry_again shaped p
  rw [ran] at again
  obtain ⟨nodes, -, u, reran, same⟩ := again
  refine ⟨s, p, shaped, before, files, t, u, rfl, ran, ?_, reran, same⟩
  rw [get?, nodes, Nodes.get?_insert, if_pos (same_iff.mpr rfl)]

end Package
end Stowage
