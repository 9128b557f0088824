import Stowage.Proofs.Path.Names
import Stowage.Proofs.Storage.Memory

/-! Programs that only read, and only below a directory: in memories that agree there they give the
same answer. -/
namespace Stowage.Memory

variable {ε ε' α β : Type} {root path : Path} {s t : Memory}

/-- Whatever is stored or denied under a path that starts with the components of `root` is so in
both memories. -/
structure AgreeBelow (root : Path) (s t : Memory) : Prop where
  node (q : Path) : root.components <+: q.components → t.get? q = s.get? q
  denied (q : Path) : root.components <+: q.components → t.isDenied q = s.isDenied q

structure ReadsBelow (root : Path) (act : ExceptT ε (StateM Memory) α) :
    Prop extends ReadOnly act where
  agree {s t : Memory} : AgreeBelow root s t → answer act t = answer act s

namespace ReadsBelow

theorem pure (a : α) : ReadsBelow root (Pure.pure a : ExceptT ε (StateM Memory) α) :=
  ⟨.pure a, fun _ => rfl⟩

theorem throw (e : ε) : ReadsBelow root (throw e : ExceptT ε (StateM Memory) α) :=
  ⟨.throw e, fun _ => rfl⟩

theorem settled (x : Except ε α) :
    ReadsBelow root (ExceptT.mk (Pure.pure x) : ExceptT ε (StateM Memory) α) :=
  ⟨.settled x, fun _ => rfl⟩

theorem note (e : Event) :
    ReadsBelow root (ExceptT.lift (Storage.note e) : ExceptT ε (StateM Memory) Unit) :=
  ⟨.note e, fun _ => rfl⟩

theorem adapt {act : ExceptT ε (StateM Memory) α} (h : ReadsBelow root act) (f : ε → ε') :
    ReadsBelow root (ExceptT.adapt f act) :=
  ⟨h.toReadOnly.adapt f, fun agreed => congrArg (Except.mapError f) (h.agree agreed)⟩

theorem failingOn {act : ExceptT Failure (StateM Memory) α} (h : ReadsBelow root act)
    (path : Path) :
    ReadsBelow root (Stowage.failingOn path act) := h.adapt _

theorem caught {act : ExceptT ε (StateM Memory) α} (h : ReadsBelow root act) :
    ReadsBelow root (ExceptT.lift act.run : ExceptT ε' (StateM Memory) (Except ε α)) :=
  ⟨h.toReadOnly.caught, fun agreed => congrArg Except.ok (h.agree agreed)⟩

theorem bind_of_answer {act : ExceptT ε (StateM Memory) α} {next : α → ExceptT ε (StateM Memory) β}
    (h : ReadsBelow root act) (only : ∀ a, ReadOnly (next a))
    (later : ∀ s a, answer act s = .ok a → ReadsBelow root (next a)) :
    ReadsBelow root (act >>= next) := by
  refine ⟨h.toReadOnly.bind only, fun {s t} agreed => ?_⟩
  rw [h.toReadOnly.answer_bind only, h.toReadOnly.answer_bind only, h.agree agreed]
  cases first : answer act s with
  | error e => rfl
  | ok a => exact (later s a first).agree agreed

theorem bind {act : ExceptT ε (StateM Memory) α} {next : α → ExceptT ε (StateM Memory) β}
    (h : ReadsBelow root act) (later : ∀ a, ReadsBelow root (next a)) :
    ReadsBelow root (act >>= next) :=
  h.bind_of_answer (fun a => (later a).toReadOnly) fun _ a _ => later a

end ReadsBelow

section Queries

variable (below : root.components <+: path.components)
include below

theorem AgreeBelow.allowed (agreed : AgreeBelow root s t) : t.allowed path = s.allowed path := by
  rw [Memory.allowed, Memory.allowed, agreed.denied path below]

theorem readsBelow_isDirectory : ReadsBelow root (Storage.isDirectory path) := by
  refine ⟨readOnly_isDirectory path, fun {s t} agreed => ?_⟩
  have asked (u : Memory) : answer (Storage.isDirectory path) u = u.ask path fun node =>
      decide (node = some .directory) := rfl
  rw [asked, asked, ask, ask, agreed.allowed below, agreed.node path below]

theorem readsBelow_openFile : ReadsBelow root (Storage.openFile path) := by
  refine ⟨readOnly_openFile path, fun {s t} agreed => ?_⟩
  rw [answer_openFile, answer_openFile, fileContent, fileContent, agreed.allowed below,
    agreed.node path below]

theorem readsBelow_read : ReadsBelow root (Storage.read path) :=
  (readsBelow_openFile below).bind fun handle => .settled handle.content

end Queries

end Stowage.Memory
