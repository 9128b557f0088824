import Mathlib.Data.List.Basic
import Stowage.Error
import Stowage.Proofs.Outcome
import Stowage.Storage.Memory

/-! Programs run on files kept in memory. One that only reads leaves everything but the count of
opened files, and that count bears on no answer, so that the answers of its parts can be told one
after the other of the same memory. -/
namespace Stowage.Memory

variable {ε ε' α β : Type} {s t : Memory}

/-- What a program answers, and the memory it leaves. -/
def run (act : ExceptT ε (StateM Memory) α) (s : Memory) : Except ε α × Memory :=
  Id.run (StateT.run act.run s)

def answer (act : ExceptT ε (StateM Memory) α) (s : Memory) : Except ε α := (run act s).1

theorem answer_eq_ok {act : ExceptT ε (StateM Memory) α} {a : α} :
    answer act s = .ok a ↔ ∃ t, run act s = (.ok a, t) := by
  rw [answer]
  constructor
  · exact fun h => ⟨_, Prod.ext h rfl⟩
  · rintro ⟨t, h⟩
    rw [h]

def withOpens (s : Memory) (opens : Nat) : Memory := { s with opens }

theorem run_bind (act : ExceptT ε (StateM Memory) α) (next : α → ExceptT ε (StateM Memory) β)
    (s : Memory) :
    run (act >>= next) s =
      match run act s with
      | (.ok a, t) => run (next a) t
      | (.error e, t) => (.error e, t) := by
  change Id.run (StateT.run (ExceptT.run (ExceptT.bind act next)) s) = _
  rcases h : run act s with ⟨_ | a, t⟩ <;>
    · rw [run] at h
      simp only [ExceptT.run, ExceptT.bind, ExceptT.mk, StateT.run, StateT.bind, bind, Id.run] at *
      rw [h]
      rfl

theorem run_bind_ok {act : ExceptT ε (StateM Memory) α} {next : α → ExceptT ε (StateM Memory) β}
    {b : β} :
    run (act >>= next) s = (.ok b, t) ↔
      ∃ a u, run act s = (.ok a, u) ∧ run (next a) u = (.ok b, t) := by
  rw [run_bind]
  rcases run act s with ⟨_ | a, u⟩
  · simp
  · simp

theorem run_adapt (f : ε → ε') (act : ExceptT ε (StateM Memory) α) (s : Memory) :
    run (ExceptT.adapt f act) s = ((run act s).1.mapError f, (run act s).2) := rfl

structure ReadOnly (act : ExceptT ε (StateM Memory) α) : Prop where
  leaves (s : Memory) : ∃ n, (run act s).2 = s.withOpens n
  blind (s : Memory) (n : Nat) : answer act (s.withOpens n) = answer act s

namespace ReadOnly

theorem ofAnswer {act : ExceptT ε (StateM Memory) α} (f : Memory → Except ε α)
    (h : ∀ s, run act s = (f s, s)) (blind : ∀ s n, f (s.withOpens n) = f s) : ReadOnly act where
  leaves s := ⟨s.opens, by rw [h]; rfl⟩
  blind s n := by rw [answer, answer, h, h, blind]

theorem pure (a : α) : ReadOnly (Pure.pure a : ExceptT ε (StateM Memory) α) :=
  ofAnswer (fun _ => .ok a) (fun _ => rfl) fun _ _ => rfl

theorem throw (e : ε) : ReadOnly (throw e : ExceptT ε (StateM Memory) α) :=
  ofAnswer (fun _ => .error e) (fun _ => rfl) fun _ _ => rfl

theorem settled (x : Except ε α) :
    ReadOnly (ExceptT.mk (Pure.pure x) : ExceptT ε (StateM Memory) α) :=
  ofAnswer (fun _ => x) (fun _ => rfl) fun _ _ => rfl

theorem lifted (x : Except ε α) : ReadOnly (liftM x : ExceptT ε (StateM Memory) α) := settled x

theorem note (e : Event) :
    ReadOnly (ExceptT.lift (Storage.note e) : ExceptT ε (StateM Memory) Unit) :=
  ofAnswer (fun _ => .ok ()) (fun _ => rfl) fun _ _ => rfl

theorem adapt {act : ExceptT ε (StateM Memory) α} (h : ReadOnly act) (f : ε → ε') :
    ReadOnly (ExceptT.adapt f act) where
  leaves s := by simpa only [run_adapt] using h.leaves s
  blind s n := by
    have same := h.blind s n
    simp only [answer, run_adapt] at same ⊢
    rw [same]

theorem caught {act : ExceptT ε (StateM Memory) α} (h : ReadOnly act) :
    ReadOnly (ExceptT.lift act.run : ExceptT ε' (StateM Memory) (Except ε α)) where
  leaves s := h.leaves s
  blind s n := congrArg Except.ok (h.blind s n)

theorem failingOn {act : ExceptT Failure (StateM Memory) α} (h : ReadOnly act) (path : Path) :
    ReadOnly (Stowage.failingOn path act) := h.adapt _

theorem answer_bind_ok {act : ExceptT ε (StateM Memory) α} {next : α → ExceptT ε (StateM Memory) β}
    {a : α} (h : ReadOnly act) (first : answer act s = .ok a) (later : ReadOnly (next a)) :
    answer (act >>= next) s = answer (next a) s := by
  obtain ⟨t, ran⟩ := answer_eq_ok.mp first
  obtain ⟨n, left⟩ := h.leaves s
  rw [ran] at left
  cases left
  rw [answer, run_bind, ran]
  exact later.blind s n

theorem answer_bind {act : ExceptT ε (StateM Memory) α} {next : α → ExceptT ε (StateM Memory) β}
    (h : ReadOnly act) (later : ∀ a, ReadOnly (next a)) (s : Memory) :
    answer (act >>= next) s = (answer act s).bind fun a => answer (next a) s := by
  obtain ⟨n, left⟩ := h.leaves s
  rw [answer, answer, run_bind]
  generalize run act s = result at left ⊢
  rcases result with ⟨_ | a, t⟩
  · rfl
  · cases left
    exact (later a).blind s n

theorem bind {act : ExceptT ε (StateM Memory) α} {next : α → ExceptT ε (StateM Memory) β}
    (h : ReadOnly act) (later : ∀ a, ReadOnly (next a)) : ReadOnly (act >>= next) where
  leaves s := by
    obtain ⟨n, left⟩ := h.leaves s
    rw [run_bind]
    generalize run act s = result at left ⊢
    rcases result with ⟨_ | a, t⟩
    · exact ⟨n, left⟩
    · cases left
      obtain ⟨m, left⟩ := (later a).leaves (s.withOpens n)
      exact ⟨m, left⟩
  blind s n := by
    have same := h.blind s n
    rw [answer_bind h later, answer_bind h later, same]
    rcases answer act s with _ | a
    · rfl
    · exact (later a).blind s n

/-- Behind a program that only reads a run ends with the count of opened files as the only change,
or goes on. -/
theorem run_bind_cases {act : ExceptT ε (StateM Memory) α} (h : ReadOnly act)
    (next : α → ExceptT ε (StateM Memory) β) (s : Memory) (n : Nat) :
    (∃ e m, run (act >>= next) (s.withOpens n) = (.error e, s.withOpens m)) ∨
      ∃ a m, answer act s = .ok a ∧
      run (act >>= next) (s.withOpens n) = run (next a) (s.withOpens m) := by
  obtain ⟨m, left⟩ := h.leaves (s.withOpens n)
  have same := h.blind s n
  rw [answer] at same
  rw [run_bind]
  generalize run act (s.withOpens n) = result at left same ⊢
  rcases result with ⟨e | a, t⟩
  · cases left
    exact .inl ⟨e, m, rfl⟩
  · cases left
    exact .inr ⟨a, m, same.symm, rfl⟩

theorem run_bind_of_answer {act : ExceptT ε (StateM Memory) α} {a : α} (h : ReadOnly act)
    (first : answer act s = .ok a) (next : α → ExceptT ε (StateM Memory) β) :
    ∃ n, run (act >>= next) s = run (next a) (s.withOpens n) := by
  obtain ⟨t, ran⟩ := answer_eq_ok.mp first
  obtain ⟨n, left⟩ := h.leaves s
  rw [ran] at left
  cases left
  refine ⟨n, ?_⟩
  rw [run_bind, ran]
  rfl

theorem of_run_bind {act : ExceptT ε (StateM Memory) α} {next : α → ExceptT ε (StateM Memory) β}
    {b : β} {n : Nat} (h : ReadOnly act) (ran : run (act >>= next) (s.withOpens n) = (.ok b, t)) :
    ∃ a m, answer act s = .ok a ∧ run (next a) (s.withOpens m) = (.ok b, t) := by
  obtain ⟨a, u, first, later⟩ := run_bind_ok.mp ran
  obtain ⟨m, left⟩ := h.leaves (s.withOpens n)
  rw [first] at left
  cases left
  exact ⟨a, m, by rw [← h.blind s n, answer, first], later⟩

end ReadOnly

/-- Only reads, and answers alike in two memories. -/
structure Alike (s t : Memory) (act : ExceptT ε (StateM Memory) α) : Prop extends ReadOnly act where
  same : answer act t = answer act s

namespace Alike

theorem pure (a : α) : Alike s t (Pure.pure a : ExceptT ε (StateM Memory) α) := ⟨.pure a, rfl⟩

theorem throw (e : ε) : Alike s t (throw e : ExceptT ε (StateM Memory) α) := ⟨.throw e, rfl⟩

theorem settled (x : Except ε α) :
    Alike s t (ExceptT.mk (Pure.pure x) : ExceptT ε (StateM Memory) α) := ⟨.settled x, rfl⟩

theorem note (e : Event) :
    Alike s t (ExceptT.lift (Storage.note e) : ExceptT ε (StateM Memory) Unit) := ⟨.note e, rfl⟩

theorem failingOn {act : ExceptT Failure (StateM Memory) α} (h : Alike s t act) (path : Path) :
    Alike s t (Stowage.failingOn path act) :=
  ⟨h.toReadOnly.failingOn path, congrArg (Except.mapError (Error.io path)) h.same⟩

theorem bind {act : ExceptT ε (StateM Memory) α} {next : α → ExceptT ε (StateM Memory) β}
    (h : Alike s t act) (later : ∀ a, Alike s t (next a)) : Alike s t (act >>= next) := by
  have only (a : α) : ReadOnly (next a) := (later a).toReadOnly
  refine ⟨h.toReadOnly.bind only, ?_⟩
  rw [h.toReadOnly.answer_bind only, h.toReadOnly.answer_bind only, h.same]
  simp only [fun a => (later a).same]

end Alike

theorem run_failingOn_eq_ok {path : Path} {act : ExceptT Failure (StateM Memory) α} {a : α} :
    run (failingOn path act) s = (.ok a, t) ↔ run act s = (.ok a, t) := by
  rw [failingOn, run_adapt, Prod.mk.injEq, mapError_eq_ok, ← Prod.mk.injEq]

theorem answer_failingOn_eq_ok {path : Path} {act : ExceptT Failure (StateM Memory) α} {a : α} :
    answer (failingOn path act) s = .ok a ↔ answer act s = .ok a := mapError_eq_ok

theorem answer_caught (act : ExceptT ε (StateM Memory) α) (s : Memory) :
    answer (ExceptT.lift act.run : ExceptT ε' (StateM Memory) (Except ε α)) s =
      .ok (answer act s) := rfl

theorem run_write_then {path : Path} {data : Bytes} {next : ExceptT Error (StateM Memory) α} {a : α}
    (h : ∀ t, run next t = (.ok a, t)) :
    run (failingOn path (Storage.write path data) >>= fun _ => next) s =
      (((s.writeFile path data).1.mapError (Error.io path)).map fun _ => a,
        (s.writeFile path data).2) := by
  have wrote : run (Storage.write path data) s = s.writeFile path data := rfl
  rw [run_bind, failingOn, run_adapt, wrote]
  rcases s.writeFile path data with ⟨failure | _, t⟩
  · rfl
  · exact h t

theorem of_written_eq_ok {wrote : Except Failure Unit × Memory} {f : Failure → ε} {a b : α}
    (h : ((wrote.1.mapError f).map fun _ => a, wrote.2) = (.ok b, t)) :
    b = a ∧ wrote = (.ok (), t) := by
  rw [Prod.mk.injEq, map_eq_ok] at h
  obtain ⟨⟨_, fine, rfl⟩, rfl⟩ := h
  exact ⟨rfl, Prod.ext (mapError_eq_ok.mp fine) rfl⟩

theorem readOnly_exists? (path : Path) : ReadOnly (Storage.exists? path) :=
  .ofAnswer _ (fun _ => rfl) fun _ _ => rfl

theorem readOnly_isDirectory (path : Path) : ReadOnly (Storage.isDirectory path) :=
  .ofAnswer _ (fun _ => rfl) fun _ _ => rfl

theorem readOnly_isFile (path : Path) : ReadOnly (Storage.isFile path) :=
  .ofAnswer _ (fun _ => rfl) fun _ _ => rfl

theorem readOnly_readDirectory (path : Path) : ReadOnly (Storage.readDirectory path) :=
  .ofAnswer _ (fun _ => rfl) fun _ _ => rfl

theorem readOnly_openFile (path : Path) : ReadOnly (Storage.openFile path) where
  leaves s := ⟨s.opens + 1, rfl⟩
  blind _ _ := rfl

theorem answer_openFile (path : Path) (s : Memory) :
    answer (Storage.openFile path) s = (s.fileContent path).map fun data => ⟨.ok data, none⟩ := rfl

theorem readOnly_read (path : Path) : ReadOnly (Storage.read path) :=
  (readOnly_openFile path).bind fun handle => .lifted handle.content

theorem answer_read (path : Path) (s : Memory) :
    answer (Storage.read path) s = s.fileContent path := by
  rw [Storage.read, (readOnly_openFile path).answer_bind fun handle => .lifted handle.content,
    answer_openFile]
  cases s.fileContent path <;> rfl

end Stowage.Memory
