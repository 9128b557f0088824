import Mathlib.Tactic.Common
import Stowage.Command

/-! Programs of the library run under a transcript: they do there what they do on the storage alone,
and print nothing. They are the same programs on two storages, so each of them follows by its steps,
and by induction where it recurs. -/
namespace Stowage

variable {m : Type → Type} [Monad m] {ε ε' α β : Type}

/-- A program that runs as another one does without a transcript, and leaves the transcript as it
is. -/
def Mirrors (act : ExceptT ε (Transcript m) α) (base : ExceptT ε m α) : Prop :=
  ∀ printed, StateT.run act.run printed = (fun result => (result, printed)) <$> base.run

theorem Transcript.run_bind (act : ExceptT ε (Transcript m) α)
    (next : α → ExceptT ε (Transcript m) β) (printed : List String) :
    StateT.run (act >>= next).run printed =
      StateT.run act.run printed >>= fun
        | (.ok a, printed) => StateT.run (next a).run printed
        | (.error e, printed) => pure (.error e, printed) := by
  change StateT.run act.run printed >>= _ = _
  congr 1
  funext ⟨result, printed⟩
  cases result <;> rfl

namespace Mirrors

variable [LawfulMonad m]

theorem settled (x : Except ε α) :
    Mirrors (ExceptT.mk (Pure.pure x) : ExceptT ε (Transcript m) α) (ExceptT.mk (Pure.pure x)) := by
  intro printed
  change (Pure.pure (x, printed) : m _) = _ <$> Pure.pure x
  rw [map_pure]

theorem pure (a : α) : Mirrors (Pure.pure a : ExceptT ε (Transcript m) α) (Pure.pure a) :=
  settled (.ok a)

theorem throw (e : ε) : Mirrors (throw e : ExceptT ε (Transcript m) α) (throw e) :=
  settled (.error e)

theorem bind {act : ExceptT ε (Transcript m) α} {base : ExceptT ε m α}
    {next : α → ExceptT ε (Transcript m) β} {later : α → ExceptT ε m β} (h : Mirrors act base)
    (k : ∀ a, Mirrors (next a) (later a)) :
    Mirrors (act >>= next) (base >>= later) := by
  intro printed
  rw [Transcript.run_bind, h, ExceptT.run_bind, map_bind, bind_map_left]
  congr 1
  funext result
  cases result with
  | ok a => exact k a printed
  | error e => exact (map_pure (fun result => (result, printed)) (Except.error e : Except ε β)).symm

theorem adapt {act : ExceptT ε (Transcript m) α} {base : ExceptT ε m α} (h : Mirrors act base)
    (f : ε → ε') :
    Mirrors (ExceptT.adapt f act) (ExceptT.adapt f base) := by
  intro printed
  change StateT.run (Except.mapError f <$> act.run) printed = _ <$> Except.mapError f <$> base.run
  rw [StateT.run_map, h, Functor.map_map, Functor.map_map]

theorem caught {act : ExceptT ε (Transcript m) α} {base : ExceptT ε m α} (h : Mirrors act base) :
    Mirrors (ExceptT.lift act.run : ExceptT ε' (Transcript m) (Except ε α))
    (ExceptT.lift base.run) := by
  intro printed
  change StateT.run (Except.ok <$> act.run) printed = _ <$> Except.ok <$> base.run
  rw [StateT.run_map, h, Functor.map_map, Functor.map_map]

theorem failingOn {act : ExceptT Failure (Transcript m) α} {base : ExceptT Failure m α}
    (h : Mirrors act base) (path : Path) :
    Mirrors (Stowage.failingOn path act) (Stowage.failingOn path base) := h.adapt _

theorem thrown (e : ε) (next : α → ExceptT ε (Transcript m) β) (later : α → ExceptT ε m β) :
    Mirrors (MonadExcept.throw e >>= next) (MonadExcept.throw e >>= later) := by
  intro printed
  rw [Transcript.run_bind, throw e, ExceptT.run_bind, ExceptT.run_throw, map_pure, pure_bind,
    pure_bind, map_pure]

theorem onStorage (act : ExceptT Failure m α) : Mirrors (Transcript.onStorage act) act := fun _ =>
  bind_pure_comp _ _

theorem lifted (x : m α) : Mirrors (ExceptT.lift (StateT.lift x) : ExceptT ε (Transcript m) α)
    (ExceptT.lift x) := by
  intro printed
  change StateT.run (Except.ok <$> StateT.lift x) printed = _ <$> Except.ok <$> x
  rw [StateT.run_map, StateT.run_lift, bind_pure_comp, Functor.map_map, Functor.map_map]

theorem note [Storage m] (e : Event) :
    Mirrors (ExceptT.lift (Storage.note e) : ExceptT ε (Transcript m) Unit)
    (ExceptT.lift (Storage.note e)) :=
  lifted _

end Mirrors

theorem Mirrors.ite {c : Prop} [Decidable c] {act act' : ExceptT ε (Transcript m) α}
    {base base' : ExceptT ε m α} (h : Mirrors act base) (h' : Mirrors act' base') :
    Mirrors (if c then act else act') (if c then base else base') := by
  split
  · exact h
  · exact h'

section Programs

variable [LawfulMonad m] [Storage m]

theorem mirrors_read (path : Path) : Mirrors (m := m) (Storage.read path) (Storage.read path) :=
  (Mirrors.onStorage _).bind fun handle => .settled handle.content

theorem mirrors_walkFrom (fuel : Nat) (pending files : List Path) :
    Mirrors (m := m) (Storage.walkFrom fuel pending files)
    (Storage.walkFrom fuel pending files) := by
  induction fuel generalizing pending files with
  | zero =>
    cases pending with
    | nil => exact .pure _
    | cons => exact .throw _
  | succ fuel ih =>
    cases pending with
    | nil => exact .pure _
    | cons directory pending => exact (Mirrors.onStorage _).bind fun entries => ih _ _

theorem mirrors_walk (directory : Path) : Mirrors (m := m) (Storage.walk directory)
    (Storage.walk directory) :=
  (Mirrors.lifted _).bind fun bound => (mirrors_walkFrom bound [directory] []).bind fun _ => .pure _

namespace Registry

theorem mirrors_load (root : Path) : Mirrors (m := m) (Registry.load root)
    (Registry.load root) := by
  refine (mirrors_read _).caught.bind fun readings => ?_
  rcases readings with failure | bytes
  · exact .ite ((Mirrors.note _).bind fun _ => .pure _) (.throw _)
  · dsimp only
    rcases Utf8.decode? bytes with _ | text
    · exact .throw _
    · exact (Mirrors.settled _).bind fun _ => .pure _

theorem mirrors_verifyFile (root : Path) (file : ListedFile) :
    Mirrors (m := m) (Registry.verifyFile root file) (Registry.verifyFile root file) :=
  ((Mirrors.onStorage _).adapt _).bind fun _ => ((Mirrors.settled _).failingOn _).bind fun _ =>
    .ite (.throw _) (.pure _)

theorem mirrors_verifyAll (root : Path) (files : List ListedFile) :
    Mirrors (m := m) (Registry.verifyAll root files) (Registry.verifyAll root files) := by
  induction files with
  | nil => exact .pure _
  | cons file rest ih => exact (mirrors_verifyFile root file).bind fun _ => ih

theorem mirrors_verify (root : Path) (files : List ListedFile) :
    Mirrors (m := m) (Registry.verify root files) (Registry.verify root files) :=
  (mirrors_verifyAll root files).bind fun _ => .note _

theorem mirrors_listFile (root path : Path) :
    Mirrors (m := m) (Registry.listFile root path) (Registry.listFile root path) :=
  ((Mirrors.onStorage _).failingOn _).bind fun _ => ((Mirrors.settled _).failingOn _).bind fun _ =>
    .pure _

theorem mirrors_listAll (root : Path) (paths : List Path) :
    Mirrors (m := m) (Registry.listAll root paths) (Registry.listAll root paths) := by
  induction paths with
  | nil => exact .pure _
  | cons path rest ih => exact (mirrors_listFile root path).bind fun _ => ih.bind fun _ => .pure _

theorem mirrors_generate (root directory : Path) :
    Mirrors (m := m) (Registry.generate root directory) (Registry.generate root directory) :=
  ((mirrors_walk _).failingOn _).bind fun _ => mirrors_listAll root _

end Registry

namespace Package

theorem mirrors_check (p : Package) : Mirrors (m := m) p.check p.check := by
  refine ((Mirrors.onStorage _).failingOn _).bind fun present => .ite (.thrown _ _ _) (.ite ?_ ?_)
  · exact (Mirrors.note _).bind fun _ => .pure _
  · refine (Registry.mirrors_load _).bind fun found => ?_
    cases found with
    | none => exact (Mirrors.note _).bind fun _ => .pure _
    | some files => exact (Registry.mirrors_verify _ _).bind fun _ => .pure _

theorem mirrors_writeRegistry (p : Package) : Mirrors (m := m) p.writeRegistry p.writeRegistry :=
  (Registry.mirrors_generate _ _).bind fun _ => ((Mirrors.onStorage _).failingOn _).bind fun _ =>
    (Mirrors.note _).bind fun _ => .pure _

end Package

theorem Instance.mirrors_load (directory : Path) : Mirrors (m := m) (Instance.load directory)
    (Instance.load directory) :=
  ((mirrors_read _).adapt _).bind fun _ => .settled _

namespace Backup

theorem mirrors_fileMembers (directory archive : Path) (seconds : Nat) (files : List Path) :
    Mirrors (m := m) (fileMembers directory archive seconds files)
    (fileMembers directory archive seconds files) := by
  induction files with
  | nil => exact .pure _
  | cons file rest ih =>
    exact ((mirrors_read _).failingOn _).bind fun data => (Mirrors.note _).bind fun _ =>
      ((Mirrors.settled _).failingOn _).bind fun member => ih.bind fun _ => .pure _

theorem mirrors_create (directory backups : Path) (now : Moment) :
    Mirrors (m := m) (create directory backups now) (create directory backups now) := by
  refine .ite (.thrown _ _ _) ((Instance.mirrors_load directory).bind fun i => ?_)
  refine ((Mirrors.onStorage _).failingOn _).bind fun present => .ite (.thrown _ _ _) ?_
  refine ((mirrors_walk directory).failingOn _).bind fun files =>
    ((Mirrors.settled _).failingOn _).bind fun first => ?_
  refine (mirrors_fileMembers _ _ _ files).bind fun others =>
    ((Mirrors.onStorage _).failingOn _).bind fun _ => ?_
  exact (Mirrors.note _).bind fun _ => .pure _

theorem mirrors_extractEntry (archive : Path) (entry : String) :
    Mirrors (m := m) (extractEntry archive entry) (extractEntry archive entry) :=
  ((Mirrors.onStorage _).failingOn _).bind fun _ => .settled _

theorem mirrors_readTime (archive : Path) : Mirrors (m := m) (readTime archive)
    (readTime archive) := by
  refine (mirrors_extractEntry _ _).bind fun bytes => ?_
  dsimp only
  cases Moment.ofDecimal? (trim (Utf8.decodeLossy bytes)) with
  | none => exact .throw _
  | some time => exact .pure _

theorem mirrors_inspect (archive : Path) : Mirrors (m := m) (inspect archive)
    (inspect archive) := by
  refine ((Mirrors.onStorage _).failingOn _).bind fun file =>
    .ite (.thrown _ _ _) (.ite (.thrown _ _ _) ?_)
  refine ((mirrors_extractEntry _ _).bind fun _ => .settled _).bind fun i =>
    (mirrors_readTime archive).bind fun time => ?_
  exact (Mirrors.note _).bind fun _ => .pure _

theorem entryBackup?_eq_lift (entry : DirEntry) :
    (entryBackup? entry : Transcript m (Option BackupName)) =
      liftM (entryBackup? entry : m (Option BackupName)) := by
  unfold entryBackup?
  split
  · split
    · exact (liftM_pure _).symm
    · split
      · exact (liftM_pure _).symm
      · simp only [liftM_bind, liftM_pure]
        rfl
  · exact (liftM_pure _).symm

theorem entryBackups_eq_lift (entries : List DirEntry) :
    (entryBackups entries : Transcript m (List BackupName)) =
      liftM (entryBackups entries : m (List BackupName)) := by
  induction entries with
  | nil => exact (liftM_pure _).symm
  | cons entry rest ih =>
    simp only [entryBackups, liftM_bind, liftM_pure, entryBackup?_eq_lift, ih]

theorem mirrors_list (directory : Path) : Mirrors (m := m) (list directory) (list directory) := by
  refine (Mirrors.onStorage _).caught.bind fun listed => ?_
  cases listed with
  | error failure => exact .ite (.pure _) (.throw _)
  | ok entries =>
    dsimp only
    rw [entryBackups_eq_lift]
    exact (Mirrors.lifted _).bind fun _ => .pure _

end Backup

theorem Settings.mirrors_save (settings : Settings) (path : Path) :
    Mirrors (m := m) (settings.save path) (settings.save path) := by
  refine Mirrors.adapt ?_ _
  dsimp only
  cases path.parent? with
  | none => exact .onStorage _
  | some directory => exact (Mirrors.onStorage _).bind fun _ => .onStorage _

end Programs
end Stowage
