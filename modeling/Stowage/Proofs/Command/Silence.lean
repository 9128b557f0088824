import Stowage.Proofs.Backup.Catalogue
import Stowage.Proofs.Backup.Inspect
import Stowage.Proofs.Command.Transcript
import Stowage.Proofs.Package.Containment
import Stowage.Proofs.Settings.Serialize

/-! A command that fails has printed nothing, and one that only asks leaves what is stored: whatever
it prints, it prints after all that can fail, but for the settings, whose text never fails. -/
namespace Stowage.Command

open Memory

section Tells

variable {m : Type → Type} [Monad m] {ε α : Type}

/-- How a command ends after its report, and the lines that it prints. Nothing is printed of a
report that fails. -/
def outcome : Except ε (List String) → Except ε Unit × List String
  | .ok lines => (.ok (), lines)
  | .error e => (.error e, [])

def ending (printed : List String) (result : Except ε (List String)) :
    Except ε Unit × List String :=
  ((outcome result).1, (outcome result).2.reverse ++ printed)

def Tells (act : ExceptT ε (Transcript m) Unit) (report : ExceptT ε m (List String)) : Prop :=
  ∀ printed, StateT.run act.run printed = ending printed <$> report.run

variable [LawfulMonad m]

theorem run_print (lines printed : List String) :
    StateT.run (lines.forM Console.print : Transcript m Unit) printed =
      pure ((), lines.reverse ++ printed) := by
  induction lines generalizing printed with
  | nil => rfl
  | cons line rest ih =>
    change (pure ((), line :: printed) >>= fun p => StateT.run (rest.forM Console.print) p.2) = _
    rw [pure_bind, ih, List.reverse_cons, List.append_assoc, List.singleton_append]

theorem run_say (lines printed : List String) :
    StateT.run (say lines : ExceptT CommandError (Transcript m) Unit).run printed =
      pure (.ok (), lines.reverse ++ printed) := by
  change StateT.run (Except.ok <$> lines.forM Console.print) printed = _
  rw [StateT.run_map, run_print, map_pure]

namespace Tells

theorem say (lines : List String) :
    Tells (Command.say lines : ExceptT CommandError (Transcript m) Unit) (pure lines) := by
  intro printed
  rw [run_say, ExceptT.run_pure, map_pure]
  rfl

theorem thrown (e : ε) (next : α → ExceptT ε (Transcript m) Unit) :
    Tells (MonadExcept.throw e >>= next) (throw e) := by
  intro printed
  rw [Transcript.run_bind, Mirrors.throw e, ExceptT.run_throw, map_pure, pure_bind]
  exact (map_pure (ending printed) (Except.error e)).symm

theorem say_bind (lines rest : List String) :
    Tells (Command.say lines >>= fun _ =>
      Command.say rest : ExceptT CommandError (Transcript m) Unit)
      (pure (lines ++ rest)) := by
  intro printed
  rw [Transcript.run_bind, run_say, pure_bind, ExceptT.run_pure, map_pure, ending, outcome,
    List.reverse_append, List.append_assoc]
  exact run_say rest _

theorem bind {act : ExceptT ε (Transcript m) α} {base : ExceptT ε m α}
    {next : α → ExceptT ε (Transcript m) Unit} {report : α → ExceptT ε m (List String)}
    (h : Mirrors act base) (told : ∀ a, Tells (next a) (report a)) :
    Tells (act >>= next) (base >>= report) := by
  intro printed
  rw [Transcript.run_bind, h, ExceptT.run_bind, map_bind, bind_map_left]
  congr 1
  funext result
  cases result with
  | ok a => exact told a printed
  | error e => exact (map_pure (ending printed) (Except.error e)).symm

end Tells

theorem perform_of_tells [Storage m] {ctx : Context} {command : Command}
    {report : ExceptT CommandError m (List String)} (told : Tells (command.run ctx) report) :
    command.perform ctx = outcome <$> report.run := by
  have ran : command.perform ctx = StateT.run (m := m) (command.run ctx).run [] >>= fun p =>
    pure (p.1, p.2.reverse) := rfl
  rw [ran, told, bind_map_left, ← bind_pure_comp]
  simp only [ending, List.append_nil, List.reverse_reverse]

end Tells

section Reports

variable {ε α : Type} {reads : Prop}

/-- A command that runs as some report does and then prints its lines. The report only reads, if
that is said of it. -/
def Reports (reads : Prop) (act : ExceptT ε (Transcript (StateM Memory)) Unit) : Prop :=
  ∃ report, Tells act report ∧ (reads → ReadOnly report)

namespace Reports

theorem say (lines : List String) : Reports reads (Command.say lines) :=
  ⟨_, .say lines, fun _ => .pure lines⟩

theorem bind {act : ExceptT ε (Transcript (StateM Memory)) α} {base : ExceptT ε (StateM Memory) α}
    {next : α → ExceptT ε (Transcript (StateM Memory)) Unit} (h : Mirrors act base)
    (only : reads → ReadOnly base) (told : ∀ a, Reports reads (next a)) :
    Reports reads (act >>= next) := by
  choose report tells later using told
  exact ⟨base >>= report, .bind h tells, fun asked => (only asked).bind fun a => later a asked⟩

theorem thrown (e : ε) (next : α → ExceptT ε (Transcript (StateM Memory)) Unit) :
    Reports reads (MonadExcept.throw e >>= next) := ⟨_, .thrown e next, fun _ => .throw e⟩

theorem ite {c : Prop} [Decidable c] {act act' : ExceptT ε (Transcript (StateM Memory)) Unit}
    (h : Reports reads act) (h' : Reports reads act') :
    Reports reads (if c then act else act') := by
  split
  · exact h
  · exact h'

theorem mono {reads' : Prop} {act : ExceptT ε (Transcript (StateM Memory)) Unit}
    (h : Reports reads act) (weaker : reads' → reads) : Reports reads' act :=
  h.imp fun _ told => ⟨told.1, told.2 ∘ weaker⟩

end Reports

def asks : Command → Bool
  | .checkPackage .. | .inspectBackup _ | .listBackups _ | .parseName _ | .settingsPath |
    .showSettings => true
  | .writeChecksums _ | .createBackup .. | .initSettings _ => false

theorem reports_checkPackageIn (settings : Settings) (directory : Path) (skip : Bool) :
    Reports reads (checkPackageIn settings directory skip) := by
  refine .bind ((Package.mirrors_check _).adapt _) (fun _ =>
    (Package.readsBelow_check _).toReadOnly.adapt _) fun status => ?_
  cases status with
  | verified files => exact .say _
  | unverified => exact .say _

theorem reports_inspectBackupIn (file : Path) : Reports reads (inspectBackupIn file) :=
  .bind ((Backup.mirrors_inspect file).adapt _) (fun _ =>
    (Backup.readOnly_inspect file).adapt _) fun _ => .say _

theorem reports_listBackupsIn (directory : Path) : Reports reads (listBackupsIn directory) :=
  .bind ((Backup.mirrors_list directory).adapt _) (fun _ =>
    (Backup.readOnly_list directory).adapt _) fun _ =>
    .ite (.say _) (.say _)

theorem reports_tellName (name : String) : Reports reads (tellName name) :=
  .bind ((Mirrors.settled _).adapt _) (fun _ => (ReadOnly.settled _).adapt _) fun _ => .say _

theorem reports_showSettingsOf (ctx : Context) : Reports reads (showSettingsOf ctx) := by
  have whole : (showSettingsOf ctx : ExceptT CommandError (Transcript (StateM Memory)) Unit) =
      say [s!"# {ctx.settingsPath.display}"] >>= fun _ =>
      say [String.ofList (trimEnd ctx.settings.print)] := by
    rw [showSettingsOf, Settings.serialize_eq]
    congr 1
  rw [whole]
  exact ⟨_, .say_bind _ _, fun _ => .pure _⟩

theorem reports_writeChecksumsIn (directory : Path) : Reports False (writeChecksumsIn directory) :=
  .bind ((Package.mirrors_writeRegistry _).adapt _) False.elim fun _ => .say _

theorem reports_createBackupOf (ctx : Context) (id : String) (directory output : Option Path) :
    Reports False (createBackupOf ctx id directory output) :=
  .bind ((Backup.mirrors_create _ _ _).adapt _) False.elim fun _ =>
    .ite (.bind (.note _) False.elim fun _ => .say _) (.say _)

theorem reports_writeSettings (ctx : Context) (force : Bool) :
    Reports False (writeSettings ctx force) :=
  .bind (Mirrors.onStorage _).caught False.elim fun _ =>
    .ite (.thrown _ _) (.bind ((Settings.mirrors_save _ _).adapt _) False.elim fun _ => .say _)

theorem reports_run (ctx : Context) (command : Command) :
    Reports command.asks (command.run ctx) := by
  cases command with
  | checkPackage directory skip => exact reports_checkPackageIn _ _ _
  | writeChecksums directory => exact (reports_writeChecksumsIn directory).mono nofun
  | createBackup id directory output =>
    exact (reports_createBackupOf ctx id directory output).mono nofun
  | inspectBackup file => exact reports_inspectBackupIn file
  | listBackups directory => exact reports_listBackupsIn _
  | parseName name => exact reports_tellName name
  | settingsPath => exact .say _
  | showSettings => exact reports_showSettingsOf ctx
  | initSettings force => exact (reports_writeSettings ctx force).mono nofun

end Reports

def performed (ctx : Context) (command : Command) (s : Memory) :
    (Except CommandError Unit × List String) × Memory :=
  Id.run (StateT.run (command.perform ctx) s)

theorem performed_of_tells {ctx : Context} {command : Command}
    {report : ExceptT CommandError (StateM Memory) (List String)}
    (told : Tells (command.run ctx) report) (s : Memory) :
    performed ctx command s = (outcome (Memory.run report s).1, (Memory.run report s).2) := by
  rw [performed, perform_of_tells told]
  rfl

/-- Whatever the settings and the files are, a command that fails has printed nothing, and one that
asks leaves everything as it was, but for the count of opened files. -/
theorem silent_and_readOnly (ctx : Context) (command : Command) (s : Memory) :
    (∀ e, (performed ctx command s).1.1 = .error e → (performed ctx command s).1.2 = []) ∧
      (command.asks → ∃ n, (performed ctx command s).2 = s.withOpens n) := by
  obtain ⟨report, told, only⟩ := reports_run ctx command
  rw [performed_of_tells told]
  refine ⟨fun e failed => ?_, fun asks => (only asks).leaves s⟩
  cases result : (Memory.run report s).1 with
  | error _ => rfl
  | ok lines =>
    rw [result] at failed
    cases failed

theorem silent_and_readOnly_missing :
    let ctx : Context := ⟨{ dataDirectory := .ofString "/d" }, .ofString "/c.ini", .epoch⟩
    let check := checkPackage (.ofString "/p") false
    let digest := String.ofList (List.replicate 64 'a')
    let fault : CommandError := .library (.missingFile (.ofString "pkg/a") digest)
    ∃ s n k, (performed ctx check s).1.1 = .error fault ∧ (performed ctx check s).1.2 = [] ∧
      (performed ctx check s).2 = s.withOpens n ∧ n ≠ s.opens ∧
      (performed ctx showSettings s).1 = (.ok (), ["# /c.ini",
        "[paths]\ndata_dir=/d\n\n[packages]\nverify_checksums=true\n\n[logging]\nlevel=info"]) ∧
      (performed ctx showSettings s).2 = s.withOpens k := by
  intro ctx check digest fault
  let listed : Bytes := Utf8.ofString (digest ++ "  pkg/a\n")
  let package : Nodes := Nodes.empty.insert (.ofString "/p/pkg") .directory
  let s : Memory := { nodes := package.insert (.ofString "/p/checksum.txt") (.file listed) }
  have failed : (performed ctx check s).1.1 = .error fault := by decide +kernel
  obtain ⟨silent, left⟩ := silent_and_readOnly ctx check s
  obtain ⟨-, shown⟩ := silent_and_readOnly ctx showSettings s
  obtain ⟨n, left⟩ := left rfl
  obtain ⟨k, shown⟩ := shown rfl
  have opened : (performed ctx check s).2.opens ≠ s.opens := by decide +kernel
  rw [left] at opened
  exact ⟨s, n, k, failed, silent fault failed, left, opened, by decide +kernel, shown⟩

end Stowage.Command
