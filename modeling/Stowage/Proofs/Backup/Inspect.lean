import Stowage.Backup.Inspect
import Stowage.Proofs.Archive.RoundTrip
import Stowage.Proofs.Storage.Memory
import Stowage.Proofs.Moment

/-! What the inspection of an archive comes to, once its entries are known. -/
namespace Stowage.Backup

open Memory

variable {s t : Memory} {archive : Path} {bs : Bytes}

theorem readOnly_extractEntry (archive : Path) (entry : String) :
    ReadOnly (extractEntry archive entry) :=
  ((readOnly_openFile archive).failingOn archive).bind fun _ => .settled _

theorem readOnly_readState (archive : Path) : ReadOnly (readState archive) :=
  (readOnly_extractEntry _ _).bind fun _ => .settled _

theorem readOnly_readTime (archive : Path) : ReadOnly (readTime archive) := by
  refine (readOnly_extractEntry _ _).bind fun bytes => ?_
  dsimp only
  split
  · exact .pure _
  · exact .throw _

theorem answer_extractEntry (stored : t.fileContent archive = .ok bs) (entry : String) :
    answer (extractEntry archive entry) t =
      (Archive.readEntry ⟨.ok bs, none⟩ entry).mapError (EntryError.inArchive archive) := by
  rw [extractEntry, ((readOnly_openFile archive).failingOn archive).answer_bind fun _ => .settled _,
    answer_failingOn_eq_ok.mpr (by rw [answer_openFile, stored]; rfl)]
  rfl

theorem answer_readState {data : Bytes} {i : Instance} (stored : t.fileContent archive = .ok bs)
    (found : Archive.readEntry ⟨.ok bs, none⟩ stateEntryName = .ok data)
    (decoded : Instance.ofJson data (archive.joinText stateEntryName) = .ok i) :
    answer (readState archive) t = .ok i := by
  rw [readState, (readOnly_extractEntry _ _).answer_bind fun _ => .settled _,
    answer_extractEntry stored, found]
  exact decoded

theorem answer_readTime {data : Bytes} {m : Moment} (stored : t.fileContent archive = .ok bs)
    (found : Archive.readEntry ⟨.ok bs, none⟩ timeEntryName = .ok data)
    (read : Moment.ofDecimal? (trim (Utf8.decodeLossy data)) = some m) :
    answer (readTime archive) t = .ok m := by
  have extracted := answer_extractEntry stored timeEntryName
  rw [found] at extracted
  rw [readTime, (readOnly_extractEntry _ _).answer_bind_ok extracted]
  · dsimp only
    rw [read]
    rfl
  · dsimp only
    rw [read]
    exact .pure _

theorem answer_inspect {i : Instance} {m : Moment} (stored : t.fileContent archive = .ok bs)
    (extension : hasExtension archive)
    (state : answer (readState archive) t = .ok i)
    (time : answer (readTime archive) t = .ok m) :
    answer (inspect archive) t = .ok (ofInstance i m) := by
  obtain ⟨fine, there⟩ := fileContent_eq_ok.mp stored
  have file : answer (failingOn archive (Storage.isFile archive)) t = .ok true := by
    refine answer_failingOn_eq_ok.mpr ?_
    change t.ask archive _ = _
    rw [ask, allowed_eq_ok.mpr fine, there]
    rfl
  unfold inspect
  rw [((readOnly_isFile _).failingOn _).answer_bind_ok file]
  all_goals
    dsimp only
    simp only [extension, Bool.not_true, Bool.false_eq_true, if_false]
  · rw [(readOnly_readState _).answer_bind_ok state, (readOnly_readTime _).answer_bind_ok time]
    · rfl
    · exact (ReadOnly.note _).bind fun _ => .pure _
    · exact (readOnly_readTime _).bind fun _ => (ReadOnly.note _).bind fun _ => .pure _
  · exact (readOnly_readState _).bind fun _ => (readOnly_readTime _).bind fun _ =>
      (ReadOnly.note _).bind fun _ => .pure _

section Alike

variable (node : t.get? archive = s.get? archive) (denied : t.isDenied archive = s.isDenied archive)
include node denied

theorem alike_extractEntry (entry : String) : Alike s t (extractEntry archive entry) := by
  have opened : Alike s t (Storage.openFile archive) := by
    refine ⟨readOnly_openFile archive, ?_⟩
    rw [answer_openFile, answer_openFile, fileContent, fileContent, allowed, allowed, node, denied]
  exact (opened.failingOn archive).bind fun _ => .settled _

theorem alike_readState : Alike s t (readState archive) :=
  (alike_extractEntry node denied stateEntryName).bind fun _ => .settled _

theorem alike_readTime : Alike s t (readTime archive) := by
  refine (alike_extractEntry node denied timeEntryName).bind fun bytes => ?_
  dsimp only
  split
  · exact .pure _
  · exact .throw _

theorem alike_inspect : Alike s t (inspect archive) := by
  have asked : Alike s t (Storage.isFile archive) := by
    refine ⟨readOnly_isFile archive, ?_⟩
    change t.ask archive _ = s.ask archive _
    rw [ask, ask, allowed, allowed, node, denied]
  refine (asked.failingOn archive).bind fun file => ?_
  dsimp only
  split
  · exact .throw _
  · split
    · exact .throw _
    · refine (alike_readState node denied).bind fun i => ?_
      exact (alike_readTime node denied).bind fun time => (Alike.note _).bind fun _ => .pure _

end Alike

theorem readOnly_inspect (archive : Path) : ReadOnly (inspect archive) :=
  (alike_inspect (s := {}) (t := {}) rfl rfl).toReadOnly

end Stowage.Backup
