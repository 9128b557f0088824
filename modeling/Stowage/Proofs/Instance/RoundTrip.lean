import Stowage.Instance.State
import Stowage.Proofs.Json.RoundTrip
import Stowage.Proofs.Storage.Memory
import Stowage.Proofs.Storage.Run

/-! An instance is read back from its own document, unless its name or its tag is empty: then the
document can be written but is refused. -/
namespace Stowage

open Json

section Parts

variable {δ α : Type} {s : Shape δ} {draft filled : δ} {members : List (String × Printed)}
    {name : String}

theorem fills_field {required : Bool} {get : δ → Option α} {set : α → δ → δ}
    {read : Bytes → Scanned α} {printed : Printed} {value : α}
    (named : s.fields.find? (fun f => f.name.toList == name.toList) =
      some (draftField name required get set read))
    (unset : (get draft).isSome = false) (reads : Reads read printed value)
    (others : Fills s (set value draft) members filled) :
    Fills s draft ((name, printed) :: members) filled :=
  .field named unset (reads.map set) others

theorem reads_target (t : MonitoringTarget) : Reads readTarget (Instance.printTarget t) t := by
  have all : Fills targetShape {}
      [("service", printText t.service), ("port", printNumber t.port.toNat),
        ("path", printText t.path)]
      { service := some t.service, port := some t.port, path := some t.path } :=
    fills_field (by rfl) rfl (reads_text _) <|
    fills_field (by rfl) rfl (reads_port _) <|
    fills_field (by rfl) rfl (reads_text _) (.done _)
  exact (reads_object all rfl).map fun d =>
    (⟨d.service.getD "", d.port.getD 0, d.path.getD ""⟩ : MonitoringTarget)

theorem reads_targets (targets : List MonitoringTarget) :
    Reads readTargets (printObject [("targets", printList (targets.map Instance.printTarget))])
      targets := by
  have items : Reads (list readTarget) (printList (targets.map Instance.printTarget)) targets :=
    reads_list (fun t _ => reads_target t) fun _ _ => opens_object _
  have all : Fills targetsShape {} [("targets", printList (targets.map Instance.printTarget))]
      ⟨some targets⟩ :=
    fills_field (by rfl) rfl items (.done _)
  exact (reads_object all rfl).map fun d => d.targets.getD []

theorem reads_api (a : ApiTarget) : Reads readApi (Instance.printApi a) a := by
  have all : Fills apiShape {} [("service", printText a.service),
      ("port", printNumber a.port.toNat)]
      { service := some a.service, port := some a.port } :=
    fills_field (by rfl) rfl (reads_text _) (fills_field (by rfl) rfl (reads_port _) (.done _))
  exact (reads_object all rfl).map fun d => (⟨d.service.getD "", d.port.getD 0⟩ : ApiTarget)

theorem reads_plugin (p : Plugin) : Reads readPlugin (Instance.printPlugin p) p := by
  have all : Fills pluginShape {} [("image", printText p.image)] ⟨some p.image⟩ :=
    fills_field (by rfl) rfl (reads_text _) (.done _)
  exact (reads_object all rfl).map fun d => (⟨d.image.getD ""⟩ : Plugin)

end Parts

namespace Instance

def draft (i : Instance) : InstanceDraft where
  name := i.name
  tag := i.tag
  url := i.url
  version := i.version
  commit := i.commit
  specVersion := i.specVersion
  profile := i.profile
  targets := i.targets
  api := i.api.map some
  plugin := i.plugin.map some

theorem toInstance_draft (i : Instance) : i.draft.toInstance = i := by
  obtain ⟨name, tag, url, version, commit, specVersion, profile, targets, _ | api, _ | plugin⟩ :=
    i <;> rfl

theorem fills_api (i : Instance) :
    Fills instanceShape { i.draft with api := none, plugin := none }
    (i.api.map fun a => ("api", printApi a)).toList
      { i.draft with plugin := none } := by
  obtain ⟨name, tag, url, version, commit, specVersion, profile, targets, _ | api, plugin⟩ := i
  · exact .done _
  · exact fills_field (by rfl) rfl (reads_optional (reads_api api) (opens_object _)) (.done _)

theorem fills_plugin (i : Instance) :
    Fills instanceShape { i.draft with plugin := none }
    (i.plugin.map fun p => ("plugin", printPlugin p)).toList i.draft := by
  obtain ⟨name, tag, url, version, commit, specVersion, profile, targets, api, _ | plugin⟩ := i
  · exact .done _
  · exact fills_field (by rfl) rfl (reads_optional (reads_plugin plugin) (opens_object _)) (.done _)

theorem missing?_draft (i : Instance) : instanceShape.missing? i.draft = none := rfl

theorem read_toJson (i : Instance) : readInstance i.toJson = .ok (i, []) := by
  have identity : Fills instanceShape {} [("name", printText i.name), ("tag", printText i.tag),
      ("url", printText i.url), ("version", printText i.version), ("commit", printText i.commit)]
      { name := i.name, tag := i.tag, url := i.url, version := i.version, commit := i.commit } :=
    fills_field (by rfl) rfl (reads_text _) <|
    fills_field (by rfl) rfl (reads_text _) <|
    fills_field (by rfl) rfl (reads_text _) <|
    fills_field (by rfl) rfl (reads_text _) <|
    fills_field (by rfl) rfl (reads_text _) (.done _)
  have details : Fills instanceShape
      { name := i.name, tag := i.tag, url := i.url, version := i.version, commit := i.commit }
      [("spec_version", printText i.specVersion), ("profile", printText i.profile),
        ("monitoring", printObject [("targets", printList (i.targets.map printTarget))])]
      { i.draft with api := none, plugin := none } :=
    fills_field (by rfl) rfl (reads_text _) <|
    fills_field (by rfl) rfl (reads_text _) <|
    fills_field (by rfl) rfl (reads_targets _) (.done _)
  have all := ((identity.append details).append i.fills_api).append i.fills_plugin
  have whole : instanceShape.read {} i.toJson = .ok (i.draft, []) :=
    read_object all i.missing?_draft (by rw [List.append_nil]; rfl)
  rw [readInstance, whole]
  exact congrArg (fun i => Except.ok (i, [])) i.toInstance_draft

theorem parse_toJson (i : Instance) : parse readInstance i.toJson = .ok i := by
  rw [parse, i.read_toJson]
  rfl

theorem ofJson_toJson (i : Instance) (origin : Path) :
    ofJson i.toJson origin = match i.emptyField? with
      | some field => .error (.emptyIdentity origin field)
      | none => .ok i := by
  cases empty : i.emptyField? with
  | none => simp only [ofJson, i.parse_toJson, empty]
  | some field => simp only [ofJson, i.parse_toJson, empty]

theorem emptyField?_eq_none {i : Instance} : i.emptyField? = none ↔ i.name ≠ "" ∧ i.tag ≠ "" := by
  unfold emptyField?
  split_ifs with name tag
  · exact ⟨nofun, fun h => absurd name h.1⟩
  · exact ⟨nofun, fun h => absurd tag h.2⟩
  · exact ⟨fun _ => ⟨name, tag⟩, fun _ => rfl⟩

/-- The answer to a document that describes `i`: the instance if it has a name and a tag, or the
fault of the empty one. -/
structure ReadBack (i : Instance) (origin : Path) (answer : Except Error Instance) : Prop where
  same : answer = .ok i ↔ i.name ≠ "" ∧ i.tag ≠ ""
  refused : ¬ (i.name ≠ "" ∧ i.tag ≠ "") →
    ∃ field, i.emptyField? = some field ∧ answer = .error (.emptyIdentity origin field)

theorem readBack_ofJson (i : Instance) (origin : Path) :
    ReadBack i origin (ofJson i.toJson origin) := by
  rw [ofJson_toJson]
  cases empty : i.emptyField? with
  | none =>
    have named := emptyField?_eq_none.mp empty
    exact ⟨iff_of_true rfl named, fun h => absurd named h⟩
  | some field =>
    have unnamed : ¬ (i.name ≠ "" ∧ i.tag ≠ "") := by
      rw [← emptyField?_eq_none, empty]
      exact Option.some_ne_none field
    exact ⟨iff_of_false nofun unnamed, fun _ => ⟨field, empty, rfl⟩⟩

section Stored

open Memory

variable {s t : Memory} {directory : Path}

theorem answer_load {bytes : Bytes}
    (stored : s.fileContent (directory.joinText stateFileName) = .ok bytes) :
    answer (load directory) s = ofJson bytes (directory.joinText stateFileName) := by
  unfold load
  dsimp only
  have read := answer_read (directory.joinText stateFileName) s
  rw [stored] at read
  rw [((readOnly_read _).adapt _).answer_bind fun _ => .lifted _, answer, run_adapt, ← answer, read]
  rfl

theorem fileContent_save {i : Instance} (saved : run (i.save directory) s = (.ok (), t)) :
    t.fileContent (directory.joinText stateFileName) = .ok i.toJson :=
  fileContent_writeFile (run_failingOn_eq_ok.mp saved)

/-- The document of an instance gives the instance back exactly if it has a name and a tag, and so
does its directory, which takes any instance. -/
theorem readBack_toJson (i : Instance) (origin : Path) :
    ReadBack i origin (ofJson i.toJson origin) ∧
      ∀ directory s t, run (i.save directory) s = (.ok (), t) →
        ReadBack i (directory.joinText stateFileName) (answer (load directory) t) := by
  refine ⟨readBack_ofJson i origin, fun directory s t saved => ?_⟩
  rw [answer_load (fileContent_save saved)]
  exact readBack_ofJson i _

theorem readBack_saved :
    ∃ i s t, run (save i (.ofString "i")) s = (.ok (), t) ∧ i.name = "a\"\n" ∧
    i.targets = [⟨"s", 65535, "é"⟩] ∧
      answer (load (.ofString "i")) t = .ok i := by
  let i : Instance :=
    { name := "a\"\n", tag := "t", url := "", version := "", commit := "",
      targets := [⟨"s", 65535, "é"⟩], plugin := some ⟨"\\"⟩ }
  let t : Memory := (run (i.save (.ofString "i")) {}).2
  have saved : run (i.save (.ofString "i")) {} = (.ok (), t) := Prod.ext (by decide +kernel) rfl
  exact ⟨i, {}, t, saved, rfl, rfl,
    ((readBack_toJson i (.ofString "i")).2 _ _ _ saved).same.mpr ⟨by decide, by decide⟩⟩

end Stored

end Instance
end Stowage
