import Stowage.Instance.Document
import Stowage.Proofs.Json.Prefix

/-! A document that is cut short describes the same instance or none. -/
namespace Stowage

open Json

variable {δ α : Type}

theorem steady_draftField {name : String} {required : Bool} {get : δ → Option α} {set : α → δ → δ}
    {read : Bytes → Scanned α} (h : ∀ n, Steady n read) (n : Nat) :
    Steady n (draftField name required get set read).read :=
  (h n).map set

theorem steady_targetShape : targetShape.Steady := by
  simp only [Shape.Steady, targetShape, List.forall_mem_cons, List.not_mem_nil, false_imp_iff,
    implies_true, and_true]
  exact ⟨steady_draftField takes_text.steady, steady_draftField takes_port.steady,
    steady_draftField takes_text.steady⟩

theorem takes_readTarget : Takes readTarget :=
  (takes_read steady_targetShape {}).map fun d =>
    (⟨d.service.getD "", d.port.getD 0, d.path.getD ""⟩ : MonitoringTarget)

theorem steady_targetsShape : targetsShape.Steady := by
  simp only [Shape.Steady, targetsShape, List.forall_mem_cons, List.not_mem_nil, false_imp_iff,
    implies_true, and_true]
  exact steady_draftField (firm_list takes_readTarget).steady

theorem takes_readTargets : Takes readTargets :=
  (takes_read steady_targetsShape {}).map fun d => d.targets.getD []

theorem steady_apiShape : apiShape.Steady := by
  simp only [Shape.Steady, apiShape, List.forall_mem_cons, List.not_mem_nil, false_imp_iff,
    implies_true, and_true]
  exact ⟨steady_draftField takes_text.steady, steady_draftField takes_port.steady⟩

theorem takes_readApi : Takes readApi :=
  (takes_read steady_apiShape {}).map fun d => (⟨d.service.getD "", d.port.getD 0⟩ : ApiTarget)

theorem steady_pluginShape : pluginShape.Steady := by
  simp only [Shape.Steady, pluginShape, List.forall_mem_cons, List.not_mem_nil, false_imp_iff,
    implies_true, and_true]
  exact steady_draftField takes_text.steady

theorem takes_readPlugin : Takes readPlugin :=
  (takes_read steady_pluginShape {}).map fun d => (⟨d.image.getD ""⟩ : Plugin)

theorem steady_instanceShape : instanceShape.Steady := by
  have text {name : String} {required : Bool} {get : InstanceDraft → Option String}
      {set : String → InstanceDraft → InstanceDraft} (n : Nat) :
      Steady n (draftField name required get set text).read :=
    steady_draftField takes_text.steady n
  simp only [Shape.Steady, instanceShape, List.forall_mem_cons, List.not_mem_nil, false_imp_iff,
    implies_true, and_true]
  exact ⟨text, text, text, text, text, text, text, steady_draftField takes_readTargets.steady,
    steady_draftField fun _ => steady_optional takes_readApi,
    steady_draftField fun _ => steady_optional takes_readPlugin⟩

theorem firm_readInstance : Firm readInstance :=
  (firm_read steady_instanceShape {}).map InstanceDraft.toInstance

namespace Instance

theorem ofJson_eq_ok {text : Bytes} {origin : Path} {i : Instance} :
    ofJson text origin = .ok i ↔ parse readInstance text = .ok i ∧ i.emptyField? = none := by
  rw [ofJson]
  cases parse readInstance text with
  | error fault => simp
  | ok j =>
    dsimp only
    cases empty : j.emptyField? with
    | none =>
      simp only [Except.ok.injEq]
      exact ⟨fun same => ⟨same, same ▸ empty⟩, fun h => h.1⟩
    | some field =>
      simp only [reduceCtorEq, Except.ok.injEq, false_iff, not_and]
      rintro rfl
      simp [empty]

theorem ofJson_of_isPrefix {bs front : Bytes} {p q : Path} {i j : Instance} (cut : front <+: bs)
    (whole : ofJson bs p = .ok i) (part : ofJson front q = .ok j) : j = i := by
  obtain ⟨more, rfl⟩ := cut
  exact (parse_append firm_readInstance (ofJson_eq_ok.mp part).1 (ofJson_eq_ok.mp whole).1).symm

end Instance
end Stowage
