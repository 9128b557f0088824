import Stowage.Proofs.Instance.Prefix
import Stowage.Proofs.Json.Variation

/-! A document of tomorrow describes the same instance as the one of today that it was made of:
members may have changed places, and there may be members of names that are not known yet. -/
namespace Stowage

open Json

def targetLayout : Layout := [("service", Eq), ("port", Eq), ("path", Eq)]

def targetsLayout : Layout := [("targets", ListVaries (RecordVaries targetLayout))]

def apiLayout : Layout := [("service", Eq), ("port", Eq)]

def pluginLayout : Layout := [("image", Eq)]

def instanceLayout : Layout :=
  [("name", Eq), ("tag", Eq), ("url", Eq), ("version", Eq), ("commit", Eq), ("spec_version", Eq),
    ("profile", Eq), ("monitoring", RecordVaries targetsLayout), ("api", RecordVaries apiLayout),
    ("plugin", RecordVaries pluginLayout)]

section Fields

variable {δ α β : Type} {name other : String} {required required' : Bool} {get : δ → Option α}
    {set : α → δ → δ}
  {get' : δ → Option β} {set' : β → δ → δ} {read : Bytes → Scanned α} {read' : Bytes → Scanned β}
  {vary : Variation}

theorem gives_draftField {change : δ → δ}
    (h : (draftField name required get set read).Gives change) : ∃ v, change = set v := by
  obtain ⟨bs, rest, found⟩ := h
  obtain ⟨⟨v, behind⟩, -, eq⟩ := map_eq_ok.mp found
  cases eq
  exact ⟨v, rfl⟩

theorem matches_draftField (follows : Follows vary read) (own : ∀ v d, (get (set v d)).isSome) :
    Matches (name, vary) (draftField name required get set read) where
  named := rfl
  follows := follows.map set
  owns change gives d := by
    obtain ⟨v, rfl⟩ := gives_draftField gives
    exact own v d

theorem matches_text {get : δ → Option String} {set : String → δ → δ}
    (own : ∀ v d, (get (set v d)).isSome) :
    Matches (name, Eq) (draftField name required get set text) :=
  matches_draftField Faithful.text.follows own

theorem matches_port {get : δ → Option UInt16} {set : UInt16 → δ → δ}
    (own : ∀ v d, (get (set v d)).isSome) :
    Matches (name, Eq) (draftField name required get set port) :=
  matches_draftField Faithful.port.follows own

theorem apart_draftField (commute : ∀ v w d, set v (set' w d) = set' w (set v d))
    (keeps : ∀ v d, get' (set v d) = get' d) (kept : ∀ w d, get (set' w d) = get d) :
    Apart (draftField name required get set read) (draftField other required' get' set' read') where
  commute gives gives' d := by
    obtain ⟨v, rfl⟩ := gives_draftField gives
    obtain ⟨w, rfl⟩ := gives_draftField gives'
    exact commute v w d
  keeps gives d := by
    obtain ⟨v, rfl⟩ := gives_draftField gives
    exact congrArg Option.isSome (keeps v d)
  kept gives d := by
    obtain ⟨w, rfl⟩ := gives_draftField gives
    exact congrArg Option.isSome (kept w d)

end Fields

section Shapes

theorem fits_targetShape : Fits targetLayout targetShape where
  each :=
    .cons (matches_text fun _ _ => rfl) <|
    .cons (matches_port fun _ _ => rfl) <|
    .cons (matches_text fun _ _ => rfl) .nil
  distinct := by decide
  apart := by
    simp only [targetShape, List.pairwise_cons, List.forall_mem_cons, List.not_mem_nil,
      false_imp_iff, implies_true, and_true, List.Pairwise.nil]
    and_intros <;> exact apart_draftField (fun _ _ _ => rfl) (fun _ _ => rfl) fun _ _ => rfl

theorem follows_readTarget : Follows (RecordVaries targetLayout) readTarget :=
  (fits_targetShape.follows {}).map fun d =>
    (⟨d.service.getD "", d.port.getD 0, d.path.getD ""⟩ : MonitoringTarget)

theorem fits_targetsShape : Fits targetsLayout targetsShape where
  each := .cons (matches_draftField follows_readTarget.list fun _ _ => rfl) .nil
  distinct := by decide
  apart := List.pairwise_singleton _ _

theorem follows_readTargets : Follows (RecordVaries targetsLayout) readTargets :=
  (fits_targetsShape.follows {}).map fun d => d.targets.getD []

theorem fits_apiShape : Fits apiLayout apiShape where
  each := .cons (matches_text fun _ _ => rfl) (.cons (matches_port fun _ _ => rfl) .nil)
  distinct := by decide
  apart := by
    simp only [apiShape, List.pairwise_cons, List.forall_mem_cons, List.not_mem_nil, false_imp_iff,
      implies_true, and_true, List.Pairwise.nil]
    exact apart_draftField (fun _ _ _ => rfl) (fun _ _ => rfl) fun _ _ => rfl

theorem follows_readApi : Follows (RecordVaries apiLayout) readApi :=
  (fits_apiShape.follows {}).map fun d => (⟨d.service.getD "", d.port.getD 0⟩ : ApiTarget)

theorem fits_pluginShape : Fits pluginLayout pluginShape where
  each := .cons (matches_text fun _ _ => rfl) .nil
  distinct := by decide
  apart := List.pairwise_singleton _ _

theorem follows_readPlugin : Follows (RecordVaries pluginLayout) readPlugin :=
  (fits_pluginShape.follows {}).map fun d => (⟨d.image.getD ""⟩ : Plugin)

theorem fits_instanceShape : Fits instanceLayout instanceShape where
  each :=
    .cons (matches_text fun _ _ => rfl) <|
    .cons (matches_text fun _ _ => rfl) <|
    .cons (matches_text fun _ _ => rfl) <|
    .cons (matches_text fun _ _ => rfl) <|
    .cons (matches_text fun _ _ => rfl) <|
    .cons (matches_text fun _ _ => rfl) <|
    .cons (matches_text fun _ _ => rfl) <|
    .cons (matches_draftField follows_readTargets fun _ _ => rfl) <|
    .cons (matches_draftField follows_readApi.optional fun _ _ => rfl) <|
    .cons (matches_draftField follows_readPlugin.optional fun _ _ => rfl) .nil
  distinct := by decide
  apart := by
    simp only [instanceShape, List.pairwise_cons, List.forall_mem_cons, List.not_mem_nil,
      false_imp_iff, implies_true, and_true, List.Pairwise.nil]
    and_intros <;> exact apart_draftField (fun _ _ _ => rfl) (fun _ _ => rfl) fun _ _ => rfl

theorem follows_readInstance : Follows (RecordVaries instanceLayout) readInstance :=
  (fits_instanceShape.follows {}).map InstanceDraft.toInstance

end Shapes

namespace Instance

/-- Every document that begins as an object is one, and describes the same instance when its blanks
are others, when the members of its records have changed places, and when there are members of other
names in them, whatever their values are. -/
theorem ofJson_varied {text : Bytes} {origin : Path} {i : Instance}
    (accepted : ofJson text origin = .ok i)
    (opened : (skipSpace text).head? = some (octet '\x7b')) :
    (∃ members, Spells (.object members) text) ∧
      ∀ members others text' origin', Spells (.object members) text →
        RecordVaries instanceLayout (.object members) (.object others) →
        Spells (.object others) text' →
        ofJson text' origin' = .ok i := by
  obtain ⟨parsed, named⟩ := ofJson_eq_ok.mp accepted
  obtain ⟨faithful, respects⟩ := follows_readInstance
  constructor
  · obtain ⟨v, spelled⟩ := exists_spells faithful parsed
    obtain ⟨members, rfl⟩ := exists_members_of_spells spelled opened
    exact ⟨members, spelled⟩
  · intro members others text' origin' spelled varies spelled'
    have varied := respects _ _ i varies ((parse_spells faithful spelled).mp parsed)
    exact ofJson_eq_ok.mpr ⟨(parse_spells faithful spelled').mpr varied, named⟩

def verbatim (s : String) : Quoted :=
  ⟨(ascii s).filterMap fun b =>
    if h : b ≠ octet '"' ∧ b ≠ octet '\\' ∧ ¬ b < 0x20 then some (.plain b h.1 h.2.1 h.2.2)
      else none⟩

/-- Blanks come between, two members change places, and one that nobody knows comes before them. -/
theorem ofJson_varied_swapped :
    ∃ i : Instance, i.name = "a" ∧ i.tag = "t" ∧
      ofJson
          (ascii ("\x7b\"name\":\"a\",\"tag\":\"t\"," ++
            "\"url\":\"\",\"version\":\"\",\"commit\":\"\"\x7d"))
          (.ofString "s") = .ok i ∧
      ofJson
          (ascii (" \x7b \"x\" : [ \x7b \"tag\" : null \x7d ] , \"tag\" : \"t\" , \"name\" : \"a\" , " ++
            "\"url\" : \"\" , \"version\" : \"\" , \"commit\" : \"\" \x7d "))
          (.ofString "s") = .ok i := by
  let i : Instance := { name := "a", tag := "t", url := "", version := "", commit := "" }
  let member (key value : String) : Member := (verbatim key, .text (verbatim value))
  let unknown : Member := (verbatim "x", .list [.object [(verbatim "tag", .word .null)]])
  let later : List Member := [member "url" "", member "version" "", member "commit" ""]
  let members : List Member := member "name" "a" :: member "tag" "t" :: later
  let others : List Member := unknown :: member "tag" "t" :: member "name" "a" :: later
  have accepted : ofJson (spaced [] (Value.object members).tokens ++ []) (.ofString "s") =
      .ok i := by decide +kernel
  have each : List.Forall₂ (MemberVaries instanceLayout) members members :=
    List.forall₂_same.mpr fun m _ => .kept m
  have foreign : ∀ m ∈ [unknown], Foreign instanceLayout m :=
    List.forall_mem_singleton.mpr ⟨"x", by decide +kernel, by decide⟩
  have order : others.Perm (members ++ [unknown]) :=
    ((List.Perm.swap _ _ later).cons unknown).trans
      (List.perm_append_singleton unknown members).symm
  obtain ⟨-, varied⟩ := ofJson_varied accepted (by decide +kernel)
  have again :=
    varied members others _ (.ofString "s") (spells_spaced (List.forall_mem_nil _) _)
    (.object each foreign order)
    (spells_spaced (List.forall_mem_singleton.mpr (by decide : isSpace 0x20)) _)
  exact ⟨i, rfl, rfl, (congrArg (ofJson · (.ofString "s")) (by decide +kernel)).trans accepted,
    (congrArg (ofJson · (.ofString "s")) (by decide +kernel)).trans again⟩

end Instance

end Stowage
