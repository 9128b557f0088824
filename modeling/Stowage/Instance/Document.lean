import Stowage.Error
import Stowage.Instance
import Stowage.Json.Printer
import Stowage.Json.Record

/-! The document that holds an instance. Name, tag, URL, version and commit have to be there, other
fields have defaults, and a document without a name or a tag describes no instance. -/
namespace Stowage

open Json

structure TargetDraft where
  service : Option String := none
  port : Option UInt16 := none
  path : Option String := none

def draftField {δ α : Type} (name : String) (required : Bool) (get : δ → Option α) (set : α → δ → δ)
    (read : Bytes → Scanned α) : FieldRule δ :=
  { name, required, isSet := fun d => (get d).isSome,
    read := fun bs => (read bs).map fun (v, rest) => (set v, rest) }

def targetShape : Shape TargetDraft where
  label := "struct MonitoringTarget"
  fields := [
    draftField "service" true TargetDraft.service (fun v d => { d with service := some v }) text,
    draftField "port" true TargetDraft.port (fun v d => { d with port := some v }) port,
    draftField "path" false TargetDraft.path (fun v d => { d with path := some v }) text]

def readTarget (bs : Bytes) : Scanned MonitoringTarget :=
  (targetShape.read {} bs).map fun (d, rest) => (⟨d.service.getD "", d.port.getD 0, d.path.getD ""⟩,
    rest)

structure TargetsDraft where
  targets : Option (List MonitoringTarget) := none

def targetsShape : Shape TargetsDraft where
  label := "struct MonitoringTargets"
  fields :=
    [draftField "targets" false TargetsDraft.targets (fun v _ => ⟨some v⟩) (list readTarget)]

def readTargets (bs : Bytes) : Scanned (List MonitoringTarget) :=
  (targetsShape.read {} bs).map fun (d, rest) => (d.targets.getD [], rest)

structure ApiDraft where
  service : Option String := none
  port : Option UInt16 := none

def apiShape : Shape ApiDraft where
  label := "struct ApiTarget"
  fields := [
    draftField "service" true ApiDraft.service (fun v d => { d with service := some v }) text,
    draftField "port" true ApiDraft.port (fun v d => { d with port := some v }) port]

def readApi (bs : Bytes) : Scanned ApiTarget :=
  (apiShape.read {} bs).map fun (d, rest) => (⟨d.service.getD "", d.port.getD 0⟩, rest)

structure PluginDraft where
  image : Option String := none

def pluginShape : Shape PluginDraft where
  label := "struct Plugin"
  fields := [draftField "image" true PluginDraft.image (fun v _ => ⟨some v⟩) text]

def readPlugin (bs : Bytes) : Scanned Plugin :=
  (pluginShape.read {} bs).map fun (d, rest) => (⟨d.image.getD ""⟩, rest)

structure InstanceDraft where
  name : Option String := none
  tag : Option String := none
  url : Option String := none
  version : Option String := none
  commit : Option String := none
  specVersion : Option String := none
  profile : Option String := none
  targets : Option (List MonitoringTarget) := none
  api : Option (Option ApiTarget) := none
  plugin : Option (Option Plugin) := none

def instanceShape : Shape InstanceDraft where
  label := "struct Instance"
  fields := [
    draftField "name" true InstanceDraft.name (fun v d => { d with name := some v }) text,
    draftField "tag" true InstanceDraft.tag (fun v d => { d with tag := some v }) text,
    draftField "url" true InstanceDraft.url (fun v d => { d with url := some v }) text,
    draftField "version" true InstanceDraft.version (fun v d => { d with version := some v }) text,
    draftField "commit" true InstanceDraft.commit (fun v d => { d with commit := some v }) text,
    draftField "spec_version" false InstanceDraft.specVersion (fun v d =>
      { d with specVersion := some v }) text,
    draftField "profile" false InstanceDraft.profile (fun v d => { d with profile := some v }) text,
    draftField "monitoring" false InstanceDraft.targets (fun v d =>
      { d with targets := some v }) readTargets,
    draftField "api" false InstanceDraft.api (fun v d =>
      { d with api := some v }) (optional readApi),
    draftField "plugin" false InstanceDraft.plugin (fun v d =>
      { d with plugin := some v }) (optional readPlugin)]

def InstanceDraft.toInstance (d : InstanceDraft) : Instance where
  name := d.name.getD ""
  tag := d.tag.getD ""
  url := d.url.getD ""
  version := d.version.getD ""
  commit := d.commit.getD ""
  specVersion := d.specVersion.getD ""
  profile := d.profile.getD ""
  targets := d.targets.getD []
  api := d.api.getD none
  plugin := d.plugin.getD none

def readInstance (bs : Bytes) : Scanned Instance :=
  (instanceShape.read {} bs).map fun (d, rest) => (d.toInstance, rest)

namespace Instance

def ofJson (bs : Bytes) (origin : Path) : Except Error Instance :=
  match parse readInstance bs with
  | .error fault => .error (.malformedDocument origin fault)
  | .ok i =>
    match i.emptyField? with
    | some field => .error (.emptyIdentity origin field)
    | none => .ok i

def printTarget (t : MonitoringTarget) : Printed :=
  printObject [("service", printText t.service), ("port", printNumber t.port.toNat),
    ("path", printText t.path)]

def printApi (a : ApiTarget) : Printed :=
  printObject [("service", printText a.service), ("port", printNumber a.port.toNat)]

def printPlugin (p : Plugin) : Printed := printObject [("image", printText p.image)]

def printed (i : Instance) : Printed :=
  printObject ([("name", printText i.name), ("tag", printText i.tag), ("url", printText i.url),
    ("version", printText i.version), ("commit", printText i.commit),
    ("spec_version", printText i.specVersion),
    ("profile", printText i.profile),
    ("monitoring", printObject [("targets", printList (i.targets.map printTarget))])] ++
    (i.api.map fun a => ("api", printApi a)).toList ++ (i.plugin.map fun p =>
      ("plugin", printPlugin p)).toList)

def toJson (i : Instance) : Bytes := Utf8.encode (i.printed 0)

end Instance
end Stowage
