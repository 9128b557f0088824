/-! An installed node: what it was built from, and the services it shows to others. -/
namespace Stowage

structure MonitoringTarget where
  service : String
  port : UInt16
  path : String
deriving DecidableEq

structure ApiTarget where
  service : String
  port : UInt16
deriving DecidableEq

structure Plugin where
  image : String
deriving DecidableEq

structure Instance where
  name : String
  tag : String
  url : String
  version : String
  commit : String
  specVersion : String := ""
  profile : String := ""
  targets : List MonitoringTarget := []
  api : Option ApiTarget := none
  plugin : Option Plugin := none
deriving DecidableEq

def instanceId (name tag : String) : String := name ++ "-" ++ tag

def Instance.id (i : Instance) : String := instanceId i.name i.tag

def Instance.emptyField? (i : Instance) : Option String :=
  if i.name = "" then some "name" else if i.tag = "" then some "tag" else none

end Stowage
