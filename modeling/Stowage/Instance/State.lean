import Stowage.Instance.Document
import Stowage.Storage

/-! The state of an instance, kept in one file of its working directory. -/
namespace Stowage

def stateFileName : String := "state.json"

namespace Instance

variable {m : Type → Type} [Monad m] [Storage m]

def load (directory : Path) : ExceptT Error m Instance := do
  let path := directory.joinText stateFileName
  let absence (f : Failure) : Error := if f.kind = .notFound then .notExist path else .io path f
  let bytes ← ExceptT.adapt absence (Storage.read path)
  ofJson bytes path

def save (i : Instance) (directory : Path) : ExceptT Error m Unit := do
  let path := directory.joinText stateFileName
  failingOn path (Storage.write path i.toJson)

end Instance
end Stowage
