import Reanalysis.Report.Overhead
import Reanalysis.Store.Action

/-!
# Stored overhead
-/

namespace Reanalysis.Overhead

open Files (Location)

/-- None if there is no such file. -/
def load (path : Location) : StoreAction (Option Overhead) := do
  match ← StoreAction.readOptional path with
  | none => return none
  | some bytes =>
    match Json.readBytes reader bytes with
    | .ok o => return some o
    | .error e => throw (.encode e)

def save (o : Overhead) (path : Location) : StoreAction Unit :=
  StoreAction.replace path (Text.encode (o.toJson.renderPretty ++ "\n"))

end Reanalysis.Overhead
