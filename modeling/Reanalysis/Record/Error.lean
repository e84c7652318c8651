import Reanalysis.Json.Record
import Reanalysis.Text.Blank

/-!
# Refused records

Why a record of a program or of a run is refused, with the text shown for it.
-/

namespace Reanalysis

inductive RecordError where
  /-- Program ids start at one. -/
  | programId (number : Nat)
  | emptyStats
  | badAverage (key : String) (value : Float)
  | badTime (program : Nat) (seconds : Float)
  | badBudget (program : Nat) (seconds : Float)
  | json (fault : Json.Fault)

namespace RecordError

def ofJson {α : Type} : Except Json.Fault α → Except RecordError α
  | .ok a => .ok a
  | .error e => .error (.json e)

def message : RecordError → String
  | .programId n => s!"invalid program id: {n}"
  | .emptyStats => "invalid static metrics: empty stats file"
  | .badAverage key x => s!"invalid static metrics: {key} = " ++ Decimal.message.render x
  | .badTime program x =>
    s!"invalid record: program {program}: time " ++ Decimal.message.render x ++
      " is not a non-negative number"
  | .badBudget program x =>
    s!"invalid record: program {program}: fuzz budget " ++ Decimal.message.render x ++
      " must be positive"
  | .json _ => "json error"

end RecordError

end Reanalysis
