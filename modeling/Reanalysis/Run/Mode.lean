import Reanalysis.Json.Record

/-!
# How an engine is run and how a run ends
-/

namespace Reanalysis

inductive Mode where
  | full
  /-- An incremental run over a cache and a diff. -/
  | targeted
  /-- A run from scratch on the modified program, in place of a targeted one. -/
  | cold
  | fuzz
deriving DecidableEq, Repr

namespace Mode

def all : List Mode := [.full, .targeted, .cold, .fuzz]

def name : Mode → String
  | .full => "full"
  | .targeted => "targeted"
  | .cold => "cold"
  | .fuzz => "fuzz"

def ofName? (s : String) : Option Mode := all.find? (·.name = s)

theorem ofName?_name (m : Mode) : ofName? m.name = some m := by cases m <;> rfl

/-- Whether the mode answers a request for a targeted analysis. -/
def isIncremental : Mode → Bool
  | .targeted | .cold => true
  | .full | .fuzz => false

def toJson (m : Mode) : Json.Value := .text m.name

def reader : Json.Reader Mode := Json.named ofName?

end Mode

inductive Status where
  | ok
  | failed
  | timeout
deriving DecidableEq, Repr

namespace Status

def name : Status → String
  | .ok => "ok"
  | .failed => "failed"
  | .timeout => "timeout"

def ofName? (s : String) : Option Status := [Status.ok, .failed, .timeout].find? (·.name = s)

theorem ofName?_name (s : Status) : ofName? s.name = some s := by cases s <;> rfl

def timeoutCode : Int := 124

def launchCode : Int := -1

/-- The status behind a bare code. A wait status carries the code in its second byte. -/
def ofCode (code : Int) : Status :=
  if code = 0 then .ok
  else if code = timeoutCode || code = timeoutCode * 256 then .timeout
  else .failed

def toJson (s : Status) : Json.Value := .text s.name

def reader : Json.Reader Status := Json.named ofName?

end Status

end Reanalysis
