import Reanalysis.Program.Id
import Reanalysis.Program.Metrics

/-!
# Programs of a corpus

What is known about a program, why nothing is known about it, and the outcome of looking at many.
-/

namespace Reanalysis

structure Program where
  id : ProgramId
  source : String
  /-- The modified version, for targeted runs. -/
  modified : Option String
  /-- The version that the fuzzer runs. -/
  harness : Option String
  lines : Option Nat
  metrics : Metrics

inductive Issue where
  | missing (path : String)
  | malformed (error : RecordError)
  | unreadable (path : String)

structure Scan where
  programs : List Program
  excluded : List (ProgramId × Issue)

namespace Scan

def program? (s : Scan) (id : ProgramId) : Option Program :=
  (s.programs.filter (·.id = id)).getLast?

def issue? (s : Scan) (id : ProgramId) : Option Issue := ProgramId.latest? s.excluded id

end Scan

end Reanalysis
