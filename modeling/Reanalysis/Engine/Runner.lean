import Reanalysis.Engine.Command
import Reanalysis.Files.Basic

/-!
# Running commands

What runs a command may do anything to the files and has a state of its own. All that is known
about a run is its outcome.
-/

namespace Reanalysis

inductive Exit where
  | exited (code : Int)
  | timedOut
  | launchFailed (message : String)
deriving DecidableEq, Repr

structure Outcome where
  exit : Exit
  elapsed : Duration
  stdout : String
  stderr : String
deriving DecidableEq, Repr

/-- The files, and the state of what runs the commands. -/
structure World (σ : Type) where
  files : Files
  engine : σ

abbrev Runner (σ : Type) := Command → StateM (World σ) Outcome

end Reanalysis
