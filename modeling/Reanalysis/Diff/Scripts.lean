import Reanalysis.Diff.Document
import Reanalysis.Script.Program

/-!
# Diffs of scripts

Parses both versions of a program, the base first, and describes the changes between them.
-/

namespace Reanalysis.Diff

inductive Version where
  | base
  | modified
deriving DecidableEq, Repr

structure Unparsable where
  version : Version
  position : Script.Position
deriving DecidableEq, Repr

def Document.ofScripts (program : ProgramId) (base modified : String) :
    Except Unparsable Document := do
  let baseTree ← (Script.parse base).mapError (Unparsable.mk .base)
  let modifiedTree ← (Script.parse modified).mapError (Unparsable.mk .modified)
  return .ofTrees program base modified baseTree modifiedTree

end Reanalysis.Diff
