import Reanalysis.Files.Basic
import Reanalysis.Program.Scan
import Reanalysis.Text.Digit

/-!
# The corpus

The programs lie in one directory under their numbers, with their modified versions, their fuzzing
versions and what is known about them. What has been read about a program once is not read again.
-/

namespace Reanalysis

open Files (Location)

structure Corpus where
  dir : Location
  /-- Metrics by the location that they were read from. -/
  known : List (Location × Metrics)

namespace Corpus

def new (dir : Location) : Corpus := ⟨dir, []⟩

def inDir (c : Corpus) (id : ProgramId) (ending : String) : Location :=
  Files.join c.dir (id.render ++ ending)

def sourcePath (c : Corpus) (id : ProgramId) : Location := c.inDir id ".jse.js"

def modifiedPath (c : Corpus) (id : ProgramId) : Location := c.inDir id ".jse.diff.js"

def harnessPath (c : Corpus) (id : ProgramId) : Location := c.inDir id ".jazzer.js"

def statsPath (c : Corpus) (id : ProgramId) : Location := c.inDir id ".stats.json"

def readText (fs : Files) (path : Location) : Except Issue String :=
  match fs.readText path with
  | .ok text => .ok text
  | .error .notFound => .error (.missing path)
  | .error _ => .error (.unreadable path)

/-- The metrics of a program, and the corpus that remembers them. -/
def metrics (c : Corpus) (fs : Files) (id : ProgramId) : Except Issue (Metrics × Corpus) := do
  let path := c.statsPath id
  match c.known.lookup path with
  | some m => return (m, c)
  | none =>
    let m ← (Metrics.ofStats (← readText fs path)).mapError Issue.malformed
    return (m, { c with known := (path, m) :: c.known })

/-- Everything about one program. Metrics are remembered even if the record fails otherwise. -/
def load (c : Corpus) (fs : Files) (id : ProgramId) : Except Issue Program × Corpus :=
  let source := c.sourcePath id
  match readText fs source with
  | .error e => (.error e, c)
  | .ok text =>
    match c.metrics fs id with
    | .error e => (.error e, c)
    | .ok (m, c) =>
      let present (path : Location) := if fs.isFile path then some path else none
      (.ok ⟨id, source, present (c.modifiedPath id), present (c.harnessPath id),
        some (Text.lines text).length, m⟩, c)

def loadAll (c : Corpus) (fs : Files) : List ProgramId → Scan × Corpus
  | [] => (⟨[], []⟩, c)
  | id :: ids =>
    let (result, c) := c.load fs id
    let (scan, c) := c.loadAll fs ids
    match result with
    | .ok p => ({ scan with programs := p :: scan.programs }, c)
    | .error e => ({ scan with excluded := (id, e) :: scan.excluded }, c)

def sourceEnding : List Char := ".jse.js".toList

/-- The number that the name of a source starts with. -/
def sourceNumber? (name : String) : Option ProgramId := do
  let cs := name.toList
  if !sourceEnding.isSuffixOf cs then failure
  ProgramId.ofNat? (← Text.boundedNat? 0x100000000 (cs.take (cs.length - sourceEnding.length)))

/-- The ids that the names in the directory give, ascending. -/
def discover (c : Corpus) (fs : Files) : List ProgramId :=
  ((fs.children c.dir).filterMap fun (name, _) => sourceNumber? name).mergeSort
    fun a b => a.number ≤ b.number

end Corpus

end Reanalysis
