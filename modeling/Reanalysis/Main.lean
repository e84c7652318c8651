import Reanalysis.CommandLine.Answer
import Reanalysis.Shell.Launch

/-!
# The program

Takes up the files below the working directory, answers the command line on them, and writes down
what has changed. Engines are run as scripts of the shell.
-/

namespace Reanalysis.Program

open Files (Location)

/-- Takes up a directory with everything below it. -/
partial def takeUp (place : Place) (fs : Files) : IO Files := do
  let root ← IO.currentDir
  let entries ← (place.foldl (fun dir name => dir / name) root).readDir
  let mut fs := fs
  for entry in entries do
    let inner := place ++ [entry.fileName]
    if ← entry.path.isDir then
      fs ← takeUp inner (fs.setName inner .directory)
    else
      let (number, staged) := fs.stage (← IO.FS.readBinFile entry.path).toList
      fs := staged.setName inner (.file number)
  return fs

def contentAt (fs : Files) (place : Place) : Option Bytes :=
  match fs.node? place with
  | some (.file number) => some (fs.content number)
  | _ => none

/-- Writes down what is not as it was. -/
def writeDown (before after : Files) : IO Unit := do
  let shown (place : Place) : Location := "/".intercalate place
  let within (place : Place) : Bool := place.head? ≠ some "/"
  for (place, _) in before.names do
    if within place && (contentAt before place).isSome && (contentAt after place).isNone then
      IO.FS.removeFile (shown place)
  for (place, node) in after.names do
    if within place && node = .directory then IO.FS.createDirAll (shown place)
  for (place, _) in after.names do
    match contentAt after place with
    | some bytes =>
      if within place && contentAt before place ≠ some bytes then
        IO.FS.writeBinFile (shown place) bytes.toByteArray
    | none => pure ()

/-- A name for this run, of 26 digits to the base 32. -/
def drawName : IO String := do
  let digits := "0123456789ABCDEFGHJKMNPQRSTVWXYZ".toList
  let drawn ← (List.range 26).mapM fun _ => IO.rand 0 31
  return String.ofList (drawn.filterMap fun i => digits[i]?)

def timeNow : IO Instant := do
  let (_, path) ← IO.FS.createTempFile
  let made := (← path.metadata).modified
  IO.FS.removeFile path
  return ⟨made.sec, made.nsec.toNat⟩

def run (args : List String) : IO UInt32 := do
  let before ← takeUp [] .empty
  let surroundings : CommandLine.Surroundings Unit :=
    ⟨Shell.launch "", ← timeNow, ← drawName, "/scratch"⟩
  let (answer, world) := (CommandLine.answer surroundings args).run ⟨before, ()⟩
  writeDown before world.files
  IO.print answer.stdout
  IO.eprint answer.stderr
  return answer.exit.toUInt32

end Reanalysis.Program

def main (args : List String) : IO UInt32 := Reanalysis.Program.run args
