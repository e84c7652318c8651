import Reanalysis.Files.Location
import Reanalysis.Text.Bytes

/-!
# Files

A state of the files: what each name stands for, and the contents of the files by number. A file
keeps its number when it is renamed, and keeps its contents when its name is taken away, so that
whoever still holds the number can go on writing.

The working directory and the root are always there. An operation that fails changes nothing,
except that directories made on the way to another one stay.
-/

namespace Reanalysis

/-- Names from the working directory on, or from the root. -/
abbrev Place := List String

inductive FileNode where
  | file (number : Nat)
  | directory
deriving DecidableEq, Repr

structure Files where
  names : List (Place × FileNode)
  contents : List Bytes
deriving DecidableEq

inductive FileError where
  | notFound
  | alreadyExists
  | notDirectory
  | isDirectory
  | nameTooLong
  | nullInName
  | notText
deriving DecidableEq, Repr

def FileError.message : FileError → String
  | .notFound => "No such file or directory (os error 2)"
  | .alreadyExists => "File exists (os error 17)"
  | .notDirectory => "Not a directory (os error 20)"
  | .isDirectory => "Is a directory (os error 21)"
  | .nameTooLong => "File name too long (os error 36)"
  | .nullInName => "file name contained an unexpected NUL byte"
  | .notText => "stream did not contain valid UTF-8"

namespace Files

def empty : Files := ⟨[], []⟩

/-! ## Names and contents -/

def node? (fs : Files) (place : Place) : Option FileNode :=
  if place = [] || place = ["/"] then some .directory else fs.names.lookup place

def content (fs : Files) (number : Nat) : Bytes := (fs.contents[number]?).getD []

/-- Makes a name stand for something, whatever it stood for before. -/
def setName (fs : Files) (place : Place) (node : FileNode) : Files :=
  { fs with names := (place, node) :: fs.names.filter (·.1 ≠ place) }

def dropName (fs : Files) (place : Place) : Files :=
  { fs with names := fs.names.filter (·.1 ≠ place) }

def setContent (fs : Files) (number : Nat) (bytes : Bytes) : Files :=
  { fs with contents := fs.contents.set number bytes }

/-- A new file that has no name yet. -/
def stage (fs : Files) (bytes : Bytes) : Nat × Files :=
  (fs.contents.length, { fs with contents := fs.contents ++ [bytes] })

/-! ## From locations to places -/

/-- What is wrong with a location before anything is looked up. -/
def fault? (p : Location) : Option FileError :=
  if p.toList.contains '\x00' then some .nullInName
  else if p.utf8ByteSize > locationBound then some .nameTooLong
  else none

/-- Goes on from a directory that has been reached. -/
def walk (fs : Files) (reached : Place) : List String → Except FileError Place
  | [] => .ok reached
  | [".."] => .ok reached.dropLast
  | [last] => if isOverlong last then .error .nameTooLong else .ok (reached ++ [last])
  | step :: rest =>
    if isOverlong step then .error .nameTooLong else
    let next := if step = ".." then reached.dropLast else reached ++ [step]
    match fs.node? next with
    | some .directory => fs.walk next rest
    | some (.file _) => .error .notDirectory
    | none => .error .notFound

/-- The place that a location means. Everything on the way to it has to be a directory. -/
def place (fs : Files) (p : Location) : Except FileError Place := do
  if p = "" then throw .notFound
  if let some fault := fault? p then throw fault
  let place ← fs.walk [] (steps p)
  match fs.node? place with
  | some (.file _) => if asksForDirectory p then throw .notDirectory
  | _ => pure ()
  return place

def find (fs : Files) (p : Location) : Except FileError (Place × FileNode) := do
  let place ← fs.place p
  match fs.node? place with
  | some node => return (place, node)
  | none => throw .notFound

/-! ## Looking -/

def isFile (fs : Files) (p : Location) : Bool :=
  match fs.find p with
  | .ok (_, .file _) => true
  | _ => false

def isDirectory (fs : Files) (p : Location) : Bool :=
  match fs.find p with
  | .ok (_, .directory) => true
  | _ => false

def read (fs : Files) (p : Location) : Except FileError Bytes := do
  match ← fs.find p with
  | (_, .file number) => return fs.content number
  | (_, .directory) => throw .isDirectory

def readText (fs : Files) (p : Location) : Except FileError String := do
  match Text.decode? (← fs.read p) with
  | some s => return s
  | none => throw .notText

/-- The names in a directory with what they stand for; none where there is no directory. -/
def children (fs : Files) (p : Location) : List (String × FileNode) :=
  match fs.find p with
  | .ok (place, .directory) => fs.names.filterMap fun (q, node) =>
    match q.getLast? with
    | some name => if q.dropLast = place && q ≠ ["/"] then some (name, node) else none
    | none => none
  | _ => []

/-! ## Changing -/

/-- Makes one directory after the other, and says what was in the way, if anything was. -/
def makeSteps (fs : Files) (reached : Place) : List String → Files × Option FileError
  | [] => (fs, none)
  | ".." :: rest => fs.makeSteps reached.dropLast rest
  | step :: rest =>
    if isOverlong step then (fs, some .nameTooLong) else
    let next := reached ++ [step]
    match fs.node? next with
    | some .directory => fs.makeSteps next rest
    | some (.file _) => (fs, some (if rest.isEmpty then .alreadyExists else .notDirectory))
    | none => (fs.setName next .directory).makeSteps next rest

/-- Makes a directory and all that are missing on the way to it. Those made before a failure
stay. -/
def makeDirectories (fs : Files) (p : Location) : Files × Option FileError :=
  match fault? p with
  | some fault => (fs, some fault)
  | none => fs.makeSteps [] (steps p)

def openFile (fs : Files) (p : Location) : Except FileError (Nat × Files) := do
  let place ← fs.place p
  match fs.node? place with
  | some (.file number) => return (number, fs)
  | some .directory => throw .isDirectory
  | none =>
    if asksForDirectory p then throw .isDirectory
    let (number, staged) := fs.stage []
    return (number, staged.setName place (.file number))

def write (fs : Files) (p : Location) (bytes : Bytes) : Except FileError Files := do
  let (number, fs) ← fs.openFile p
  return fs.setContent number bytes

/-- Gives a file a name that nothing but a file may have had. -/
def link (fs : Files) (number : Nat) (p : Location) : Except FileError Files := do
  let place ← fs.place p
  match fs.node? place with
  | some .directory => throw .isDirectory
  | some (.file _) => return fs.setName place (.file number)
  | none =>
    if asksForDirectory p then throw .notDirectory
    return fs.setName place (.file number)

def rename (fs : Files) (source target : Location) : Except FileError Files := do
  match ← fs.find source with
  | (place, .file number) => (fs.dropName place).link number target
  | (_, .directory) => throw .isDirectory

def removeFile (fs : Files) (p : Location) : Except FileError Files := do
  match ← fs.find p with
  | (place, .file _) => return fs.dropName place
  | (_, .directory) => throw .isDirectory

/-- Removes what is at a location with everything below it, if anything is there. -/
def removeAll (fs : Files) (p : Location) : Files :=
  match fs.find p with
  | .ok (place, _) => { fs with names := fs.names.filter fun e => !place.isPrefixOf e.1 }
  | .error _ => fs

/-! ## All names -/

def listing (fs : Files) : List Location :=
  let shown := fs.names.filterMap fun (place, node) =>
    if place.head? = some "/" then none
    else some ("/".intercalate place ++ (if node = .directory then "/" else ""))
  shown.mergeSort fun a b => a ≤ b

end Files

end Reanalysis
