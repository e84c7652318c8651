import Reanalysis.Text.Split

/-!
# Locations of files

A location is written with slashes between names. It is kept as it was written, because that is how
it is shown. Blank names and single points mean nothing, except for a point at the start.
-/

namespace Reanalysis.Files

abbrev Location := String

/-- A location inside a directory. One that starts at the root stays what it is. -/
def join (dir name : Location) : Location :=
  if name.toList.head? = some '/' then name
  else match dir.toList.getLast? with
    | none => name
    | some c => if c = '/' then dir ++ name else dir ++ "/" ++ name

/-- Takes slashes and lone points off the end of a location that is read backwards. -/
def dropTrailing : List Char → List Char
  | '/' :: rest => dropTrailing rest
  | '.' :: '/' :: rest => dropTrailing rest
  | cs => cs

/-- The location without its last name; nothing for the root and for the empty location. -/
def parent? (p : Location) : Option Location :=
  match dropTrailing p.toList.reverse with
  | [] => none
  | cs => match dropTrailing (cs.dropWhile (· ≠ '/')) with
    | [] => some (if p.toList.head? = some '/' then "/" else "")
    | rest => some (String.ofList rest.reverse)

/-- The last name, unless it only points to another directory. -/
def name? (p : Location) : Option String :=
  let name := String.ofList ((dropTrailing p.toList.reverse).takeWhile (· ≠ '/')).reverse
  if name = "" || name = "." || name = ".." then none else some name

/-- What follows the last point of the last name, if anything stands before that point. -/
def extension? (p : Location) : Option String := do
  let name ← name? p
  let cs := name.toList.reverse
  match cs.dropWhile (· ≠ '.') with
  | '.' :: _ :: _ => return String.ofList (cs.takeWhile (· ≠ '.')).reverse
  | _ => failure

/-- The names on the way. The root comes first as a name of its own. -/
def steps (p : Location) : List String :=
  let names := ((Text.split '/' p.toList).map String.ofList).filter fun s => s ≠ "" && s ≠ "."
  if p.toList.head? = some '/' then "/" :: names else names

/-- A slash or a lone point at the end asks for a directory. -/
def asksForDirectory (p : Location) : Bool :=
  match p.toList.reverse with
  | '/' :: _ => true
  | '.' :: '/' :: _ => true
  | _ => false

/-! ## Limits -/

def nameBound : Nat := 255

def locationBound : Nat := 4095

def isOverlong (name : String) : Bool := name.utf8ByteSize > nameBound

end Reanalysis.Files
