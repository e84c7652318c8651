import Reanalysis.Shell.Escape
import Reanalysis.Shell.State

/-!
# Utilities

The programs that scripts call, each as what it does to the state with its exit status. Only those
are here that work on texts, files and time.

Part of the system that the harness runs on, and of no result: see `Reanalysis.Shell.Launch`.
-/

namespace Reanalysis.Shell

open Files (Location)

abbrev Utility := List String → Act Nat

namespace Utility

/-! ## Printing -/

/-- Prints for a command of the shell itself, which says so where it cannot. -/
def printOwn (tool : String) (bytes : Bytes) : Act Nat := do
  let status ← Act.print bytes
  if status ≠ 0 then Act.complainHere (tool ++ ": " ++ tool ++ ": I/O error")
  return status

/-- Prints its arguments as the shell does, which always expands escapes. -/
def echo : Utility := fun args => do
  let (newline, args) := match args with
    | "-n" :: rest => (false, rest)
    | _ => (true, args)
  let (bytes, ends) := Escape.ofArgument (" ".intercalate args).toList
  printOwn "echo" (if newline && !ends then bytes ++ [10] else bytes)

/-- Prints its arguments as a program does, which expands escapes only where it is told to. -/
def plainEcho : Utility := fun args => do
  let isSwitch (s : String) : Bool :=
    s.startsWith "-" && s.length > 1 && (s.toList.drop 1).all fun c => c ∈ ['n', 'e', 'E']
  let switches := args.takeWhile isSwitch
  let text := " ".intercalate (args.drop switches.length)
  let letters := (switches.flatMap fun s => s.toList.drop 1)
  let expands := (letters.filter (· ≠ 'n')).getLast? = some 'e'
  let (bytes, ends) := if expands then Escape.ofArgument text.toList else (Text.encode text, false)
  Act.print (if letters.contains 'n' || ends then bytes else bytes ++ [10])

def printf : Utility := fun args => do
  match args with
  | "--" :: format :: rest | format :: rest =>
    let filled := Escape.format format rest
    let status ← printOwn "printf" filled.bytes
    for complaint in filled.complaints do Act.complainHere ("printf: " ++ complaint)
    match filled.fault with
    | some fault =>
      Act.complainHere ("printf: " ++ fault)
      return 2
    | none => return if filled.complaints.isEmpty then status else 1
  | [] =>
    Act.complainHere "printf: usage: printf format [arg ...]"
    return 2

def seq : Utility := fun args => do
  let bounds := args.map fun a => (Escape.int? a).getD 0
  let (first, stride, last) : Int × Int × Int := match bounds with
    | [b] => (1, 1, b)
    | [a, b] => (a, 1, b)
    | [a, s, b] => (a, s, b)
    | _ => (1, 1, 0)
  if stride = 0 then return 1
  let count := ((last - first).tdiv stride + 1).toNat
  let count := if (stride > 0 && last < first) || (stride < 0 && last > first) then 0 else count
  Act.print <| (List.range count).flatMap fun (i : Nat) =>
    Text.encode (toString (first + stride * (i : Int)) ++ "\n")

/-- How much a program that never ends writes before that is enough. -/
def plenty : Nat := 1048576

def yes : Utility := fun args => do
  let line := Text.encode ((if args.isEmpty then "y" else " ".intercalate args) ++ "\n")
  let _ ← Act.print (List.replicate (plenty / line.length + 1) line).flatten
  throw .exhausted

/-! ## Time -/

/-- A decimal number of seconds, minutes, hours or days in nanoseconds. -/
def nanoseconds? (s : String) : Option Nat := do
  let cs := s.toList
  let (cs, unit) ← match cs.getLast? with
    | some 's' => some (cs.dropLast, 1)
    | some 'm' => some (cs.dropLast, 60)
    | some 'h' => some (cs.dropLast, 3600)
    | some 'd' => some (cs.dropLast, 86400)
    | some _ => some (cs, 1)
    | none => none
  let (mantissa, exponent) ← match cs.span fun c => c ≠ 'e' && c ≠ 'E' with
    | (mantissa, []) => some (mantissa, (0 : Int))
    | (mantissa, _ :: power) => (Escape.int? (String.ofList power)).map fun n => (mantissa, n)
  let whole := mantissa.takeWhile Char.isDigit
  let fraction ← match mantissa.drop whole.length with
    | '.' :: rest => some rest
    | [] => some []
    | _ => none
  if (whole.isEmpty && fraction.isEmpty) || !fraction.all Char.isDigit then none
  let power := exponent + 9 - fraction.length
  let digits := Escape.digits (whole ++ fraction) * unit
  return if 0 ≤ power then digits * Nat.pow 10 power.toNat
    else digits / Nat.pow 10 (-power).toNat

def advise (tool : String) : Act Nat := do
  Act.complain ("Try '" ++ tool ++ " --help' for more information.")
  return 1

def sleep : Utility := fun args => do
  if args.isEmpty then
    Act.complain "sleep: missing operand"
    return ← advise "sleep"
  match args.find? fun a => a.startsWith "-" && a.length > 1 with
  | some option =>
    Act.complain ("sleep: invalid option -- '" ++ String.ofList ((option.toList.drop 1).take 1) ++ "'")
    advise "sleep"
  | none =>
    match args.filter fun a => (nanoseconds? a).isNone with
    | [] =>
      Act.sleep ((args.filterMap nanoseconds?).foldl (· + ·) 0)
      return 0
    | wrong =>
      for a in wrong do Act.complain ("sleep: invalid time interval '" ++ a ++ "'")
      advise "sleep"

/-! ## Reading -/

/-- Why a file could not be used, without the number of the error. -/
def reason : FileError → String
  | .notFound => "No such file or directory"
  | .alreadyExists => "File exists"
  | .notDirectory => "Not a directory"
  | .isDirectory => "Is a directory"
  | .nameTooLong => "File name too long"
  | .nullInName | .notText => "Invalid argument"

/-- The contents of the named files, or of what is left to read if none is named. -/
def contents (tool : String) (names : List String) : Act (List (String × Bytes) × Nat) := do
  if names.isEmpty then return ([("", ← Act.takeInput)], 0)
  let mut found := []
  let mut status := 0
  for name in names do
    if name = "-" then found := found ++ [("-", ← Act.takeInput)]
    else if name = "/dev/null" then found := found ++ [(name, [])]
    else if name = "/dev/stdin" then found := found ++ [(name, ← Act.takeInput)]
    else
      match ← Act.look name Files.read with
      | .ok bytes => found := found ++ [(name, bytes)]
      | .error e =>
        Act.complain (tool ++ ": " ++ name ++ ": " ++ reason e)
        status := 1
  return (found, status)

/-- The arguments that are options and those that are not. -/
def options (args : List String) : List String × List String :=
  let isOption (s : String) : Bool := s.startsWith "-" && s ≠ "-" && s ≠ "--"
  (args.filter isOption, args.filter fun s => !isOption s && s ≠ "--")

def hasOption (opts : List String) (c : Char) : Bool :=
  opts.any fun o => !o.startsWith "--" && o.toList.contains c

/-- Prints what there is to read as it comes; `fuel` bounds its pieces. -/
def passOn : Nat → Nat → Act Nat
  | 0, status => return status
  | fuel + 1, status => do
    match ← Act.nextPiece? with
    | some bytes => passOn fuel (max status (← Act.print bytes))
    | none => return status

def cat : Utility := fun args => do
  let names := (options args).2
  let names := if names.isEmpty then ["-"] else names
  let mut status := 0
  for name in names do
    if name = "-" || name = "/dev/stdin" then
      let pieces := (← get).input.pieces.length
      status := max status (← passOn (pieces + 1) 0)
    else if name = "/dev/zero" then
      let _ ← Act.print (List.replicate plenty 0)
      throw .exhausted
    else
      let (found, failed) ← contents "cat" [name]
      status := max status (max failed (← Act.print (found.flatMap (·.2))))
  return status

def lines (bytes : Bytes) : List Bytes :=
  let rec go : Bytes → Bytes → List Bytes
    | [], [] => []
    | [], line => [line.reverse]
    | b :: rest, line => if b = 10 then (b :: line).reverse :: go rest [] else go rest (b :: line)
  go bytes []

def words (bytes : Bytes) : Nat :=
  let isBlank (b : UInt8) : Bool := b = 32 || (9 ≤ b && b ≤ 13)
  (bytes.foldl (fun (n, inside) b =>
    if isBlank b then (n, false) else if inside then (n, true) else (n + 1, true)) (0, false)).1

def wc : Utility := fun args => do
  let (opts, names) := options args
  let (found, status) ← contents "wc" names
  let everything := opts.isEmpty
  let counts (b : Bytes) : List Nat :=
    (if everything || hasOption opts 'l' then [b.count 10] else [])
      ++ (if everything || hasOption opts 'w' then [words b] else [])
      ++ (if everything || hasOption opts 'c' || hasOption opts 'm' then [b.length] else [])
  let width :=
    if (counts []).length ≤ 1 && found.length ≤ 1 then 0
    else if names.isEmpty then 7
    else (toString (found.foldl (fun n f => n + f.2.length) 0)).length
  let row (label : String) (ns : List Nat) : String :=
    let shown := ns.map fun n => String.ofList (List.replicate (width - (toString n).length) ' ')
      ++ toString n
    " ".intercalate shown ++ (if label = "" then "" else " " ++ label) ++ "\n"
  let total := if found.length ≤ 1 then [] else
    [row "total" (found.foldl (fun acc f => List.zipWith (· + ·) acc (counts f.2)) (counts []))]
  let printed ← Act.print (Text.encode ("".intercalate
    (found.map (fun f => row f.1 (counts f.2)) ++ total)))
  return max status printed

/-- How many lines or bytes a tool is asked for, and the other arguments. A plus counts from the
start. -/
structure Extent where
  bytes : Bool := false
  fromStart : Bool := false
  count : Nat := 10

def Extent.count? (e : Extent) (s : String) : Option Extent :=
  match s.toList with
  | '+' :: cs => if cs.all Char.isDigit then some { e with fromStart := true, count := Escape.digits cs } else none
  | '-' :: cs => if cs.all Char.isDigit then some { e with count := Escape.digits cs } else none
  | cs => if cs.all Char.isDigit then some { e with count := Escape.digits cs } else none

def Extent.ofArgs (e : Extent) : List String → Extent × List String
  | [] => (e, [])
  | "-n" :: n :: rest => (((e.count? n).getD e).ofArgs rest)
  | "-c" :: n :: rest => ((({ e with bytes := true }.count? n).getD e).ofArgs rest)
  | arg :: rest =>
    match arg.toList with
    | '-' :: 'n' :: cs => (((e.count? (String.ofList cs)).getD e).ofArgs rest)
    | '-' :: 'c' :: cs =>
      ((({ e with bytes := true }.count? (String.ofList cs)).getD e).ofArgs rest)
    | '-' :: c :: cs =>
      if c.isDigit then ((e.count? (String.ofList (c :: cs))).getD e).ofArgs rest
      else e.ofArgs rest
    | _ => let (e, names) := e.ofArgs rest; (e, arg :: names)

def Extent.start (e : Extent) (b : Bytes) : Bytes :=
  if e.bytes then b.take e.count else ((lines b).take e.count).flatten

/-- Whether some bytes are enough to know their start. -/
def Extent.isMet (e : Extent) (b : Bytes) : Bool :=
  if e.bytes then e.count ≤ b.length else e.count ≤ b.count 10

/-- Reads until there is enough; `fuel` bounds the pieces. -/
def Extent.gather (e : Extent) : Nat → Bytes → Act Bytes
  | 0, read => return read
  | fuel + 1, read => do
    if e.isMet read then return read
    match ← Act.nextPiece? with
    | some bytes => e.gather fuel (read ++ bytes)
    | none => return read

def head : Utility := fun args => do
  let (extent, names) := Extent.ofArgs {} args
  match names with
  | [] =>
    let pieces := (← get).input.pieces.length
    Act.print (extent.start (← extent.gather (pieces + 1) []))
  | ["/dev/zero"] =>
    if extent.bytes then Act.print (List.replicate extent.count 0) else throw .exhausted
  | _ =>
    let (found, status) ← contents "head" names
    let printed ← Act.print (found.flatMap fun f => extent.start f.2)
    return max status printed

def tail : Utility := fun args => do
  let (extent, names) := Extent.ofArgs {} args
  let (found, status) ← contents "tail" names
  let drop (length : Nat) : Nat :=
    if extent.fromStart then extent.count - 1 else length - extent.count
  let cut (b : Bytes) : Bytes :=
    if extent.bytes then b.drop (drop b.length)
    else ((lines b).drop (drop (lines b).length)).flatten
  let printed ← Act.print (found.flatMap fun f => cut f.2)
  return max status printed

def sort : Utility := fun args => do
  let (opts, names) := options args
  let (found, status) ← contents "sort" names
  let texts := (found.flatMap fun f => lines f.2).map fun l =>
    if l.getLast? = some 10 then l.dropLast else l
  let numeric := hasOption opts 'n'
  let key (l : Bytes) : Int := match Escape.int? (Text.decodeLossy l) with
    | some n => n
    | none => 0
  let before (a b : Bytes) : Bool :=
    if numeric && key a ≠ key b then key a < key b else !(b < a)
  let sorted := texts.mergeSort before
  let sorted := if hasOption opts 'r' then sorted.reverse else sorted
  let sorted := if hasOption opts 'u' then sorted.eraseDups else sorted
  let printed ← Act.print (sorted.flatMap (· ++ [10]))
  return max status printed

def dd : Utility := fun args => do
  let value? (name : String) : Option String :=
    (args.find? (·.startsWith (name ++ "="))).map fun a => (a.drop (name.length + 1)).copy
  let number (name : String) (usual : Nat) : Nat :=
    match (value? name).map fun s => s.toList with
    | none => usual
    | some cs =>
      let unit := match cs.getLast? with
        | some 'k' | some 'K' => 1024
        | some 'M' => 1048576
        | _ => 1
      Escape.digits (cs.takeWhile Char.isDigit) * unit
  let most := (value? "count").map fun _ => number "bs" 512 * number "count" 0
  let source ← match value? "if" with
    | some "/dev/zero" => match most with
      | some n => pure (List.replicate n 0)
      | none => throw .exhausted
    | some name => do pure ((← contents "dd" [name]).1.flatMap (·.2))
    | none => Act.takeInput
  let bytes := match most with
    | some n => source.take n
    | none => source
  match value? "of" with
  | some name =>
    match ← Act.change name fun fs p => fs.write p bytes with
    | none => return 0
    | some e =>
      Act.complain ("dd: failed to open '" ++ name ++ "': " ++ reason e)
      return 1
  | none => Act.print bytes

/-! ## Characters -/

def byteClass? (name : List Char) : Option Bytes :=
  let among (p : Char → Bool) : Bytes :=
    ((List.range 128).filter fun n => p (Char.ofNat n)).map Nat.toUInt8
  match String.ofList name with
  | "upper" => some (among Char.isUpper)
  | "lower" => some (among Char.isLower)
  | "digit" => some (among Char.isDigit)
  | "alpha" => some (among Char.isAlpha)
  | "alnum" => some (among Char.isAlphanum)
  | "space" => some [32, 9, 10, 11, 12, 13]
  | "blank" => some [32, 9]
  | _ => none

/-- The bytes that a set names; `fuel` bounds its length. -/
def byteSet : Nat → List Char → Bytes
  | 0, _ => []
  | _, [] => []
  | fuel + 1, '[' :: ':' :: rest =>
    let name := rest.takeWhile (· ≠ ':')
    match byteClass? name with
    | some bytes => bytes ++ byteSet fuel (rest.drop (name.length + 2))
    | none => [91, 58] ++ byteSet fuel rest
  | fuel + 1, '\\' :: c :: rest =>
    if Escape.isOctal c then
      let (run, after) := Escape.octalRun 3 (c :: rest)
      Escape.octal run :: byteSet fuel after
    else match Escape.control? c with
      | some b => b :: byteSet fuel rest
      | none => Escape.charBytes c ++ byteSet fuel rest
  | fuel + 1, lo :: '-' :: hi :: rest =>
    (List.range (hi.toNat + 1 - lo.toNat)).map (fun i => (lo.toNat + i).toUInt8)
      ++ byteSet fuel rest
  | fuel + 1, c :: rest => Escape.charBytes c ++ byteSet fuel rest

def squeezed (set : Bytes) : Bytes → Bytes
  | a :: b :: rest =>
    if a = b && set.contains a then squeezed set (b :: rest) else a :: squeezed set (b :: rest)
  | bytes => bytes

def tr : Utility := fun args => do
  let (opts, sets) := options args
  let bytes ← Act.takeInput
  let sets := sets.map fun s => byteSet s.length s.toList
  let first := sets.headD []
  let chosen (b : UInt8) : Bool := first.contains b != (hasOption opts 'c' || hasOption opts 'C')
  let changed := match hasOption opts 'd', sets with
    | true, _ => bytes.filter (!chosen ·)
    | false, [_, second] => bytes.map fun b =>
      if chosen b then
        match first.idxOf? b with
        | some i => (second[i]?).getD (second.getLastD b)
        | none => second.getLastD b
      else b
    | false, _ => bytes
  Act.print (if hasOption opts 's' then squeezed (sets.getLastD []) changed else changed)

/-! ## Columns -/

/-- The places that a list such as `1,3-5` names, with the last place there is. -/
def places (spec : String) (last : Nat) : List Nat :=
  (spec.splitOn ",").flatMap fun part =>
    match part.splitOn "-" with
    | [a] => [Escape.digits a.toList]
    | [a, b] =>
      let lo := if a = "" then 1 else Escape.digits a.toList
      let hi := if b = "" then last else Escape.digits b.toList
      (List.range (hi + 1 - lo)).map (lo + ·)
    | _ => []

/-- What an option was given, as the same argument or the next one. -/
def optionValue? (letter : String) : List String → Option String
  | [] => none
  | arg :: rest =>
    if arg = letter then rest.head?
    else if arg.startsWith letter then some (arg.drop letter.length).copy
    else optionValue? letter rest

def cut : Utility := fun args => do
  let bytes ← Act.takeInput
  let rows := (lines bytes).map fun l => if l.getLast? = some 10 then l.dropLast else l
  let chosen (spec : String) (columns : List Bytes) : List Bytes :=
    let wanted := places spec columns.length
    ((List.range columns.length).filter fun i => wanted.contains (i + 1)).filterMap (columns[·]?)
  match optionValue? "-f" args, (optionValue? "-c" args).or (optionValue? "-b" args) with
  | some spec, _ =>
    let mark := (Text.encode ((optionValue? "-d" args).getD "\t")).headD 9
    let rec split : Bytes → List Bytes
      | [] => [[]]
      | b :: rest => match split rest with
        | [] => [[b]]
        | first :: others => if b = mark then [] :: first :: others else (b :: first) :: others
    Act.print (rows.flatMap fun row =>
      let columns := split row
      let kept := if columns.length = 1 then columns else chosen spec columns
      [mark].intercalate kept ++ [10])
  | none, some spec =>
    Act.print (rows.flatMap fun row => (chosen spec (row.map ([·]))).flatten ++ [10])
  | none, none => return 1

/-! ## Names -/

def basename : Utility := fun args => do
  match args with
  | path :: rest =>
    let name := ((Files.steps path).getLast?).getD path
    let name := match rest with
      | [suffix] => if name.endsWith suffix && name ≠ suffix then (name.dropEnd suffix.length).copy
        else name
      | _ => name
    Act.print (Text.encode (name ++ "\n"))
  | [] => return 1

def dirname : Utility := fun args => do
  match args with
  | path :: _ =>
    let dir := match Files.parent? path with
      | some "" | none => if path.startsWith "/" then "/" else "."
      | some dir => dir
    Act.print (Text.encode (dir ++ "\n"))
  | [] => return 1

/-! ## Files -/

/-- Does something with each name, and complains where it cannot be done. -/
def forNames (names : List String) (f : String → Act (Option String)) : Act Nat := do
  let mut status := 0
  for name in names do
    match ← f name with
    | some message => Act.complain message; status := 1
    | none => pure ()
  return status

def touch : Utility := fun args =>
  forNames (options args).2 fun name => do
    if ← Act.look name Files.isDirectory then return none
    return (← Act.change name fun fs p => (·.2) <$> fs.openFile p).map fun e =>
      "touch: cannot touch '" ++ name ++ "': " ++ reason e

def makeDirectory (fs : Files) (p : Location) : Except FileError Files := do
  let place ← fs.place p
  match fs.node? place with
  | some _ => throw .alreadyExists
  | none => return fs.setName place .directory

def mkdir : Utility := fun args =>
  let (opts, names) := options args
  forNames names fun name => do
    let failure ← if hasOption opts 'p' || opts.contains "--parents" then Act.makeDirectories name
      else Act.change name makeDirectory
    return failure.map fun e =>
      "mkdir: cannot create directory '" ++ name ++ "': " ++ reason e

def rm : Utility := fun args =>
  let (opts, names) := options args
  let forced := hasOption opts 'f'
  forNames names fun name => do
    if hasOption opts 'r' || hasOption opts 'R' then
      if !(← Act.look name fun fs p => (fs.find p).isOk) && !forced then
        return some ("rm: cannot remove '" ++ name ++ "': " ++ reason .notFound)
      Act.setFiles (← Act.look name Files.removeAll)
      return none
    match ← Act.change name Files.removeFile with
    | none => return none
    | some .notFound =>
      return if forced then none
        else some ("rm: cannot remove '" ++ name ++ "': " ++ reason .notFound)
    | some e => return some ("rm: cannot remove '" ++ name ++ "': " ++ reason e)

def rmdir : Utility := fun args =>
  forNames (options args).2 fun name => do
    let fail (why : String) := some ("rmdir: failed to remove '" ++ name ++ "': " ++ why)
    match ← Act.look name Files.find with
    | .ok (_, .directory) =>
      if !(← Act.look name Files.children).isEmpty then return fail "Directory not empty"
      Act.setFiles (← Act.look name Files.removeAll)
      return none
    | .ok (_, .file _) => return fail (reason .notDirectory)
    | .error e => return fail (reason e)

/-- Where something goes: into a directory under its own name, or to the name given. -/
def destination (source target : String) : Act Location := do
  if ← Act.look target Files.isDirectory then
    return Files.join target ((Files.name? source).getD source)
  return target

def mv : Utility := fun args => do
  let names := (options args).2
  let target := names.getLastD ""
  forNames names.dropLast fun source => do
    let goal ← Act.located (← destination source target)
    if !(← Act.look source fun fs p => (fs.find p).isOk) then
      return some ("mv: cannot stat '" ++ source ++ "': " ++ reason .notFound)
    return (← Act.change source fun fs p => fs.rename p goal).map fun e =>
      "mv: cannot move '" ++ source ++ "' to '" ++ target ++ "': " ++ reason e

def cp : Utility := fun args => do
  let names := (options args).2
  let target := names.getLastD ""
  forNames names.dropLast fun source => do
    match ← Act.look source Files.read with
    | .error e => return some ("cp: cannot stat '" ++ source ++ "': " ++ reason e)
    | .ok bytes =>
      let goal ← destination source target
      return (← Act.change goal fun fs p => fs.write p bytes).map fun e =>
        "cp: cannot create regular file '" ++ goal ++ "': " ++ reason e

def ls : Utility := fun args => do
  let (opts, names) := options args
  let names := if names.isEmpty then ["."] else names
  let sorted (xs : List String) : List String := xs.mergeSort fun a b => a ≤ b
  let inside (name : String) : Act (List String) := do
    let all := (← Act.look name Files.children).map (·.1)
    return sorted (all.filter fun n => hasOption opts 'a' || !n.startsWith ".")
  let mut files := []
  let mut dirs := []
  let mut status := 0
  for name in names do
    match ← Act.look name Files.find with
    | .ok (_, .directory) =>
      if hasOption opts 'd' then files := files ++ [name] else dirs := dirs ++ [name]
    | .ok (_, .file _) => files := files ++ [name]
    | .error e =>
      Act.complain ("ls: cannot access '" ++ name ++ "': " ++ reason e)
      status := 2
  let mut blocks := if files.isEmpty then [] else [sorted files]
  for dir in sorted dirs do
    let shown ← inside dir
    blocks := blocks ++ [if names.length = 1 then shown else (dir ++ ":") :: shown]
  let text := "\n".intercalate (blocks.map fun b => "".intercalate (b.map (· ++ "\n")))
  let printed ← Act.print (Text.encode text)
  return max status printed

def tee : Utility := fun args => do
  let (opts, names) := options args
  let bytes ← Act.takeInput
  let status ← forNames names fun name => do
    let old ← Act.look name fun fs p => match fs.read p with
      | .ok b => b
      | .error _ => []
    let bytes := if hasOption opts 'a' then old ++ bytes else bytes
    return (← Act.change name fun fs p => fs.write p bytes).map fun e =>
      "tee: " ++ name ++ ": " ++ reason e
  let printed ← Act.print bytes
  return max status printed

end Utility

def utilities : List (String × Utility) :=
  [ ("echo", Utility.plainEcho), ("printf", Utility.printf), ("seq", Utility.seq),
    ("yes", Utility.yes), ("sleep", Utility.sleep), ("cat", Utility.cat), ("wc", Utility.wc),
    ("head", Utility.head), ("tail", Utility.tail), ("sort", Utility.sort), ("tr", Utility.tr),
    ("cut", Utility.cut), ("dd", Utility.dd), ("basename", Utility.basename), ("dirname", Utility.dirname),
    ("touch", Utility.touch), ("mkdir", Utility.mkdir), ("rm", Utility.rm),
    ("rmdir", Utility.rmdir), ("mv", Utility.mv), ("cp", Utility.cp), ("ls", Utility.ls),
    ("tee", Utility.tee), ("chmod", fun _ => return 0), ("sync", fun _ => return 0),
    ("id", fun args => Act.print (Text.encode
      (if args = ["-u"] || args = ["-g"] then "0\n" else if args = ["-un"] then "root\n"
        else "uid=0(root) gid=0(root) groups=0(root)\n"))),
    ("uname", fun _ => Act.print (Text.encode "Linux\n")),
    ("whoami", fun _ => Act.print (Text.encode "root\n")),
    ("true", fun _ => return 0), ("false", fun _ => return 1) ]

end Reanalysis.Shell
