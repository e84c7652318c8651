import Reanalysis.CommandLine.Request

/-!
# Help

The commands and options with what they do, in two columns. Where the longest name leaves too
little room beside it, every explanation goes to a line of its own.
-/

namespace Reanalysis.CommandLine

def programName : String := "tabench"

def version : String := "0.1.0"

def about : String := "Full, targeted and fuzz benchmark harness for synthetic JavaScript programs"

def lineWidth : Nat := 100

structure Entry where
  label : String
  help : String

def padded (width : Nat) (s : String) : String :=
  s ++ String.ofList (List.replicate (width - s.length) ' ')

def table (indent : Nat) (entries : List Entry) : List String :=
  let longest := entries.foldl (fun n e => max n e.label.length) 0
  let taken := longest + 12 - indent
  let crowded := 40 * lineWidth < 100 * taken
    && entries.any fun e => lineWidth < e.help.length + taken
  if crowded then
    entries.flatMap fun e => [e.label, String.ofList (List.replicate 10 ' ') ++ e.help]
  else entries.map fun e => padded longest e.label ++ "  " ++ e.help

def Choice.spelling (c : Choice) : String :=
  match c.takes with
  | .nothing => "--" ++ c.name
  | .value _ => "--" ++ c.name ++ " <" ++ c.name ++ ">"

def Choice.entry (c : Choice) : Entry :=
  let values := if c.values.isEmpty then "" else
    " [possible values: " ++ ", ".intercalate c.values ++ "]"
  ⟨"      " ++ c.spelling, c.help ++ values⟩

/-- The options of a command with those of all commands, by their place in either list. -/
def merged : List Choice → List Choice → List Choice
  | [], other => other
  | own, [] => own
  | a :: own, b :: other =>
    (if a.name < b.name then [a, b] else [b, a]) ++ merged own other

def helpEntry : Entry := ⟨"  -h, --help", "Print help"⟩

def optionsBlock (entries : List Entry) : List String := "Options:" :: table 6 entries

def aboutHelp : String := "Print this message or the help of the given subcommand(s)"

def programHelp : String :=
  let names : List Entry :=
    commands.map (fun c => ⟨"  " ++ c.name, c.about⟩) ++ [⟨"  help", aboutHelp⟩]
  "\n".intercalate <|
    [about, "", "Usage: " ++ programName ++ " [OPTIONS] <COMMAND>", "", "Commands:"]
      ++ table 2 names ++ [""]
      ++ optionsBlock (globals.map Choice.entry
        ++ [helpEntry, ⟨"  -V, --version", "Print version"⟩]) ++ [""]

def Command.help (c : Command) : String :=
  let required := (c.choices.filter Choice.required).map fun o => " " ++ o.spelling
  "\n".intercalate <|
    [c.about, "", "Usage: " ++ programName ++ " " ++ c.name ++ " [OPTIONS]" ++ "".intercalate required,
      ""]
      ++ optionsBlock ((merged c.choices globals).map Choice.entry ++ [helpEntry]) ++ [""]

def helpOnHelp : String :=
  "\n".intercalate <|
    [aboutHelp, "", "Usage: " ++ programName ++ " help [COMMAND]...", "", "Arguments:"]
      ++ table 2 [⟨"  [COMMAND]...", "Print help for the subcommand(s)"⟩] ++ [""]

def Topic.text : Topic → String
  | .program => programHelp
  | .command c => c.help
  | .help => helpOnHelp

end Reanalysis.CommandLine
