/-!
# Shell scripts

The scripts that engines come as: words with their expansions, redirections, and the commands made
of them. A line number stays with a simple command because messages name it.

Part of the system that the harness runs on, and of no result: see `Reanalysis.Shell.Launch`.
-/

namespace Reanalysis.Shell

inductive Access where
  | read
  | write
  | append
  /-- Reading and writing without emptying. -/
  | update
deriving DecidableEq, Repr

mutual

inductive Change where
  | plain
  | length
  /-- The word instead of a value that is missing; with a colon, also instead of an empty one. -/
  | default (colon : Bool) (word : List Part)
  | assign (colon : Bool) (word : List Part)
  | alternative (colon : Bool) (word : List Part)
  /-- A value that is missing ends the script, and the word says why. -/
  | require (colon : Bool) (word : List Part)
  | trim (fromEnd longest : Bool) (pattern : List Part)
  /-- Nothing that is known. It fails where it is expanded. -/
  | unknown

/-- A piece of a word. What is quoted is neither split nor matched against names. -/
inductive Part where
  | text (chars : List Char) (quoted : Bool)
  | parameter (name : String) (change : Change) (quoted : Bool)
  | arithmetic (expression : List Part) (quoted : Bool)
  | output (script : Script) (quoted : Bool)

inductive Redirection where
  | file (channel : Nat) (access : Access) (target : List Part)
  /-- Another name for a channel; `-` closes it. -/
  | duplicate (channel : Nat) (target : List Part)
  /-- A text that stands in the script. -/
  | document (channel : Nat) (text : List Part)

inductive Script where
  | nothing
  | simple (line : Nat) (assignments : List (String × List Part)) (words : List (List Part))
      (redirections : List Redirection)
  | pipeline (negated : Bool) (stages : List Script)
  | both (first second : Script)
  | either (first second : Script)
  | sequence (first second : Script)
  | background (body : Script)
  | subshell (body : Script)
  | redirected (body : Script) (redirections : List Redirection)
  | conditional (condition body otherwise : Script)
  | loop (wanted : Bool) (condition body : Script)
  /-- Without words, goes over the arguments. -/
  | each (name : String) (words : Option (List (List Part))) (body : Script)
  | select (subject : List Part) (arms : List (List (List Part) × Script))
  | define (name : String) (body : Script)

end

abbrev Word := List Part

instance : Inhabited Script := ⟨.nothing⟩

/-- The characters of a word in which nothing is quoted or expanded. -/
def Word.bare? : Word → Option String
  | [.text cs false] => some (String.ofList cs)
  | _ => none

end Reanalysis.Shell
