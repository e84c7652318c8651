/-!
# Scanners

A scanner takes characters off the front of a text or fails. Where one of two scanners fails, the
other starts from the same place.
-/

namespace Reanalysis.Text

abbrev Scanner := StateT (List Char) Option

namespace Scanner

variable {α : Type}

def next? : Scanner (Option Char) := return (← get).head?

def anyChar : Scanner Char := do
  match ← get with
  | [] => failure
  | c :: rest => set rest; return c

def char (c : Char) : Scanner Unit := do
  if (← anyChar) ≠ c then failure

def charIf (p : Char → Bool) : Scanner Char := do
  let c ← anyChar
  if p c then return c else failure

def literal (s : String) : Scanner Unit := s.toList.forM char

def takeWhile (p : Char → Bool) : Scanner (List Char) := do
  let cs ← get
  set (cs.dropWhile p)
  return cs.takeWhile p

def takeWhile1 (p : Char → Bool) : Scanner (List Char) := do
  let cs ← takeWhile p
  if cs.isEmpty then failure
  return cs

def digits (n : Nat) : Scanner (List Char) := do
  let cs ← get
  let run := cs.take n
  if run.length ≠ n || !run.all Char.isDigit then failure
  set (cs.drop n)
  return run

/-- Repeats a step until it gives a result; `fuel` bounds the steps. -/
def loopFrom {σ : Type} (step : σ → Scanner (σ ⊕ α)) : Nat → σ → Scanner α
  | 0, _ => failure
  | fuel + 1, state => do
    match ← step state with
    | .inl next => loopFrom step fuel next
    | .inr a => return a

/-- Every step but the last has to take something. -/
def loop {σ : Type} (step : σ → Scanner (σ ⊕ α)) (state : σ) : Scanner α := do
  loopFrom step ((← get).length + 1) state

def many (p : Scanner α) : Scanner (List α) :=
  loop (fun (done : List α) => do
    match ← optional p with
    | some a => return .inl (a :: done)
    | none => return .inr done.reverse) []

def atEnd : Scanner Unit := do
  if !(← get).isEmpty then failure

def whole? (p : Scanner α) (s : String) : Option α :=
  ((do let a ← p; atEnd; return a : Scanner α).run s.toList).map (·.1)

end Scanner

end Reanalysis.Text
