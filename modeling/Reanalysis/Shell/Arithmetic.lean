import Reanalysis.Shell.Escape

/-!
# Arithmetic in scripts

Whole numbers of a word with the usual operators, the weakest first. Comparisons give one or zero.
A name stands for the number that it holds, or zero, and can be given another. What is not needed
for the result is read but not carried out.

Part of the system that the harness runs on, and of no result: see `Reanalysis.Shell.Launch`.
-/

namespace Reanalysis.Shell.Arithmetic

inductive Fault where
  | expected (what : String)
  | divisionByZero
  | notNumber (text : String)
deriving DecidableEq, Repr

inductive Token where
  | number (n : Int)
  | name (s : String)
  | sign (s : String)
  | stray
deriving DecidableEq, Repr

/-! ## Tokens -/

/-- The signs, each before those that it starts with. -/
def signs : List String :=
  ["<<=", ">>=", "<<", ">>", "<=", ">=", "==", "!=", "&&", "||", "+=", "-=", "*=", "/=", "%=", "&=",
    "^=", "|=", "=", "<", ">", "+", "-", "*", "/", "%", "&", "^", "|", "~", "!", "(", ")", "?", ":"]

def isNameStart (c : Char) : Bool := c.isAlpha || c = '_'

/-- Takes an expression apart; `fuel` bounds the number of tokens. -/
def tokens : Nat → List Char → List Token
  | 0, _ => []
  | _, [] => []
  | fuel + 1, c :: rest =>
    if c = ' ' || c = '\t' || c = '\n' then tokens fuel rest
    else if c.isDigit then
      match Escape.natural? (c :: rest) with
      | some (n, after) => .number (Escape.clamped n) :: tokens fuel after
      | none => .stray :: tokens fuel rest
    else if isNameStart c then
      let name := (c :: rest).takeWhile fun c => c.isAlphanum || c = '_'
      .name (String.ofList name) :: tokens fuel ((c :: rest).drop name.length)
    else match signs.find? fun s => s.toList.isPrefixOf (c :: rest) with
      | some s => .sign s :: tokens fuel ((c :: rest).drop s.length)
      | none => .stray :: tokens fuel rest

/-! ## Values -/

abbrev Bindings := List (String × String)

structure Progress where
  rest : List Token
  bindings : Bindings

abbrev Calculation := StateT Progress (Except Fault)

def truth (b : Bool) : Int := if b then 1 else 0

def valueOf (bindings : Bindings) (name : String) : Except Fault Int :=
  match bindings.lookup name with
  | none | some "" => .ok 0
  | some text =>
    match Escape.integer? text.toList with
    | some (n, rest) =>
      if rest.all (· = ' ') then .ok (Escape.clamped n) else .error (.notNumber text)
    | none => .error (.notNumber text)

def apply (op : String) (a b : Int) : Except Fault Int :=
  let bits (f : Nat → Nat → Nat) : Int :=
    let unsigned (n : Int) : Nat := (n % 0x10000000000000000).toNat
    Escape.wrapped (f (unsigned a) (unsigned b) : Nat)
  let amount := (b % 64).toNat
  match op with
  | "*" => .ok (Escape.wrapped (a * b))
  | "/" => if b = 0 then .error .divisionByZero else .ok (Escape.wrapped (a.tdiv b))
  | "%" => if b = 0 then .error .divisionByZero else .ok (a.tmod b)
  | "+" => .ok (Escape.wrapped (a + b))
  | "-" => .ok (Escape.wrapped (a - b))
  | "<<" => .ok (Escape.wrapped (a * (Nat.pow 2 amount : Nat)))
  | ">>" => .ok (a.fdiv (Nat.pow 2 amount : Nat))
  | "<" => .ok (truth (a < b))
  | "<=" => .ok (truth (a ≤ b))
  | ">" => .ok (truth (b < a))
  | ">=" => .ok (truth (b ≤ a))
  | "==" => .ok (truth (a = b))
  | "!=" => .ok (truth (a ≠ b))
  | "&" => .ok (bits Nat.land)
  | "^" => .ok (bits Nat.xor)
  | "|" => .ok (bits Nat.lor)
  | _ => .ok b

/-- The operators between two numbers, the weakest first. -/
def levels : List (List String) :=
  [["|"], ["^"], ["&"], ["==", "!="], ["<", "<=", ">", ">="], ["<<", ">>"], ["+", "-"],
    ["*", "/", "%"]]

/-- The operators that also give a name its value, with what they do before. -/
def assignments : List (String × String) :=
  [("=", ""), ("+=", "+"), ("-=", "-"), ("*=", "*"), ("/=", "/"), ("%=", "%"), ("<<=", "<<"),
    (">>=", ">>"), ("&=", "&"), ("^=", "^"), ("|=", "|")]

/-! ## Expressions -/

def next? : Calculation (Option Token) := return (← get).rest.head?

def skip : Calculation Unit := modify fun p => { p with rest := p.rest.drop 1 }

def takes (sign : String) : Calculation Bool := do
  if (← next?) = some (.sign sign) then
    skip
    return true
  return false

def signIn? (among : List String) : Calculation (Option String) := do
  match ← next? with
  | some (.sign s) => if among.contains s then skip; return some s else return none
  | _ => return none

/-- Operators of one level group to the left; `fuel` bounds how many follow each other. -/
def chain (fuel : Nat) (live : Bool) (operand : Calculation Int) :
    List (List String) → Calculation Int
  | [] => operand
  | ops :: tighter => do
    let rec more : Nat → Int → Calculation Int
      | 0, a => return a
      | n + 1, a => do
        match ← signIn? ops with
        | none => return a
        | some op =>
          let b ← chain fuel live operand tighter
          if live then more n (← apply op a b) else more n b
    more fuel (← chain fuel live operand tighter)

mutual

/-- A number, a name, a sign in front of either, or an expression in brackets. `live` tells whether
the result is needed, and `fuel` bounds the nesting. -/
def primary (live : Bool) : Nat → Calculation Int
  | 0 => throw (.expected "primary")
  | fuel + 1 => do
    match ← next? with
    | some (.number n) => skip; return n
    | some (.name s) =>
      skip
      if live then return ← valueOf (← get).bindings s else return 0
    | some (.sign "(") =>
      skip
      let n ← assignment live fuel
      if !(← takes ")") then throw (.expected "')'")
      return n
    | some (.sign "+") => skip; primary live fuel
    | some (.sign "-") => skip; return Escape.wrapped (-(← primary live fuel))
    | some (.sign "!") => skip; return truth ((← primary live fuel) = 0)
    | some (.sign "~") => skip; return -(← primary live fuel) - 1
    | _ => throw (.expected "primary")

def conjunction (live : Bool) : Nat → Calculation Int
  | 0 => throw (.expected "primary")
  | fuel + 1 => do
    let a ← chain fuel live (primary live fuel) levels
    if ← takes "&&" then
      let b ← conjunction (live && a ≠ 0) fuel
      return truth (a ≠ 0 && b ≠ 0)
    return a

def disjunction (live : Bool) : Nat → Calculation Int
  | 0 => throw (.expected "primary")
  | fuel + 1 => do
    let a ← conjunction live fuel
    if ← takes "||" then
      let b ← disjunction (live && a = 0) fuel
      return truth (a ≠ 0 || b ≠ 0)
    return a

def conditional (live : Bool) : Nat → Calculation Int
  | 0 => throw (.expected "primary")
  | fuel + 1 => do
    let a ← disjunction live fuel
    if ← takes "?" then
      let b ← assignment (live && a ≠ 0) fuel
      if !(← takes ":") then throw (.expected "':'")
      let c ← conditional (live && a = 0) fuel
      return if a ≠ 0 then b else c
    return a

def assignment (live : Bool) : Nat → Calculation Int
  | 0 => throw (.expected "primary")
  | fuel + 1 => do
    match (← get).rest with
    | .name s :: .sign op :: rest =>
      match assignments.lookup op with
      | none => conditional live fuel
      | some before =>
        modify fun p => { p with rest }
        let given ← assignment live fuel
        if !live then return given
        let n ← if before = "" then pure given
          else do apply before (← valueOf (← get).bindings s) given
        modify fun p =>
          { p with bindings := (s, toString n) :: p.bindings.filter (·.1 ≠ s) }
        return n
    | _ => conditional live fuel

end

def eval (bindings : Bindings) (text : String) : Except Fault (Int × Bindings) := do
  let found := tokens (text.length + 1) text.toList
  let (n, after) ← (assignment true (8 * (found.length + 2))).run ⟨found, bindings⟩
  if !after.rest.isEmpty then throw (.expected "EOF")
  return (n, after.bindings)

end Reanalysis.Shell.Arithmetic
