import Reanalysis.Digest.Blake3
import Reanalysis.Json.Record
import Reanalysis.Text.Blank

/-!
# Digests

The digest of a text or of a written file, and its form as 64 hexadecimal digits. Reading trims
blanks and accepts digits of either case; writing uses lower case.
-/

namespace Reanalysis

theorem Blake3.length_hash (b : Bytes) : (Blake3.hash b).length = 32 := by
  simp [Blake3.hash, Blake3.wordBytes, List.length_flatMap, List.map_const']

structure Digest where
  bytes : Bytes
  size : bytes.length = 32
deriving DecidableEq

namespace Digest

def compute (b : Bytes) : Digest := ⟨Blake3.hash b, Blake3.length_hash b⟩

def ofText (s : String) : Digest := compute (Text.encode s)

/-- Why a text is not a digest. Lengths and positions count bytes. -/
inductive Error where
  | odd
  | length
  | character (byte : UInt8) (position : Nat)
deriving DecidableEq, Repr

def hexChars (b : Bytes) : List Char :=
  b.flatMap fun x => [Json.hexDigit (x.toNat / 16), Json.hexDigit (x.toNat % 16)]

def render (d : Digest) : String := String.ofList (hexChars d.bytes)

def short (d : Digest) : String := String.ofList (hexChars (d.bytes.take 8))

def nibble (b : UInt8) (position : Nat) : Except Error Nat :=
  match Json.hexValue? (Char.ofNat b.toNat) with
  | some n => .ok n
  | none => .error (.character b position)

/-- Pairs of digits, the first of them at `position`. -/
def decodeFrom : Nat → Bytes → Except Error Bytes
  | position, high :: low :: rest => do
    let h ← nibble high position
    let l ← nibble low (position + 1)
    return UInt8.ofNat (16 * h + l) :: (← decodeFrom (position + 2) rest)
  | _, _ => return []

theorem length_decodeFrom {position : Nat} {b d : Bytes} (h : decodeFrom position b = .ok d) :
    d.length = b.length / 2 := by
  fun_induction decodeFrom position b generalizing d with
  | case1 position high low rest ih =>
    simp only [bind, Except.bind, pure, Except.pure] at h
    split at h <;> try contradiction
    split at h <;> try contradiction
    split at h <;> try contradiction
    rename_i tail htail
    cases h
    simp only [List.length_cons, ih htail]
    omega
  | case2 b position hb =>
    simp only [pure, Except.pure, Except.ok.injEq] at h
    subst h
    match b with
    | [] => simp
    | [_] => simp
    | x :: y :: r => exact absurd rfl (hb x y r)

def parse (s : String) : Except Error Digest :=
  let b := Text.encode (Text.trim s)
  if b.length % 2 = 1 then .error .odd
  else if hlen : b.length ≠ 64 then .error .length
  else match h : decodeFrom 0 b with
    | .error e => .error e
    | .ok d => .ok ⟨d, by rw [length_decodeFrom h]; omega⟩

/-- A byte between quotes, taken as a character. What cannot be printed is written as an escape. -/
def quotedByte (b : UInt8) : List Char :=
  let n := b.toNat
  let body :=
    if n = 0 then ['\\', '0']
    else if n = 9 then ['\\', 't']
    else if n = 10 then ['\\', 'n']
    else if n = 13 then ['\\', 'r']
    else if n = 39 then ['\\', '\'']
    else if n = 92 then ['\\', '\\']
    else if n < 32 || (127 ≤ n && n ≤ 160) || n = 173 then
      ['\\', 'u', '\x7b'] ++ Nat.toDigits 16 n ++ ['\x7d']
    else [Char.ofNat n]
  '\'' :: (body ++ ['\''])

def Error.message : Error → String
  | .odd => "malformed digest: Odd number of digits"
  | .length => "malformed digest: Invalid string length"
  | .character b position =>
    "malformed digest: Invalid character " ++ String.ofList (quotedByte b) ++ " at position " ++
      toString position

def toJson (d : Digest) : Json.Value := .text d.render

def reader : Json.Reader Digest := Json.refined Json.string fun s => (parse s).toOption

end Digest

end Reanalysis
