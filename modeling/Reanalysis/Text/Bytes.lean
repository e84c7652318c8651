/-!
# Bytes and text

Files hold bytes. `decode?` accepts exactly the UTF-8 texts; `decodeLossy` keeps every byte
sequence readable by writing the replacement character for each longest piece that cannot be
continued to a character.
-/

namespace Reanalysis

abbrev Bytes := List UInt8

namespace Text

def encode (s : String) : Bytes := s.toUTF8.toList

def decode? (b : Bytes) : Option String := String.fromUTF8? b.toByteArray

/-- The admissible second bytes after a lead byte, with the number of bytes after the lead. -/
def secondByteRange (lead : Nat) : Option (Nat × Nat × Nat) :=
  if 0xc2 ≤ lead && lead ≤ 0xdf then some (0x80, 0xbf, 1)
  else if lead == 0xe0 then some (0xa0, 0xbf, 2)
  else if (0xe1 ≤ lead && lead ≤ 0xec) || lead == 0xee || lead == 0xef then some (0x80, 0xbf, 2)
  else if lead == 0xed then some (0x80, 0x9f, 2)
  else if lead == 0xf0 then some (0x90, 0xbf, 3)
  else if 0xf1 ≤ lead && lead ≤ 0xf3 then some (0x80, 0xbf, 3)
  else if lead == 0xf4 then some (0x80, 0x8f, 3)
  else none

/-- Reads `count` more continuation bytes, the first of them between `lo` and `hi`. The number is
how many bytes fit. -/
def continuation (code lo hi : Nat) : Nat → Bytes → Option Nat × Nat
  | 0, _ => (some code, 0)
  | _ + 1, [] => (none, 0)
  | count + 1, b :: rest =>
    if lo ≤ b.toNat && b.toNat ≤ hi then
      let (result, taken) := continuation (code * 64 + b.toNat % 64) 0x80 0xbf count rest
      (result, taken + 1)
    else
      (none, 0)

/-- The character at the front, if there is one, and the number of bytes after the lead byte that
belong to it or to its beginning. -/
def decodeChar (lead : UInt8) (rest : Bytes) : Option Char × Nat :=
  if lead.toNat < 0x80 then (some (Char.ofNat lead.toNat), 0)
  else match secondByteRange lead.toNat with
    | none => (none, 0)
    | some (lo, hi, count) =>
      let payload := lead.toNat % (if count == 1 then 32 else if count == 2 then 16 else 8)
      let (code, taken) := continuation payload lo hi count rest
      (code.map Char.ofNat, taken)

/-- The characters of a sequence of bytes, with nothing in place of a piece that is none. -/
def pieces (b : Bytes) : List (Option Char) :=
  match b with
  | [] => []
  | lead :: rest =>
    let (c, taken) := decodeChar lead rest
    c :: pieces (rest.drop taken)
termination_by b.length
decreasing_by simp only [List.length_drop, List.length_cons]; omega

def decodeLossy (b : Bytes) : String :=
  String.ofList ((pieces b).map (·.getD (Char.ofNat 0xfffd)))

end Text

end Reanalysis
