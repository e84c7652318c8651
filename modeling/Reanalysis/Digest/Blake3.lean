import Reanalysis.Text.Bytes

/-!
# BLAKE3

The hash of a byte sequence, 32 bytes long. The input is cut into chunks of 1024 bytes and the
chunks into blocks of 64; chunks are joined to a binary tree whose left side is the largest power
of two of chunks that leaves something for the right side.
-/

namespace Reanalysis.Blake3

abbrev Words (n : Nat) := Vector UInt32 n

def initial : Words 8 :=
  #v[0x6a09e667, 0xbb67ae85, 0x3c6ef372, 0xa54ff53a, 0x510e527f, 0x9b05688c, 0x1f83d9ab, 0x5be0cd19]

def chunkStart : UInt32 := 1
def chunkEnd : UInt32 := 2
def parent : UInt32 := 4
def root : UInt32 := 8

def rotateRight (x : UInt32) (n : UInt32) : UInt32 := (x >>> n) ||| (x <<< (32 - n))

def mix (s : Words 16) (a b c d : Fin 16) (x y : UInt32) : Words 16 :=
  let va := s.get a + s.get b + x
  let vd := rotateRight (s.get d ^^^ va) 16
  let vc := s.get c + vd
  let vb := rotateRight (s.get b ^^^ vc) 12
  let va := va + vb + y
  let vd := rotateRight (vd ^^^ va) 8
  let vc := vc + vd
  let vb := rotateRight (vb ^^^ vc) 7
  (((s.set a va).set b vb).set c vc).set d vd

def round (s m : Words 16) : Words 16 :=
  let s := mix s 0 4 8 12 (m.get 0) (m.get 1)
  let s := mix s 1 5 9 13 (m.get 2) (m.get 3)
  let s := mix s 2 6 10 14 (m.get 4) (m.get 5)
  let s := mix s 3 7 11 15 (m.get 6) (m.get 7)
  let s := mix s 0 5 10 15 (m.get 8) (m.get 9)
  let s := mix s 1 6 11 12 (m.get 10) (m.get 11)
  let s := mix s 2 7 8 13 (m.get 12) (m.get 13)
  mix s 3 4 9 14 (m.get 14) (m.get 15)

def permute (m : Words 16) : Words 16 :=
  #v[m.get 2, m.get 6, m.get 3, m.get 10, m.get 7, m.get 0, m.get 4, m.get 13,
     m.get 1, m.get 11, m.get 12, m.get 5, m.get 9, m.get 14, m.get 15, m.get 8]

def rounds : Nat → Words 16 → Words 16 → Words 16
  | 0, s, _ => s
  | n + 1, s, m => rounds n (round s m) (permute m)

/-- What is hashed last for a chunk or for an inner node: the chaining value before it, the block,
the number of the chunk, the length of the block and the flags. -/
structure Output where
  chain : Words 8
  block : Words 16
  counter : Nat
  size : UInt32
  flags : UInt32

def Output.compress (o : Output) (flags : UInt32) : Words 16 :=
  let h := o.chain
  let s : Words 16 := #v[h.get 0, h.get 1, h.get 2, h.get 3, h.get 4, h.get 5, h.get 6, h.get 7,
    initial.get 0, initial.get 1, initial.get 2, initial.get 3,
    UInt32.ofNat o.counter, UInt32.ofNat (o.counter / 0x100000000), o.size, o.flags ||| flags]
  rounds 7 s o.block

/-- The first eight words, each joined with its partner in the second half. -/
def Output.chaining (o : Output) (flags : UInt32) : Words 8 :=
  let s := o.compress flags
  #v[s.get 0 ^^^ s.get 8, s.get 1 ^^^ s.get 9, s.get 2 ^^^ s.get 10, s.get 3 ^^^ s.get 11,
     s.get 4 ^^^ s.get 12, s.get 5 ^^^ s.get 13, s.get 6 ^^^ s.get 14, s.get 7 ^^^ s.get 15]

def littleEndian (b : Bytes) : UInt32 := b.foldr (fun x n => n * 256 + x.toUInt32) 0

def blockWords (b : Bytes) : Words 16 :=
  Vector.ofFn fun i => littleEndian ((b.drop (4 * i.val)).take 4)

/-- The blocks of a chunk, from the chaining value before them on. -/
def chunkFrom (counter : Nat) (chain : Words 8) (flags : UInt32) (b : Bytes) : Output :=
  if 64 < b.length then
    let o : Output := ⟨chain, blockWords (b.take 64), counter, 64, flags⟩
    chunkFrom counter (o.chaining 0) 0 (b.drop 64)
  else
    ⟨chain, blockWords b, counter, UInt32.ofNat b.length, flags ||| chunkEnd⟩
termination_by b.length
decreasing_by simp; omega

def chunk (counter : Nat) (b : Bytes) : Output := chunkFrom counter initial chunkStart b

def join (left right : Words 8) : Output :=
  ⟨initial, left ++ right, 0, 64, parent⟩

/-- The size of the left side for `n` bytes, more than one chunk of them. -/
def leftSize (n : Nat) : Nat := 1024 * Nat.pow 2 ((n - 1) / 1024).log2

theorem leftSize_pos (n : Nat) : 0 < leftSize n := by
  unfold leftSize
  have : 0 < Nat.pow 2 ((n - 1) / 1024).log2 := Nat.two_pow_pos _
  omega

theorem leftSize_lt {n : Nat} (h : 1024 < n) : leftSize n < n := by
  unfold leftSize
  have hne : (n - 1) / 1024 ≠ 0 := by omega
  have : Nat.pow 2 ((n - 1) / 1024).log2 ≤ (n - 1) / 1024 := Nat.log2_self_le hne
  omega

/-- The tree over a byte sequence whose first chunk has the number `counter`. -/
def tree (counter : Nat) (b : Bytes) : Output :=
  if h : 1024 < b.length then
    have hpos := leftSize_pos b.length
    have hlt := leftSize_lt h
    let n := leftSize b.length
    join ((tree counter (b.take n)).chaining 0) ((tree (counter + n / 1024) (b.drop n)).chaining 0)
  else
    chunk counter b
termination_by b.length
decreasing_by
  · simp only [List.length_take]; omega
  · simp only [List.length_drop]; omega

def wordBytes (w : UInt32) : Bytes :=
  [w.toUInt8, (w >>> 8).toUInt8, (w >>> 16).toUInt8, (w >>> 24).toUInt8]

def hash (b : Bytes) : Bytes := ((tree 0 b).chaining root).toList.flatMap wordBytes

end Reanalysis.Blake3
