import Mathlib
import Reanalysis.Clock.Duration
import Reanalysis.Config.Validation
import Reanalysis.Proofs.Json.Decimal

/-!
# Seconds as durations

A number of seconds becomes the nearest number of nanoseconds. Of the numbers that are not negative and
at most a week, exactly those below half a nanosecond become zero.
-/

namespace Reanalysis

open Decimal (Binary)
open Float.Model (Format UnpackedFloat)
open Float.Model.UnpackedFloat (Sign unpack unpackMantissa unpackExponent unpackSign)
open Json (float_le_iff float_lt_iff)

/-! ## Floats as binary numbers -/

section Bits

variable (b : BitVec 64)

theorem toNat_unpackMantissa :
    (@unpackMantissa Format.binary64 b).toNat = b.toNat % 0x10000000000000 := by
  simp [unpackMantissa, BitVec.extractLsb, BitVec.extractLsb'_toNat]

theorem toNat_unpackExponent :
    (@unpackExponent Format.binary64 b).toNat = b.toNat / 0x10000000000000 % 2048 := by
  simp [unpackExponent, BitVec.extractLsb, BitVec.extractLsb'_toNat, Nat.shiftRight_eq_div_pow]

theorem toNat_unpackSign :
    (@unpackSign Format.binary64 b).toNat = b.toNat / 0x8000000000000000 := by
  have hLess := b.isLt
  simp [unpackSign, BitVec.extractLsb, BitVec.extractLsb'_toNat, Nat.shiftRight_eq_div_pow]
  omega

end Bits

/-- What the mantissa and the exponent of a finite float are, given its bits. -/
inductive Unpacks (bits : UInt64) : Nat → Int → Prop
  | subnormal (hExponent : bits.toNat / 0x10000000000000 % 2048 = 0) :
      Unpacks bits (bits.toNat % 0x10000000000000) (-1074)
  | normal (hLow : bits.toNat / 0x10000000000000 % 2048 ≠ 0)
      (hHigh : bits.toNat / 0x10000000000000 % 2048 ≠ 2047) :
      Unpacks bits (0x10000000000000 + bits.toNat % 0x10000000000000)
        ((bits.toNat / 0x10000000000000 % 2048 : Nat) - 1075)

theorem unpacks_of_finite {bits : UInt64} {s : Sign} {m : Nat} {e : Int} {hPos : 0 < m}
    (h : unpack Format.binary64 bits.toBitVec = .finite s m e hPos) :
    Unpacks bits m e ∧ (s = .positive → bits.toNat / 0x8000000000000000 = 0) := by
  have hMantissa := toNat_unpackMantissa bits.toBitVec
  have hExponent := toNat_unpackExponent bits.toBitVec
  have hSign : Sign.ofBitVec (@unpackSign Format.binary64 bits.toBitVec) = .positive →
      bits.toNat / 0x8000000000000000 = 0 := by
    intro hPositive
    rw [Sign.ofBitVec] at hPositive
    split at hPositive
    · rename_i hBit
      have hNat := toNat_unpackSign bits.toBitVec
      rw [hBit] at hNat
      exact hNat.symm
    · cases hPositive
  rw [UInt64.toNat_toBitVec] at hMantissa hExponent
  rw [unpack] at h
  split at h
  · split at h <;> cases h
  · rename_i hFinite
    split at h
    · rename_i hSubnormal
      split at h
      · cases h
      · injection h with hs hm he
        subst hs hm he
        refine ⟨?_, hSign⟩
        rw [hSubnormal] at hExponent ⊢
        rw [hMantissa]
        exact .subnormal hExponent.symm
    · rename_i hNormal
      injection h with hs hm he
      subst hs hm he
      refine ⟨?_, hSign⟩
      have hLow : bits.toNat / 0x10000000000000 % 2048 ≠ 0 := by
        rw [← hExponent]
        exact fun hZero => hNormal (BitVec.eq_of_toNat_eq hZero)
      have hHigh : bits.toNat / 0x10000000000000 % 2048 ≠ 2047 := by
        rw [← hExponent]
        exact fun hAll => hFinite (BitVec.eq_of_toNat_eq hAll)
      have hWhole : (1#1 ++ @unpackMantissa Format.binary64 bits.toBitVec).toNat =
          0x10000000000000 + bits.toNat % 0x10000000000000 := by
        rw [BitVec.toNat_append, hMantissa]
        exact (Nat.shiftLeft_add_eq_or_of_lt (Nat.mod_lt _ (by decide)) 1).symm
      have hShift : ((@unpackExponent Format.binary64 bits.toBitVec).toNat : Int) -
          (Format.binary64.exponentBias + Format.binary64.mantissaBitsWithoutImplicit) =
          (bits.toNat / 0x10000000000000 % 2048 : Nat) - 1075 := by
        rw [hExponent]
        rfl
      rw [hWhole, hShift]
      exact .normal hLow hHigh

namespace Unpacks

variable {bits : UInt64} {m : Nat} {e : Int}

theorem ofBits? (h : Unpacks bits m e) (hSign : bits.toNat / 0x8000000000000000 = 0) :
    ∃ narrow, Binary.ofBits? bits = some ⟨false, m, e, narrow⟩ := by
  have hPositive : Decimal.isNegativeBits bits = false := by simp [Decimal.isNegativeBits, hSign]
  cases h with
  | subnormal hExponent =>
    exact ⟨false, by simp [Binary.ofBits?, hExponent, hPositive]⟩
  | normal hLow hHigh =>
    simp only [Binary.ofBits?, hPositive, beq_iff_eq, hLow, hHigh, if_false]
    exact ⟨_, rfl⟩

theorem bounds (h : Unpacks bits m e) : m < 2 ^ 53 ∧ (2 ^ 52 ≤ m ∨ e = -1074) := by
  cases h with
  | subnormal _ => exact ⟨by omega, .inr rfl⟩
  | normal _ _ => exact ⟨by omega, .inl (by omega)⟩

end Unpacks

theorem ofFloat?_of_zero {x : Float} {s : Sign} (h : x.toModel.unpack = .zero s) :
    ∃ b, Binary.ofFloat? x = some b ∧ b.mantissa = 0 := by
  have hBits : x.toBits.toBitVec = UnpackedFloat.packedZero Format.binary64 s :=
    (UnpackedFloat.unpack_eq_zero_iff_of_valid x.toModel.valid).mp h
  rw [Binary.ofFloat?, ← UInt64.ofBitVec_toBitVec (a := x.toBits), hBits]
  cases s <;> exact ⟨_, rfl, rfl⟩

/-! ## Rounding to nanoseconds -/

theorem Decimal.roundRatio_even_eq_zero_iff {num den : Nat} (hDen : 0 < den) :
    roundRatio .even num den = 0 ↔ 2 * num ≤ den := by
  rw [roundRatio]
  rcases Nat.eq_zero_or_pos (num / den) with hLow | hLow
  · have hRest : num % den = num := Nat.mod_eq_of_lt ((Nat.div_eq_zero_iff_lt hDen).mp hLow)
    rw [hLow, hRest]
    split
    · omega
    · split <;> simp <;> omega
  · have hLess : den ≤ num := (Nat.div_pos_iff.mp hLow).2
    have hNot : ¬ 2 * num ≤ den := by omega
    refine iff_of_false ?_ hNot
    split
    · omega
    · split
      · omega
      · split <;> omega

/-! ## What becomes zero -/

/-- Positive floats are in the order of their exponents, and then of their mantissas. -/
theorem le_positive_iff {m n : Nat} {d e : Int} {hm : 0 < m} {hn : 0 < n} :
    UnpackedFloat.le (.finite .positive m d hm) (.finite .positive n e hn) = true ↔
      d < e ∨ d = e ∧ m ≤ n := by
  change Option.any Ordering.isLE (some ((compare d e).then (compare m n))) = true ↔ _
  rw [Option.any_some, Ordering.isLE_then_iff_or, Int.compare_eq_lt, Int.compare_eq_eq, Nat.isLE_compare]

namespace Duration

/-- The least number of seconds that is not taken for zero: the first float above half a nanosecond. -/
def leastSeconds : Float := 5e-10

theorem unpack_leastSeconds : ∃ hPos, leastSeconds.toModel.unpack =
    .finite .positive 4835703278458517 (-83) hPos := ⟨by decide, rfl⟩

theorem unpack_longestSeconds : ∃ hPos, Config.longestSeconds.toModel.unpack =
    .finite .positive 5195192441241600 (-33) hPos := ⟨by decide, rfl⟩

/-- Half a nanosecond lies between two floats. -/
theorem double_nanos_le_iff {m k : Nat} (hBound : m < 2 ^ 53) (hFull : 2 ^ 52 ≤ m ∨ k = 1074) :
    2 * (m * perSecond) ≤ 2 ^ k ↔ 83 < k ∨ k = 83 ∧ m < 4835703278458517 := by
  rw [show perSecond = 1000000000 from rfl]
  rcases Nat.lt_trichotomy k 83 with hLess | rfl | hMore
  · have hPower : 2 ^ k ≤ 2 ^ 82 := Nat.pow_le_pow_right (by decide) (by omega)
    omega
  · omega
  · have hPower : 2 ^ 84 ≤ 2 ^ k := Nat.pow_le_pow_right (by decide) (by omega)
    omega

theorem ofSeconds_of_positive {x : Float} {m : Nat} {e : Int} {hPos : 0 < m}
    (hUnpack : x.toModel.unpack = .finite .positive m e hPos) (hWeek : e ≤ -33) :
    ∃ k : Nat, e = -k ∧ m < 2 ^ 53 ∧ (2 ^ 52 ≤ m ∨ k = 1074) ∧
      ofSeconds x = ⟨Decimal.roundRatio .even (m * perSecond) (2 ^ k)⟩ := by
  change unpack Format.binary64 x.toBits.toBitVec = _ at hUnpack
  obtain ⟨hUnpacks, hSign⟩ := unpacks_of_finite hUnpack
  obtain ⟨hBound, hFull⟩ := hUnpacks.bounds
  obtain ⟨narrow, hBinary⟩ := hUnpacks.ofBits? (hSign rfl)
  obtain ⟨k, rfl⟩ : ∃ k : Nat, e = -k := ⟨e.natAbs, by omega⟩
  refine ⟨k, rfl, hBound, by omega, ?_⟩
  have hRatio : (Binary.mk false m (-k) narrow).ratio = (m, 2 ^ k) := by
    have hNegative : ¬ (0 : Int) ≤ -k := by omega
    rw [Binary.ratio, Decimal.powRatio, if_neg hNegative, Int.neg_neg, Int.toNat_natCast]
    simp
  have hShort : Decimal.roundRatio .even (m * perSecond) (2 ^ k) ≤ longest.nanos := by
    have hQuotient : m * perSecond / 2 ^ k ≤ m * perSecond := Nat.div_le_self _ _
    have hRounded := Decimal.roundRatio_le .even (m * perSecond) (2 ^ k)
    have hLongest : longest.nanos = 0x10000000000000000 * 1000000000 - 1 := rfl
    rw [show perSecond = 1000000000 from rfl] at *
    omega
  rw [ofSeconds, Binary.ofFloat?, hBinary]
  dsimp only
  rw [hRatio]
  simp [Nat.not_lt.mpr hShort]

/-- Of the numbers from zero to a week, those from the least one on are not taken for zero. -/
theorem ofSeconds_eq_zero_iff {x : Float} (h : Config.isGrace x = true) :
    ofSeconds x = zero ↔ ¬ leastSeconds ≤ x := by
  obtain ⟨hLeast, hUnpackLeast⟩ := unpack_leastSeconds
  obtain ⟨hWeek, hUnpackWeek⟩ := unpack_longestSeconds
  rw [Config.isGrace, Bool.and_eq_true, Bool.and_eq_true, decide_eq_true_iff, decide_eq_true_iff,
    float_le_iff, float_le_iff, hUnpackWeek] at h
  obtain ⟨⟨hFinite, hNonneg⟩, hLong⟩ := h
  rw [float_le_iff, hUnpackLeast]
  cases hUnpack : x.toModel.unpack with
  | notANumber =>
    rw [hUnpack] at hLong
    cases hLong
  | infinity s =>
    have hNot : x.toModel.unpack.isFinite = true := hFinite
    rw [hUnpack] at hNot
    cases hNot
  | zero s =>
    obtain ⟨b, hBinary, hMantissa⟩ := ofFloat?_of_zero hUnpack
    have hRound : ∀ den, Decimal.roundRatio .even 0 den = 0 := by simp [Decimal.roundRatio]
    refine iff_of_true ?_ (fun hLe => by cases hLe)
    simp [ofSeconds, hBinary, Binary.ratio, hMantissa, hRound, zero]
  | finite s m e hPos =>
    cases s with
    | negative =>
      rw [hUnpack] at hNonneg
      cases hNonneg
    | positive =>
      rw [hUnpack, le_positive_iff] at hLong
      obtain ⟨k, rfl, hBound, hFull, hRound⟩ := ofSeconds_of_positive hUnpack (by omega)
      rw [hRound, le_positive_iff, zero, mk.injEq,
        Decimal.roundRatio_even_eq_zero_iff (Nat.two_pow_pos k), double_nanos_le_iff hBound hFull]
      omega

end Duration

end Reanalysis
