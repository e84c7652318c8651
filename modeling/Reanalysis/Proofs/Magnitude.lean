import Mathlib
import Reanalysis.Proofs.Duration

/-!
# The magnitude of floats

Arithmetic on floats with small exponents gives floats with small exponents: rounding adds one to
what the exact result needs. So no duration is too long to be a finite number of seconds.
-/

namespace Reanalysis

open Float.Model (Format UnpackedFloat totalExponent)
open Float.Model.UnpackedFloat (Sign Accuracy ExtendedMantissa shiftToTargetExponent shiftToExponent
  roundWithAccuracy decreaseExponent divCore unpack pack unpackExponent unpackExponent_packComponents)

/-- Zero, or finite with a mantissa of at most 53 bits and no larger exponent than this. -/
inductive Moderate (k : Nat) : UnpackedFloat → Prop
  | zero (s : Sign) : Moderate k (.zero s)
  | finite (s : Sign) {m : Nat} {e : Int} (hPos : 0 < m) (hMantissa : m < 2 ^ 53) (hExponent : e ≤ k) :
      Moderate k (.finite s m e hPos)

theorem Moderate.mono {j k : Nat} {u : UnpackedFloat} (h : Moderate j u) (hLe : j ≤ k) :
    Moderate k u := by
  cases h with
  | zero s => exact .zero s
  | finite s hPos hMantissa hExponent => exact .finite s hPos hMantissa (by omega)

theorem Moderate.isFinite {k : Nat} {u : UnpackedFloat} (h : Moderate k u) : u.isFinite = true := by
  cases h <;> rfl

/-! ## Rounding -/

theorem targetExponent_eq (x : Int) : Format.binary64.targetExponent x = max (x - 53) (-1074) := rfl

theorem mantissa_shiftRight (em : ExtendedMantissa) (n : Nat) :
    (em >>> n).mantissa = em.mantissa / 2 ^ n := by
  induction n with
  | zero => exact (Nat.div_one _).symm
  | succ n ih =>
    change (em >>> n).mantissa / 2 = _
    rw [ih, Nat.div_div_eq_div_mul, Nat.pow_succ]

theorem roundedMantissa_le (em : ExtendedMantissa) : em.roundedMantissa ≤ em.mantissa + 1 := by
  obtain ⟨m, round, sticky⟩ := em
  cases round <;> cases sticky
  · exact Nat.le_succ m
  · exact Nat.le_succ m
  · change m + m % 2 ≤ m + 1
    omega
  · exact Nat.le_refl _

theorem mantissa_ofMantissaAndAccuracy (m : Nat) (acc : Accuracy) :
    (ExtendedMantissa.ofMantissaAndAccuracy m acc).mantissa = m := by
  rcases acc with _ | ⟨_ | _ | _⟩ <;> rfl

/-- Numbers below `2 ^ (53 + k)` need no larger exponent than `k`. -/
theorem shiftToTargetExponent_bounds {m n k : Nat} {e : Int} (acc : Accuracy) (hm : m < 2 ^ n)
    (hn : n + e ≤ 53 + k) (he : e ≤ k) :
    (shiftToTargetExponent Format.binary64 m e acc).1.mantissa < 2 ^ 53 ∧
      (shiftToTargetExponent Format.binary64 m e acc).2 ≤ k := by
  generalize hShift : (Format.binary64.targetExponent (totalExponent m e) - e).toNat = shift
  have hFirst : (shiftToTargetExponent Format.binary64 m e acc).1.mantissa = m / 2 ^ shift := by
    rw [shiftToTargetExponent, shiftToExponent, hShift]
    rw [mantissa_shiftRight, mantissa_ofMantissaAndAccuracy]
  have hSecond : (shiftToTargetExponent Format.binary64 m e acc).2 = e + shift := by
    rw [shiftToTargetExponent, shiftToExponent, hShift]
  rw [targetExponent_eq, totalExponent] at hShift
  have hPower : m < 2 ^ (m.log2 + 1) := Nat.lt_log2_self
  have hLog : m.log2 = 0 ∨ m.log2 < n := by
    rcases Nat.eq_zero_or_pos m with rfl | hPos
    · exact .inl rfl
    · exact .inr ((Nat.log2_lt (Nat.ne_of_gt hPos)).mpr hm)
  rw [hFirst, hSecond]
  constructor
  · apply Nat.div_lt_of_lt_mul
    rw [← Nat.pow_add]
    exact hPower.trans_le (Nat.pow_le_pow_right Nat.two_pos (by omega))
  · omega

theorem moderate_roundWithAccuracy {m n k : Nat} {e : Int} (s : Sign) (acc : Accuracy)
    (hm : m < 2 ^ n) (hn : n + e ≤ 53 + k) (he : e ≤ k) :
    Moderate (k + 1) (roundWithAccuracy Format.binary64 s m e acc) := by
  obtain ⟨hFirst, hExponent⟩ := shiftToTargetExponent_bounds acc hm hn he
  rw [roundWithAccuracy]
  generalize shiftToTargetExponent Format.binary64 m e acc = first at hFirst hExponent ⊢
  -- Rounding up may carry into a bit more, which the second shift takes away again.
  have hRounded : first.1.roundedMantissa < 2 ^ 54 := by
    have hLe := roundedMantissa_le first.1
    omega
  obtain ⟨hSecond, hFinal⟩ := @shiftToTargetExponent_bounds _ _ (k + 1) first.2 .exact hRounded
    (by omega) (by omega)
  dsimp only
  split
  · exact .zero s
  · exact .finite s _ hSecond hFinal

theorem moderate_round {m n k : Nat} {e : Int} (s : Sign) (hm : m < 2 ^ n) (hn : n + e ≤ 53 + k)
    (he : e ≤ k) : Moderate (k + 1) (UnpackedFloat.round Format.binary64 s m e) := by
  rw [UnpackedFloat.round, decreaseExponent]
  dsimp only
  generalize (e - _ : Int).toNat = shift
  apply moderate_roundWithAccuracy (n := n + shift)
  · exact Nat.shiftLeft_lt hm
  · omega
  · omega

theorem moderate_normalize {i : Int} {n k : Nat} {e : Int} (s : Sign) (hi : i.natAbs < 2 ^ n)
    (hn : n + e ≤ 53 + k) (he : e ≤ k) :
    Moderate (k + 1) (UnpackedFloat.normalize Format.binary64 i e s) := by
  rw [UnpackedFloat.normalize]
  split
  · exact moderate_round _ (by omega) hn he
  · exact .zero s
  · exact moderate_round _ (by omega) hn he

/-! ## Arithmetic -/

theorem moderate_ofNat {n : Nat} (h : n < 2 ^ 64) :
    Moderate 12 (UnpackedFloat.ofNat Format.binary64 n) :=
  moderate_normalize .positive (n := 64) (by omega) (by omega) (by omega)

theorem moderate_mul {j k : Nat} {x y : UnpackedFloat} (hx : Moderate j x) (hy : Moderate k y) :
    Moderate (j + k + 54) (UnpackedFloat.mul Format.binary64 x y) := by
  cases hx with
  | zero s => cases hy <;> exact .zero _
  | finite s hPos hMantissa hExponent =>
    cases hy with
    | zero _ => exact .zero _
    | finite t hPos' hMantissa' hExponent' =>
      apply moderate_roundWithAccuracy (n := 53 + 53) (k := j + k + 53)
      · rw [Nat.pow_add]
        exact Nat.mul_lt_mul'' hMantissa hMantissa'
      · omega
      · omega

theorem moderate_div {j l : Nat} {x : UnpackedFloat} {s : Sign} {m : Nat} {e : Int} {hPos : 0 < m}
    (hx : Moderate j x) (hLeast : -l ≤ e) :
    Moderate (j + l + 1) (UnpackedFloat.div Format.binary64 x (.finite s m e hPos)) := by
  cases hx with
  | zero t => exact .zero _
  | @finite t n d hPos' hMantissa hExponent =>
    change Moderate _ (roundWithAccuracy _ _ (_ / _) _ _)
    generalize hTarget : min (d - e) _ = target
    generalize hShift : (d - e - target).toNat = shift
    apply moderate_roundWithAccuracy (n := 53 + shift)
    · exact (Nat.div_le_self _ _).trans_lt (Nat.shiftLeft_lt hMantissa)
    · omega
    · omega

theorem natAbs_apply (s : Sign) (n : Nat) : (s.apply n).natAbs = n := by
  cases s with
  | positive => rfl
  | negative => exact Int.natAbs_neg n

theorem moderate_add {k : Nat} {x y : UnpackedFloat} (hx : Moderate k x) (hy : Moderate k y) :
    Moderate (k + 2) (UnpackedFloat.add Format.binary64 x y) := by
  cases hx with
  | zero s =>
    cases hy with
    | zero t =>
      change Moderate _ (if s == t then _ else _)
      split <;> exact .zero _
    | finite t hPos hMantissa hExponent => exact .finite t hPos hMantissa (by omega)
  | @finite s m d hPos hMantissa hExponent =>
    cases hy with
    | zero t => exact .finite s hPos hMantissa (by omega)
    | @finite t n e hPos' hMantissa' hExponent' =>
      change Moderate _ (UnpackedFloat.normalize _ (s.apply (m <<< _ : Nat) + t.apply (n <<< _ : Nat)) _ _)
      generalize hFirst : (d - min d e).toNat = i
      generalize hSecond : (e - min d e).toNat = j
      -- One of the shifts is zero, the other one the distance of the exponents.
      apply moderate_normalize (n := 53 + max i j + 1)
      · have hSum := Int.natAbs_add_le (s.apply (m <<< i : Nat)) (t.apply (n <<< j : Nat))
        rw [natAbs_apply, natAbs_apply] at hSum
        have hLeft : m <<< i < 2 ^ (53 + max i j) := (Nat.shiftLeft_lt hMantissa).trans_le
          (Nat.pow_le_pow_right Nat.two_pos (by omega))
        have hRight : n <<< j < 2 ^ (53 + max i j) := (Nat.shiftLeft_lt hMantissa').trans_le
          (Nat.pow_le_pow_right Nat.two_pos (by omega))
        rw [Nat.pow_succ]
        omega
      · omega
      · omega

/-! ## Floats -/

theorem toNat_unpackExponent_pack_le {k : Nat} {u : UnpackedFloat} (h : Moderate k u) (hk : k ≤ 971) :
    (unpackExponent (pack Format.binary64 u)).toNat ≤ k + 1075 := by
  cases h with
  | zero s =>
    rw [pack, UnpackedFloat.packedZero, unpackExponent_packComponents]
    exact Nat.zero_le _
  | @finite s m e hPos hMantissa hExponent =>
    have hBiased : (e + Format.binary64.exponentBias +
        Format.binary64.mantissaBitsWithoutImplicit).toNat ≤ k + 1075 := by
      change (e + 1023 + 52).toNat ≤ k + 1075
      omega
    have hRoom : ¬ 2 ^ Format.binary64.exponentBits ≤ (e + Format.binary64.exponentBias +
        Format.binary64.mantissaBitsWithoutImplicit).toNat + 1 := by
      change ¬ 2048 ≤ _
      omega
    rw [pack]
    dsimp only
    rw [if_neg hRoom]
    split
    · rw [unpackExponent_packComponents, BitVec.toNat_ofNat]
      exact (Nat.mod_le _ _).trans hBiased
    · rw [unpackExponent_packComponents]
      exact Nat.zero_le _

theorem moderate_unpack {k : Nat} {bits : UInt64} (hk : k ≤ 971)
    (h : (@unpackExponent Format.binary64 bits.toBitVec).toNat ≤ k + 1075) :
    Moderate k (unpack Format.binary64 bits.toBitVec) := by
  have hNotAll : @unpackExponent Format.binary64 bits.toBitVec ≠ -1#11 := by
    intro hAll
    rw [hAll] at h
    change 2047 ≤ k + 1075 at h
    omega
  have hFinite : (unpack Format.binary64 bits.toBitVec).isFinite = true := by
    rw [unpack]
    dsimp only
    rw [if_neg hNotAll]
    split
    · split <;> rfl
    · rfl
  cases hUnpack : unpack Format.binary64 bits.toBitVec with
  | notANumber =>
    rw [hUnpack] at hFinite
    cases hFinite
  | infinity s =>
    rw [hUnpack] at hFinite
    cases hFinite
  | zero s => exact .zero s
  | finite s m e hPos =>
    obtain ⟨hUnpacks, -⟩ := unpacks_of_finite hUnpack
    refine .finite s hPos hUnpacks.bounds.1 ?_
    rw [toNat_unpackExponent, UInt64.toNat_toBitVec] at h
    cases hUnpacks with
    | subnormal _ => omega
    | normal _ _ => omega

theorem moderate_unpack_pack {k : Nat} {u : UnpackedFloat} (h : Moderate k u) (hk : k ≤ 971) :
    Moderate k (Float.Model.pack u).unpack :=
  moderate_unpack hk (toNat_unpackExponent_pack_le h hk)

theorem moderate_ofScientific {n : Nat} (h : n < 2 ^ 64) :
    Moderate 66 (Float.ofScientific n false 0).toModel.unpack := by
  rw [Float.ofScientific]
  split
  · have hWord : Moderate 12 n.toUInt64.toFloat.toModel.unpack :=
      moderate_unpack_pack (moderate_ofNat n.toUInt64.toNat_lt) (by decide)
    have hOne : Moderate 0 (Float.exactlyRepresentablePowersOfTen[0]).toModel.unpack :=
      .finite .positive (m := 4503599627370496) (e := -52) (by decide) (by decide) (by decide)
    exact moderate_unpack_pack (moderate_mul hWord hOne) (by decide)
  · apply moderate_unpack_pack _ (by decide)
    rw [UnpackedFloat.ofScientific]
    split
    · exact .zero _
    · change Moderate 66 (if (0 : Int) > 2 ^ 11 then _ else
        if (0 : Int) < -(2 ^ 11 + n.log2) then _ else if (0 : Int) ≤ 0 then _ else _)
      rw [if_neg (by omega), if_neg (by omega), if_pos (Int.le_refl 0)]
      have hMantissa : n <<< 53 * 10 ^ 0 < 2 ^ (64 + 53) := by
        rw [Nat.pow_zero, Nat.mul_one]
        exact Nat.shiftLeft_lt h
      have hRound : Moderate 12 (roundWithAccuracy Format.binary64 (.positive * .positive)
          (n <<< 53 * 10 ^ 0) (-53 + 0) .exact) :=
        moderate_roundWithAccuracy _ _ hMantissa (by omega) (by omega)
      exact hRound.mono (by decide)

namespace Duration

/-- No duration is too long to be a finite number of seconds. -/
theorem isFinite_toSeconds {d : Duration} (h : d.nanos ≤ longest.nanos) :
    d.toSeconds.isFinite = true := by
  have hSeconds : d.seconds < 2 ^ 64 := by
    apply Nat.div_lt_of_lt_mul
    have hLongest : longest.nanos = 0x10000000000000000 * perSecond - 1 := rfl
    rw [show perSecond = 1000000000 from rfl] at *
    omega
  have hSubsecond : d.subsecond < 2 ^ 64 :=
    (Nat.mod_lt _ (by decide)).trans (by decide)
  obtain ⟨hPos, hDivisor⟩ : ∃ hPos, (1000000000.0 : Float).toModel.unpack =
      .finite .positive 8388608000000000 (-23) hPos := ⟨by decide, rfl⟩
  have hQuotient : Moderate 90 (Float.ofScientific d.subsecond false 0 / 1000000000.0).toModel.unpack := by
    apply moderate_unpack_pack _ (by decide)
    rw [hDivisor]
    exact moderate_div (l := 23) (moderate_ofScientific hSubsecond) (by decide)
  have hSum := moderate_add ((moderate_ofScientific hSeconds).mono (by decide : 66 ≤ 90)) hQuotient
  exact (moderate_unpack_pack hSum (by decide)).isFinite

end Duration

end Reanalysis
