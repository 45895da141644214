import Mathlib

/-!
# Counts as doubles

A metric is a double, and most metrics are counts. A natural number below `2 ^ 53` is a double
without rounding: it has a mantissa of 53 bits at an exponent that follows from its length
(`unpack_ofNat`). From `2 ^ 53` on, it is rounded to such a mantissa (`exists_roundWithAccuracy`), or to
infinity where the exponent is too large. So a count that is not zero is at least one as a double, too
(`one_le_ofNat`).
-/

namespace GodotLint.Counts

open Float.Model Float.Model.UnpackedFloat

variable {m n k : Nat} {e : Int} {sign : Sign}

theorem ne_zero_of_le_log2 (h : 52 ≤ m.log2) : m ≠ 0 := by
  rintro rfl
  simp at h

/-! ## Rounding what needs none -/

/-- A mantissa of 53 bits keeps its exponent, also if it is given with more zeros at the end. -/
theorem targetExponent_scaled (hm : m.log2 = 52) (he : -1074 ≤ e) (k : Nat) :
    Format.binary64.targetExponent (totalExponent (m * 2 ^ k) (e - k)) = e := by
  have hm0 := ne_zero_of_le_log2 hm.ge
  have hlog : (m * 2 ^ k).log2 = 52 + k := by
    rw [Nat.log2_eq_iff (Nat.mul_ne_zero hm0 (by positivity))]
    obtain ⟨hlow, hhigh⟩ := (Nat.log2_eq_iff hm0).mp hm
    rw [pow_add, show 52 + k + 1 = 53 + k by omega, pow_add]
    exact ⟨Nat.mul_le_mul_right _ hlow, Nat.mul_lt_mul_of_pos_right hhigh (by positivity)⟩
  unfold Format.targetExponent totalExponent
  rw [hlog]
  change max (((52 + k : ℕ) : ℤ) + 1 + (e - k) - 53) (-1074) = e
  push_cast
  omega

/-- Shifting zeros out loses nothing. -/
theorem shiftRight_scaled (m k : Nat) :
    (⟨m * 2 ^ k, false, false⟩ : ExtendedMantissa) >>> k = ⟨m, false, false⟩ := by
  induction k generalizing m with
  | zero =>
      rw [pow_zero, mul_one]
      rfl
  | succ k ih =>
      have hstep : (⟨m * 2 ^ (k + 1), false, false⟩ : ExtendedMantissa) >>> (k + 1) =
          ((⟨(m * 2) * 2 ^ k, false, false⟩ : ExtendedMantissa) >>> k).shiftRightOne := by
        rw [pow_succ', ← mul_assoc]
        rfl
      rw [hstep, ih]
      simp [ExtendedMantissa.shiftRightOne]

theorem shiftToTargetExponent_scaled (hm : m.log2 = 52) (he : -1074 ≤ e) (k : Nat) :
    shiftToTargetExponent Format.binary64 (m * 2 ^ k) (e - k) .exact = (⟨m, false, false⟩, e) := by
  have hamount : (e - (e - k)).toNat = k := by omega
  unfold shiftToTargetExponent shiftToExponent
  dsimp only
  rw [targetExponent_scaled hm he, hamount]
  change ((⟨m * 2 ^ k, false, false⟩ : ExtendedMantissa) >>> k, e - k + k) = _
  rw [shiftRight_scaled, Int.sub_add_cancel]

/-- A mantissa of 53 bits with zeros at the end is rounded to itself. -/
theorem roundWithAccuracy_scaled (hm : m.log2 = 52) (he : -1074 ≤ e) (k : Nat) (hpos : 0 < m) :
    roundWithAccuracy Format.binary64 sign (m * 2 ^ k) (e - k) .exact =
      .finite sign m e hpos := by
  have hagain := shiftToTargetExponent_scaled hm he 0
  rw [pow_zero, mul_one, Nat.cast_zero, sub_zero] at hagain
  unfold roundWithAccuracy
  rw [shiftToTargetExponent_scaled hm he k]
  change (match shiftToTargetExponent Format.binary64 m e .exact with
    | (final, exponent) =>
      if h : final.mantissa = 0 then zero sign
      else finite sign final.mantissa exponent (Nat.pos_of_ne_zero h)) = _
  rw [hagain]
  exact dif_neg hpos.ne'

/-! ## Rounding -/

theorem mantissa_shiftRight (x : ExtendedMantissa) (k : Nat) :
    (x >>> k).mantissa = x.mantissa / 2 ^ k := by
  induction k with
  | zero =>
      rw [pow_zero, Nat.div_one]
      rfl
  | succ k ih =>
      change (x >>> k).mantissa / 2 = _
      rw [ih, Nat.div_div_eq_div_mul, pow_succ]

/-- Rounding leaves a mantissa or adds one. -/
theorem roundedMantissa_eq (x : ExtendedMantissa) :
    x.roundedMantissa = x.mantissa ∨ x.roundedMantissa = x.mantissa + 1 := by
  unfold ExtendedMantissa.roundedMantissa Accuracy.roundToNearestEven
  split
  · exact .inl rfl
  · exact .inl rfl
  · omega
  · exact .inr rfl

/-- The bits beyond 53 are shifted out of a mantissa. -/
theorem exists_shiftToTargetExponent (hm : m.log2 = 52 + k) (he : -1074 ≤ e + k) :
    ∃ x : ExtendedMantissa, x.mantissa.log2 = 52 ∧
      shiftToTargetExponent Format.binary64 m e .exact = (x, e + k) := by
  have hm0 := ne_zero_of_le_log2 (m := m) (by omega)
  have htarget : Format.binary64.targetExponent (totalExponent m e) = e + k := by
    unfold Format.targetExponent totalExponent
    rw [hm]
    change max (((52 + k : ℕ) : ℤ) + 1 + e - 53) (-1074) = e + k
    omega
  refine ⟨(⟨m, false, false⟩ : ExtendedMantissa) >>> k, ?_, ?_⟩
  · obtain ⟨hlow, hhigh⟩ := (Nat.log2_eq_iff hm0).mp hm
    have hleft : 2 ^ 52 ≤ m / 2 ^ k :=
      (Nat.le_div_iff_mul_le (by positivity)).mpr (by rwa [← pow_add])
    have hne : m / 2 ^ k ≠ 0 := (lt_of_lt_of_le (by norm_num) hleft).ne'
    rw [mantissa_shiftRight, Nat.log2_eq_iff hne]
    refine ⟨hleft, ?_⟩
    rw [Nat.div_lt_iff_lt_mul (by positivity), ← pow_add]
    rwa [show 52 + k + 1 = 52 + 1 + k by omega] at hhigh
  · unfold shiftToTargetExponent shiftToExponent
    dsimp only
    rw [htarget, show (e + k - e).toNat = k by omega]
    rfl

/-- A rounded mantissa has 53 bits, or it is a power of two with a bit more, which is shifted out. -/
theorem exists_shiftToTargetExponent_rounded {x : ExtendedMantissa} (hx : x.mantissa.log2 = 52)
    (he : -1074 ≤ e) : ∃ m' e', m'.log2 = 52 ∧ e ≤ e' ∧
      shiftToTargetExponent Format.binary64 x.roundedMantissa e .exact =
        (⟨m', false, false⟩, e') := by
  have hbits : 2 ^ 52 ≤ x.mantissa ∧ x.mantissa < 2 ^ 53 :=
    (Nat.log2_eq_iff (ne_zero_of_le_log2 hx.ge)).mp hx
  have hrounded := roundedMantissa_eq x
  by_cases hcarry : x.roundedMantissa = 2 ^ 53
  · -- all bits were ones, and the carry makes a bit more
    refine ⟨2 ^ 52, e + 1, Nat.log2_two_pow, by omega, ?_⟩
    have hshift := shiftToTargetExponent_scaled (m := 2 ^ 52) (e := e + 1) Nat.log2_two_pow
      (by omega) 1
    rw [hcarry]
    simpa using hshift
  · have hlog : x.roundedMantissa.log2 = 52 := by
      rw [Nat.log2_eq_iff (by omega)]
      omega
    refine ⟨x.roundedMantissa, e, hlog, le_rfl, ?_⟩
    simpa using shiftToTargetExponent_scaled hlog he 0

/-- A mantissa of 53 bits or more is rounded to one of 53 bits, whose exponent is no less. -/
theorem exists_roundWithAccuracy (sign : Sign) (hm : m.log2 = 52 + k) (he : -1074 ≤ e + k) :
    ∃ m' e', ∃ hpos : 0 < m', m'.log2 = 52 ∧ e + k ≤ e' ∧
      roundWithAccuracy Format.binary64 sign m e .exact = .finite sign m' e' hpos := by
  obtain ⟨x, hx, hfirst⟩ := exists_shiftToTargetExponent hm he
  obtain ⟨m', e', hbits, hle, hround⟩ := exists_shiftToTargetExponent_rounded hx he
  have hpos : 0 < m' := Nat.pos_of_ne_zero (ne_zero_of_le_log2 hbits.ge)
  refine ⟨m', e', hpos, hbits, hle, ?_⟩
  unfold roundWithAccuracy
  rw [hfirst]
  dsimp only
  rw [hround]
  exact dif_neg hpos.ne'

/-! ## Packing -/

/-- The sign that was packed is unpacked. -/
theorem unpackSign_positive (x : BitVec 11) (y : BitVec 52) :
    Sign.ofBitVec (unpackSign (packComponents Format.binary64 .positive x y)) = .positive := by
  have hbit : unpackSign (packComponents Format.binary64 .positive x y) = 0#1 := by
    have htop : (0#1 ++ x ++ y).getLsbD 63 = false := by
      rw [BitVec.getLsbD_append, BitVec.getLsbD_append]
      rfl
    ext i hi
    obtain rfl : i = 0 := by omega
    simp only [unpackSign, packComponents, Sign.toBitVec, BitVec.getElem_cast,
      BitVec.getElem_zero, BitVec.extractLsb, BitVec.getElem_extractLsb']
    exact htop
  rw [hbit]
  rfl

/-- The first bit of a mantissa of 53 bits is not stored. -/
theorem toNat_append_ofNat (hm : m.log2 = 52) : (1#1 ++ BitVec.ofNat 52 m).toNat = m := by
  have hm0 := ne_zero_of_le_log2 hm.ge
  obtain ⟨hlow, hhigh⟩ := (Nat.log2_eq_iff hm0).mp hm
  rw [BitVec.toNat_append, BitVec.toNat_ofNat, BitVec.toNat_ofNat, Nat.shiftLeft_eq,
    Nat.or_comm, show 1 % 2 ^ 1 * 2 ^ 52 = 2 ^ 52 by norm_num,
    Nat.or_two_pow_eq_add_of_lt (Nat.mod_lt _ (by positivity))]
  omega

/-- The exponent is stored in eleven bits from 1 on. -/
theorem pack_eq_packComponents {b : Nat} (hm : m.log2 = 52) (hb : 1 ≤ b) (hhigh : b < 2047)
    (hpos : 0 < m) : UnpackedFloat.pack Format.binary64 (.finite .positive m (b - 1075) hpos) =
      packComponents Format.binary64 .positive (BitVec.ofNat 11 b) (BitVec.ofNat 52 m) := by
  have hexp : ((b : ℤ) - 1075 + (1023 : ℕ) + (52 : ℕ)).toNat = b := by omega
  change (if 2 ^ 11 ≤ ((b : ℤ) - 1075 + (1023 : ℕ) + (52 : ℕ)).toNat + 1 then _
    else if m.log2 + 1 = 53 then packComponents Format.binary64 .positive
      (BitVec.ofNat 11 ((b : ℤ) - 1075 + (1023 : ℕ) + (52 : ℕ)).toNat) (BitVec.ofNat 52 m) else _) = _
  rw [hexp, if_neg (by omega), if_pos (by omega)]

/-- A double with a mantissa of 53 bits is unpacked as it was packed. -/
theorem unpack_pack (hm : m.log2 = 52) (hlow : -1074 ≤ e) (hhigh : e ≤ 971) (hpos : 0 < m) :
    (Float.Model.pack (.finite .positive m e hpos)).unpack = .finite .positive m e hpos := by
  obtain ⟨b, rfl⟩ : ∃ b : ℕ, e = b - 1075 := ⟨(e + 1075).toNat, by omega⟩
  have hexponent : (BitVec.ofNat 11 b).toNat = b := by
    rw [BitVec.toNat_ofNat]
    omega
  change UnpackedFloat.unpack Format.binary64 (UnpackedFloat.pack Format.binary64 _) = _
  rw [pack_eq_packComponents hm (by omega) (by omega)]
  unfold UnpackedFloat.unpack
  simp only [unpackMantissa_packComponents, unpackExponent_packComponents, unpackSign_positive,
    hexponent]
  rw [if_neg, if_neg]
  · have hexp : (b : ℤ) - ((1023 : ℕ) + (52 : ℕ)) = b - 1075 := by omega
    rw [UnpackedFloat.finite.injEq]
    exact ⟨rfl, toNat_append_ofNat hm, hexp⟩
  · intro h
    have hzero : b = 0 := hexponent.symm.trans (congrArg BitVec.toNat h)
    omega
  · intro h
    have hones : b = 2047 := hexponent.symm.trans (congrArg BitVec.toNat h)
    omega

/-- A double with a mantissa of 53 bits is unpacked as it was packed, or as infinity if it is too large. -/
theorem unpack_pack_or_infinity (hm : m.log2 = 52) (hlow : -1074 ≤ e) (hpos : 0 < m) :
    (Float.Model.pack (.finite .positive m e hpos)).unpack = .finite .positive m e hpos ∨
      (Float.Model.pack (.finite .positive m e hpos)).unpack = .infinity .positive := by
  by_cases hhigh : e ≤ 971
  · exact .inl (unpack_pack hm hlow hhigh hpos)
  · right
    have hfields : UnpackedFloat.pack Format.binary64 (.finite .positive m e hpos) =
        packedInfinity Format.binary64 .positive := by
      change (if 2 ^ 11 ≤ (e + (1023 : ℕ) + (52 : ℕ)).toNat + 1 then _ else _) = _
      exact if_pos (by omega)
    change UnpackedFloat.unpack Format.binary64 (UnpackedFloat.pack Format.binary64 _) = _
    rw [hfields]
    rfl

/-! ## Counts -/

/-- A count has a mantissa of 53 bits, at an exponent from -52 to 0. -/
theorem unpack_ofNat (hn : n ≠ 0) (hbound : n < 2 ^ 53) : ∃ m e, ∃ hpos : 0 < m, m.log2 = 52 ∧ -52 ≤ e ∧
    e ≤ 0 ∧ UnpackedFloat.ofNat Format.binary64 n = .finite .positive m e hpos := by
  obtain ⟨hlow, hhigh⟩ := (Nat.log2_eq_iff hn).mp rfl
  have hk : n.log2 ≤ 52 := Nat.lt_succ_iff.mp ((Nat.log2_lt hn).mpr hbound)
  obtain ⟨k, hk⟩ := Nat.exists_eq_add_of_le hk
  have hm : (n * 2 ^ k).log2 = 52 := by
    rw [Nat.log2_eq_iff (Nat.mul_ne_zero hn (by positivity))]
    rw [hk, show n.log2 + k + 1 = n.log2 + 1 + k by omega, pow_add, pow_add]
    exact ⟨Nat.mul_le_mul_right _ hlow, Nat.mul_lt_mul_of_pos_right hhigh (by positivity)⟩
  have hpos : 0 < n * 2 ^ k := Nat.mul_pos (Nat.pos_of_ne_zero hn) (by positivity)
  refine ⟨n * 2 ^ k, -k, hpos, hm, by omega, by omega, ?_⟩
  have htarget : Format.binary64.targetExponent (totalExponent n 0) = -k := by
    unfold Format.targetExponent totalExponent
    change max ((n.log2 : ℤ) + 1 + 0 - 53) (-1074) = -k
    omega
  have hround : roundWithAccuracy Format.binary64 .positive (n * 2 ^ k * 2 ^ 0)
      (-(k : ℤ) - (0 : ℕ)) .exact = .finite .positive (n * 2 ^ k) (-k) hpos :=
    roundWithAccuracy_scaled hm (by omega) 0 hpos
  rw [pow_zero, mul_one, Nat.cast_zero, sub_zero] at hround
  unfold UnpackedFloat.ofNat UnpackedFloat.ofInt UnpackedFloat.normalize
  rw [Int.compare_eq_gt.mpr (by omega)]
  change UnpackedFloat.round Format.binary64 .positive (n : ℤ).toNat 0 = _
  unfold UnpackedFloat.round decreaseExponent
  rw [Int.toNat_natCast, htarget]
  dsimp only
  rw [show (0 - -(k : ℤ)).toNat = k by omega, Nat.shiftLeft_eq, Int.zero_sub]
  exact hround

/-- The mantissa and the exponent of one. -/
theorem unpack_one : ∃ hpos, (1.0 : Float).toModel.unpack = .finite .positive (2 ^ 52) (-52) hpos := by
  refine ⟨by norm_num, ?_⟩
  rfl

/-- The power of ten that the literal of a count is multiplied with. -/
theorem unpack_power_zero : ∃ hpos, Float.exactlyRepresentablePowersOfTen[0].toModel.unpack =
    .finite .positive (2 ^ 52) (-52) hpos := by
  refine ⟨by norm_num, ?_⟩
  rfl

/-- A count below `2 ^ 53` is not rounded. -/
theorem unpack_toModel_of_lt (hn : n ≠ 0) (hbound : n < 2 ^ 53) : ∃ m e, ∃ hpos : 0 < m, m.log2 = 52 ∧
    -52 ≤ e ∧ (Float.ofNat n).toModel.unpack = .finite .positive m e hpos := by
  obtain ⟨m, e, hpos, hm, hlow, hhigh, hofNat⟩ := unpack_ofNat hn hbound
  obtain ⟨hpower, hunpackPower⟩ := unpack_power_zero
  have hcount : n.toUInt64.toFloat.toModel.unpack = .finite .positive m e hpos := by
    have hnat : n.toUInt64.toNat = n := by
      rw [Nat.toUInt64_eq, UInt64.toNat_ofNat']
      exact Nat.mod_eq_of_lt (hbound.trans (by norm_num))
    change (Float.Model.pack (UnpackedFloat.ofNat _ n.toUInt64.toNat)).unpack = _
    rw [hnat, hofNat, unpack_pack hm (by omega) (by omega)]
  have hof : Float.ofNat n = n.toUInt64.toFloat * Float.exactlyRepresentablePowersOfTen[0] :=
    dif_pos ⟨hbound, by norm_num⟩
  have hscale : roundWithAccuracy Format.binary64 .positive (m * 2 ^ 52) (e - (52 : ℕ)) .exact =
      .finite .positive m e hpos := roundWithAccuracy_scaled hm (by omega) 52 hpos
  refine ⟨m, e, hpos, hm, hlow, ?_⟩
  rw [hof]
  change (Float.Model.pack (UnpackedFloat.mul _ n.toUInt64.toFloat.toModel.unpack
    Float.exactlyRepresentablePowersOfTen[0].toModel.unpack)).unpack = _
  rw [hcount, hunpackPower]
  exact (congrArg (fun f => (Float.Model.pack f).unpack) hscale).trans
    (unpack_pack hm (by omega) (by omega) hpos)

/-- A count from `2 ^ 53` on is rounded to a mantissa of 53 bits. -/
theorem toModel_ofNat_of_le (hn : 2 ^ 53 ≤ n) : ∃ m e, ∃ hpos : 0 < m, m.log2 = 52 ∧ -52 ≤ e ∧
    (Float.ofNat n).toModel = Float.Model.pack (.finite .positive m e hpos) := by
  have hn0 : n ≠ 0 := by omega
  have hlog : 53 ≤ n.log2 := (Nat.le_log2 hn0).mpr hn
  have hm : (n <<< 53 * 10 ^ 0).log2 = 52 + (n.log2 + 1) := by
    obtain ⟨hlow, hhigh⟩ := (Nat.log2_eq_iff hn0).mp rfl
    rw [pow_zero, mul_one, Nat.shiftLeft_eq, Nat.log2_eq_iff (Nat.mul_ne_zero hn0 (by positivity)),
      show 52 + (n.log2 + 1) = n.log2 + 53 by omega,
      show n.log2 + 53 + 1 = n.log2 + 1 + 53 by omega, pow_add, pow_add]
    exact ⟨Nat.mul_le_mul_right _ hlow, Nat.mul_lt_mul_of_pos_right hhigh (by positivity)⟩
  obtain ⟨m, e, hpos, hbits, hle, hround⟩ := exists_roundWithAccuracy .positive
    (e := -(53 : ℕ) + 0) hm (by omega)
  refine ⟨m, e, hpos, hbits, by omega, ?_⟩
  have hof : Float.ofNat n = ⟨Float.Model.ofScientific n 0⟩ := dif_neg (by omega)
  rw [hof, ← hround]
  change Float.Model.pack (UnpackedFloat.ofScientific Format.binary64 n 0) = _
  unfold UnpackedFloat.ofScientific
  rw [dif_neg hn0, if_neg (by decide), if_neg (by simp), if_pos le_rfl]
  rfl

/-- A count that is not zero is a double with an exponent of -52 at least, or infinity. -/
theorem unpack_toModel (hn : n ≠ 0) : (∃ m e, ∃ hpos : 0 < m, m.log2 = 52 ∧ -52 ≤ e ∧
      (Float.ofNat n).toModel.unpack = .finite .positive m e hpos) ∨
    (Float.ofNat n).toModel.unpack = .infinity .positive := by
  rcases lt_or_ge n (2 ^ 53) with hbound | hbound
  · exact .inl (unpack_toModel_of_lt hn hbound)
  · obtain ⟨m, e, hpos, hm, hlow, hmodel⟩ := toModel_ofNat_of_le hbound
    rw [hmodel]
    rcases unpack_pack_or_infinity (e := e) hm (by omega) hpos with hfinite | hinfinity
    · exact .inl ⟨m, e, hpos, hm, hlow, hfinite⟩
    · exact .inr hinfinity

/-- **A count that is not zero is at least one as a double.** -/
theorem one_le_ofNat (hn : n ≠ 0) : (1.0 : Float) ≤ Float.ofNat n := by
  obtain ⟨hone, hunpackOne⟩ := unpack_one
  change decide (UnpackedFloat.le (1.0 : Float).toModel.unpack (Float.ofNat n).toModel.unpack) = true
  rw [hunpackOne, decide_eq_true_eq]
  rcases unpack_toModel hn with ⟨m, e, hpos, hm, hlow, hcount⟩ | hinfinity
  · rw [hcount]
    have hmantissa : 2 ^ 52 ≤ m := ((Nat.log2_eq_iff hpos.ne').mp hm).1
    change ((compare (-52) e).then (compare (2 ^ 52) m)).isLE = true
    rw [Ordering.isLE_then_iff_or, compare_lt_iff_lt, compare_eq_iff_eq, Nat.isLE_compare]
    rcases hlow.lt_or_eq with hlt | heq
    · exact .inl hlt
    · exact .inr ⟨heq, hmantissa⟩
  · rw [hinfinity]
    rfl

/-- **A count that is not zero is positive as a double.** -/
theorem zero_lt_ofNat (hn : n ≠ 0) : (0.0 : Float) < Float.ofNat n := by
  have hzero : (0.0 : Float).toModel.unpack = .zero .positive := rfl
  change decide (UnpackedFloat.lt (0.0 : Float).toModel.unpack (Float.ofNat n).toModel.unpack) = true
  rw [hzero, decide_eq_true_eq]
  rcases unpack_toModel hn with ⟨m, e, hpos, -, -, hcount⟩ | hinfinity
  · rw [hcount]
    rfl
  · rw [hinfinity]
    rfl

end GodotLint.Counts
