import Stencil.Proofs.FloatOrder

/-! Integers as floats. The float of an integer stands for the nearest number with 53 bits, and of
two that are as near for the one with an even mantissa. -/
namespace Stencil

open Float.Model (UnpackedFloat Format totalExponent)
open Float.Model.UnpackedFloat

/-- `m / 2 ^ k` as an integer, the nearest one and of two the even one. -/
def nearest (m k : Nat) : Nat :=
  if 2 * (m % 2 ^ k) < 2 ^ k then m / 2 ^ k
  else if 2 * (m % 2 ^ k) = 2 ^ k then m / 2 ^ k + m / 2 ^ k % 2
  else m / 2 ^ k + 1

section Nearest

variable {m n k : Nat}

@[simp] theorem nearest_zero (m : Nat) : nearest m 0 = m := by simp [nearest, Nat.mod_one]

theorem div_le_nearest (m k : Nat) : m / 2 ^ k ≤ nearest m k := by
  grind [nearest]

theorem nearest_le_div (m k : Nat) : nearest m k ≤ m / 2 ^ k + 1 := by
  grind [nearest]

theorem nearest_mono (h : m ≤ n) (k : Nat) : nearest m k ≤ nearest n k := by
  rcases (Nat.div_le_div_right h : m / 2 ^ k ≤ n / 2 ^ k).lt_or_eq with hlt | heq
  · calc nearest m k ≤ m / 2 ^ k + 1 := nearest_le_div m k
      _ ≤ n / 2 ^ k := hlt
      _ ≤ nearest n k := div_le_nearest n k
  · have hm := Nat.div_add_mod m (2 ^ k)
    have hn := Nat.div_add_mod n (2 ^ k)
    have hr : m % 2 ^ k ≤ n % 2 ^ k := by
      rw [heq] at hm
      omega
    grind [nearest]

/-- Factors of two do not matter. -/
theorem nearest_mul_two_pow (m k j : Nat) : nearest (m * 2 ^ j) (k + j) = nearest m k := by
  have hj := Nat.two_pow_pos j
  have hdiv : m * 2 ^ j / 2 ^ (k + j) = m / 2 ^ k := by
    rw [Nat.pow_add, Nat.mul_div_mul_right _ _ hj]
  have hmod : m * 2 ^ j % 2 ^ (k + j) = m % 2 ^ k * 2 ^ j := by
    rw [Nat.pow_add, Nat.mul_mod_mul_right]
  have hlt : 2 * (m % 2 ^ k * 2 ^ j) < 2 ^ (k + j) ↔ 2 * (m % 2 ^ k) < 2 ^ k := by
    rw [← Nat.mul_assoc, Nat.pow_add, Nat.mul_lt_mul_right hj]
  have heq : 2 * (m % 2 ^ k * 2 ^ j) = 2 ^ (k + j) ↔ 2 * (m % 2 ^ k) = 2 ^ k := by
    rw [← Nat.mul_assoc, Nat.pow_add, Nat.mul_left_inj hj.ne']
  simp only [nearest, hdiv, hmod, hlt, heq]

theorem le_nearest (h : 2 ^ (52 + k) ≤ m) : 2 ^ 52 ≤ nearest m k := by
  calc 2 ^ 52 ≤ m / 2 ^ k := (Nat.le_div_iff_mul_le (Nat.two_pow_pos k)).2 (by rwa [← Nat.pow_add])
    _ ≤ nearest m k := div_le_nearest m k

theorem nearest_le (h : m < 2 ^ (53 + k)) : nearest m k ≤ 2 ^ 53 := by
  calc nearest m k ≤ m / 2 ^ k + 1 := nearest_le_div m k
    _ ≤ 2 ^ 53 := (Nat.div_lt_iff_lt_mul (Nat.two_pow_pos k)).2 (by rwa [← Nat.pow_add])

end Nearest

section Quotient

variable {n d : Nat}

/-- The integer part of `n / d`, the bit after it and whether more follows. -/
def quotient (n d : Nat) : ExtendedMantissa :=
  ⟨n / d, d ≤ 2 * (n % d), 2 * (n % d) % d ≠ 0⟩

theorem ofMantissaAndAccuracy_quotient (hd : 0 < d) :
    .ofMantissaAndAccuracy (n / d) (accuracyOfFraction (n % d) d) = quotient n d := by
  have hlt := Nat.mod_lt n hd
  unfold quotient accuracyOfFraction
  by_cases hzero : n % d = 0
  · simp [hzero, ExtendedMantissa.ofMantissaAndAccuracy, hd.ne']
  · rw [if_neg hzero]
    rcases Nat.lt_trichotomy (2 * (n % d)) d with h | h | h
    · rw [Nat.compare_eq_lt.2 h, Nat.mod_eq_of_lt h]
      simp [ExtendedMantissa.ofMantissaAndAccuracy, hzero, h]
    · rw [Nat.compare_eq_eq.2 h, h, Nat.mod_self]
      simp [ExtendedMantissa.ofMantissaAndAccuracy]
    · have hmod : 2 * (n % d) % d = 2 * (n % d) - d := by
        rw [Nat.mod_eq_sub_mod h.le, Nat.mod_eq_of_lt (by omega)]
      have hmore : 2 * (n % d) - d ≠ 0 := by omega
      rw [Nat.compare_eq_gt.2 h, hmod]
      simp [ExtendedMantissa.ofMantissaAndAccuracy, h.le, hmore]

theorem quotient_one (m : Nat) : quotient m 1 = ⟨m, false, false⟩ := by
  simp [quotient, Nat.mod_one]

/-- A bit or more follows the integer part just if the division leaves a remainder. -/
theorem quotient_rest (hd : 0 < d) :
    ((quotient n d).roundBit || (quotient n d).stickyBit) = (n % d != 0) := by
  have hlt := Nat.mod_lt n hd
  rw [Bool.eq_iff_iff]
  simp only [quotient, Bool.or_eq_true, decide_eq_true_iff, bne_iff_ne]
  rcases Nat.lt_or_ge (2 * (n % d)) d with h | h
  · rw [Nat.mod_eq_of_lt h]
    omega
  · exact iff_of_true (.inl h) (by omega)

theorem shiftRightOne_quotient (hd : 0 < d) :
    (quotient n d).shiftRightOne = quotient n (d * 2) := by
  have hlt := Nat.mod_lt n hd
  have hmod : n % (d * 2) = n % d + d * (n / d % 2) := Nat.mod_mul
  have hbit : (n / d % 2 != 0) = decide (d * 2 ≤ 2 * (n % (d * 2))) := by
    rw [Bool.eq_iff_iff, bne_iff_ne, decide_eq_true_iff, hmod]
    rcases Nat.mod_two_eq_zero_or_one (n / d) with h | h <;> rw [h] <;> omega
  have hrest : (n % d != 0) = decide (2 * (n % (d * 2)) % (d * 2) ≠ 0) := by
    have htwice : 2 * (n % (d * 2)) % (d * 2) = 2 * (n % d) := by
      rw [hmod, Nat.mul_add, Nat.mul_left_comm, ← Nat.mul_assoc d 2, Nat.add_mul_mod_self_left,
        Nat.mod_eq_of_lt (by omega)]
    rw [htwice, Bool.eq_iff_iff, bne_iff_ne, decide_eq_true_iff]
    omega
  rw [ExtendedMantissa.shiftRightOne, quotient_rest hd]
  simp only [quotient]
  rw [hbit, hrest, Nat.div_div_eq_div_mul]

theorem shiftRight_quotient (hd : 0 < d) (k : Nat) :
    quotient n d >>> k = quotient n (d * 2 ^ k) := by
  change k.repeat ExtendedMantissa.shiftRightOne _ = _
  induction k with
  | zero => rw [Nat.repeat, Nat.pow_zero, Nat.mul_one]
  | succ k ih =>
    rw [Nat.repeat, ih, shiftRightOne_quotient (Nat.mul_pos hd (Nat.two_pow_pos k)),
      Nat.mul_assoc, Nat.pow_succ]

theorem roundedMantissa_quotient (hd : 0 < d) :
    (quotient n d).roundedMantissa =
      if 2 * (n % d) < d then n / d
      else if 2 * (n % d) = d then n / d + n / d % 2
      else n / d + 1 := by
  have hlt := Nat.mod_lt n hd
  rw [← ofMantissaAndAccuracy_quotient hd, accuracyOfFraction]
  by_cases hzero : n % d = 0
  · rw [if_pos hzero, if_pos (by omega)]
    rfl
  · rw [if_neg hzero]
    rcases Nat.lt_trichotomy (2 * (n % d)) d with h | h | h
    · rw [Nat.compare_eq_lt.2 h, if_pos h]
      rfl
    · rw [Nat.compare_eq_eq.2 h, if_neg (by omega), if_pos h]
      rfl
    · rw [Nat.compare_eq_gt.2 h, if_neg (by omega), if_neg (by omega)]
      rfl

end Quotient

def shifted (m : Nat) : Nat → ExtendedMantissa
  | 0 => ⟨m, false, false⟩
  | k + 1 => ⟨m / 2 ^ (k + 1), m / 2 ^ k % 2 != 0, m % 2 ^ k != 0⟩

theorem shifted_eq_quotient (m k : Nat) : shifted m k = quotient m (2 ^ k) := by
  cases k with
  | zero => exact (quotient_one m).symm
  | succ k =>
    have hk := Nat.two_pow_pos k
    rw [Nat.pow_succ, ← shiftRightOne_quotient hk, ExtendedMantissa.shiftRightOne,
      quotient_rest hk, shifted, Nat.pow_succ, ← Nat.div_div_eq_div_mul]
    rfl

theorem roundedMantissa_shifted (m k : Nat) : (shifted m k).roundedMantissa = nearest m k := by
  rw [shifted_eq_quotient, roundedMantissa_quotient (Nat.two_pow_pos k)]
  rfl

theorem magnitude_shift (m : Nat) {e : Int} (h : -1074 ≤ e) (k : Nat) :
    magnitude (m * 2 ^ k) e = magnitude m (e + k) := by
  have hk : (e + k + 1074).toNat = k + (e + 1074).toNat := by omega
  rw [magnitude, magnitude, hk, Nat.pow_add, Nat.mul_assoc]

theorem shiftToTargetExponent_quotient {n d k : Nat} {e : Int} (hd : 0 < d)
    (hlog : (n / d).log2 = 52 + k) (he : -1074 ≤ e + k) :
    shiftToTargetExponent .binary64 (n / d) e (accuracyOfFraction (n % d) d) =
      (quotient n (d * 2 ^ k), e + k) := by
  have htarget : Format.binary64.targetExponent (totalExponent (n / d) e) = e + k := by
    change max (((n / d).log2 : Int) + 1 + e - 53) (-1074) = e + k
    omega
  have hshift : (e + k - e).toNat = k := by omega
  rw [shiftToTargetExponent, htarget, shiftToExponent, hshift, ofMantissaAndAccuracy_quotient hd]
  exact congrArg (·, e + (k : Int)) (shiftRight_quotient hd k)

theorem shiftToTargetExponent_eq {m k : Nat} {e : Int} (hm : m.log2 = 52 + k)
    (he : -1074 ≤ e + k) :
    shiftToTargetExponent .binary64 m e .exact = (shifted m k, e + k) := by
  have h := shiftToTargetExponent_quotient (n := m) Nat.one_pos (by rwa [Nat.div_one]) he
  rwa [Nat.div_one, Nat.mod_one, Nat.one_mul, ← shifted_eq_quotient] at h

theorem roundWithAccuracy_of_shift (s : Sign) {n d m k : Nat} {e f : Int} {em : ExtendedMantissa}
    (hd : 0 < d) (hlog : (n / d).log2 = 52 + k) (he : -1074 ≤ e + k)
    (hshift : shiftToTargetExponent .binary64 (quotient n (d * 2 ^ k)).roundedMantissa (e + k)
      .exact = (em, f))
    (hem : em.mantissa = m) (hm : 0 < m) :
    roundWithAccuracy .binary64 s (n / d) e (accuracyOfFraction (n % d) d) = .finite s m f hm := by
  subst hem
  simp only [roundWithAccuracy, shiftToTargetExponent_quotient hd hlog he, hshift, dif_neg hm.ne']

/-- A quotient with at least 53 bits is rounded to 53 of them. -/
theorem round_quotient (s : Sign) {n d k : Nat} {e : Int} (hd : 0 < d)
    (hlog : (n / d).log2 = 52 + k) (he : -1074 ≤ e + k) :
    ∃ m, m = (quotient n (d * 2 ^ k)).roundedMantissa ∧ 2 ^ 52 ≤ m ∧
      (m < 2 ^ 53 ∧ (∃ hm, roundWithAccuracy .binary64 s (n / d) e
          (accuracyOfFraction (n % d) d) = .finite s m (e + k) hm) ∨
        m = 2 ^ 53 ∧ ∃ hm, roundWithAccuracy .binary64 s (n / d) e
          (accuracyOfFraction (n % d) d) = .finite s (2 ^ 52) (e + k + 1) hm) := by
  have hq : n / d ≠ 0 := by
    intro h
    simp [h] at hlog
    omega
  have hlo : 2 ^ 52 ≤ n / (d * 2 ^ k) := by
    rw [← Nat.div_div_eq_div_mul, Nat.le_div_iff_mul_le (Nat.two_pow_pos k), ← Nat.pow_add]
    exact hlog ▸ Nat.log2_self_le hq
  have hhi : n / (d * 2 ^ k) < 2 ^ 53 := by
    rw [← Nat.div_div_eq_div_mul, Nat.div_lt_iff_lt_mul (Nat.two_pow_pos k), ← Nat.pow_add]
    exact (Nat.log2_lt hq).1 (by omega)
  obtain ⟨m, hm⟩ : ∃ m, m = (quotient n (d * 2 ^ k)).roundedMantissa := ⟨_, rfl⟩
  have hbounds : n / (d * 2 ^ k) ≤ m ∧ m ≤ n / (d * 2 ^ k) + 1 := by
    rw [hm, roundedMantissa_quotient (Nat.mul_pos hd (Nat.two_pow_pos k))]
    split
    · omega
    · split <;> omega
  refine ⟨m, hm, by omega, ?_⟩
  rcases (show m ≤ 2 ^ 53 by omega).lt_or_eq with hlt | heq
  · have hmlog : m.log2 = 52 + 0 := (Nat.log2_eq_iff (by omega)).2 ⟨by omega, hlt⟩
    have hshift : shiftToTargetExponent .binary64 (quotient n (d * 2 ^ k)).roundedMantissa (e + k)
        .exact = (⟨m, false, false⟩, e + k) := by
      rw [← hm]
      simpa [shifted] using shiftToTargetExponent_eq (e := e + k) hmlog (by omega)
    exact .inl ⟨hlt, by omega, roundWithAccuracy_of_shift s hd hlog he hshift rfl _⟩
  · -- a mantissa of all ones was rounded up, and has one bit more
    have hshift : shiftToTargetExponent .binary64 (quotient n (d * 2 ^ k)).roundedMantissa (e + k)
        .exact = (shifted (2 ^ 53) 1, e + k + 1) := by
      rw [← hm, heq]
      exact shiftToTargetExponent_eq (by decide) (by omega)
    exact .inr ⟨heq, by decide, roundWithAccuracy_of_shift s hd hlog he hshift rfl _⟩

/-- The float is a mantissa of 53 bits and an exponent below the greatest, and its size is `a`. -/
def HasSize (u : UnpackedFloat) (s : Sign) (a : Nat) : Prop :=
  ∃ m e, ∃ hm : 0 < m, u = .finite s m e hm ∧ 2 ^ 52 ≤ m ∧ m < 2 ^ 53 ∧ -1074 ≤ e ∧ e ≤ 970 ∧
    magnitude m e = a

/-- A number with at least 53 bits is rounded to 53 of them. -/
theorem hasSize_roundWithAccuracy (s : Sign) {m k : Nat} {e : Int} (hm : m.log2 = 52 + k)
    (hlo : -1074 ≤ e + k) (hhi : e + k < 970 ∨ e + k = 970 ∧ nearest m k < 2 ^ 53) :
    HasSize (roundWithAccuracy .binary64 s m e .exact) s (magnitude (nearest m k) (e + k)) := by
  obtain ⟨r, hr, hge, hround⟩ :=
    round_quotient s (n := m) Nat.one_pos (by rwa [Nat.div_one]) hlo
  rw [Nat.one_mul, ← shifted_eq_quotient, roundedMantissa_shifted] at hr
  rw [Nat.div_one, Nat.mod_one] at hround
  subst hr
  rcases hround with ⟨hlt, hpos, h⟩ | ⟨heq, hpos, h⟩
  · exact ⟨nearest m k, e + k, hpos, h, hge, hlt, hlo, by omega, rfl⟩
  · have hmagnitude : magnitude (2 ^ 52) (e + k + 1) = magnitude (nearest m k) (e + k) := by
      rw [heq]
      exact (magnitude_shift (2 ^ 52) hlo 1).symm
    exact ⟨2 ^ 52, e + k + 1, hpos, h, le_rfl, by decide, by omega, by omega, hmagnitude⟩

/-- Packing keeps a mantissa of 53 bits. -/
theorem unpack_pack (s : Sign) {m : Nat} {e : Int} (hpos : 0 < m) (hbig : 2 ^ 52 ≤ m)
    (hm : m < 2 ^ 53) (hlo : -1074 ≤ e) (hhi : e ≤ 970) :
    unpack .binary64 (UnpackedFloat.pack .binary64 (.finite s m e hpos)) = .finite s m e hpos := by
  have hlog : m.log2 = 52 := (Nat.log2_eq_iff hpos.ne').2 ⟨hbig, hm⟩
  have hbiased : (e + Format.binary64.exponentBias +
      Format.binary64.mantissaBitsWithoutImplicit).toNat = (e + 1075).toNat := by
    change (e + (1023 : Nat) + (52 : Nat)).toNat = _
    omega
  have hexponent : (BitVec.ofNat 11 (e + 1075).toNat).toNat = (e + 1075).toNat :=
    Nat.mod_eq_of_lt (by omega)
  have hfinite : BitVec.ofNat 11 (e + 1075).toNat ≠ -1#11 := fun h => by
    have : (e + 1075).toNat = 2047 := hexponent ▸ congrArg BitVec.toNat h
    omega
  have hnonzero : BitVec.ofNat 11 (e + 1075).toNat ≠ 0#11 := fun h => by
    have : (e + 1075).toNat = 0 := hexponent ▸ congrArg BitVec.toNat h
    omega
  have hmantissa : (1#1 ++ BitVec.ofNat 52 m).toNat = m := by
    rw [toNat_one_append, BitVec.toNat_ofNat]
    omega
  have hbias : (Format.binary64.exponentBias : Int) + (52 : Nat) = 1075 := rfl
  rw [UnpackedFloat.pack]
  simp only [hlog, hbiased]
  rw [if_neg (by omega), if_pos (by rfl), unpack]
  simp only [unpackMantissa_packComponents, unpackExponent_packComponents,
    unpackSign_packComponents, Sign.ofBitVec_toBitVec]
  rw [if_neg hfinite, if_neg hnonzero]
  simp only [hmantissa, hexponent, hbias]
  congr 1
  omega

theorem log2_mul_two_pow {m : Nat} (hm : m ≠ 0) (j : Nat) : (m * 2 ^ j).log2 = m.log2 + j := by
  have hj := Nat.two_pow_pos j
  refine (Nat.log2_eq_iff (Nat.mul_ne_zero hm hj.ne')).2 ⟨?_, ?_⟩
  · rw [Nat.pow_add]
    exact Nat.mul_le_mul_right _ (Nat.log2_self_le hm)
  · rw [Nat.add_right_comm, Nat.pow_add]
    exact Nat.mul_lt_mul_of_pos_right Nat.lt_log2_self hj

def rounded (m : Nat) : Nat := nearest m (m.log2 - 52) * 2 ^ (m.log2 - 52)

theorem HasSize.pack {u : UnpackedFloat} {s : Sign} {a : Nat} (h : HasSize u s a) :
    (Float.Model.pack u).unpack = u := by
  obtain ⟨m, e, hm, rfl, hbig, hlt, hlo, hhi, -⟩ := h
  exact unpack_pack s hm hbig hlt hlo hhi

theorem HasSize.units {u : UnpackedFloat} {s : Sign} {a : Nat} (h : HasSize u s a) :
    units? u = some (s.apply a) := by
  obtain ⟨m, e, hm, rfl, -, -, -, -, rfl⟩ := h
  rfl

@[irreducible] def unitsInOne : Nat := magnitude 1 0

theorem unitsInOne_pos : 0 < unitsInOne := by
  unfold unitsInOne
  exact Nat.mul_pos Nat.one_pos (Nat.two_pow_pos _)

theorem magnitude_zero (m : Nat) : magnitude m 0 = m * unitsInOne := by
  unfold unitsInOne
  rw [magnitude, magnitude, Nat.one_mul]

/-- An integer rounds to the same number in whatever unit its mantissa is given. -/
theorem magnitude_nearest {m j k : Nat} (h : m.log2 + j = 52 + k) (hj : j ≤ 53) :
    magnitude (nearest (m * 2 ^ j) k) (-j + k) = rounded m * unitsInOne := by
  rcases Nat.le_total 52 m.log2 with hlog | hlog
  · obtain ⟨t, ht⟩ : ∃ t, m.log2 = 52 + t := ⟨m.log2 - 52, by omega⟩
    obtain rfl : k = t + j := by omega
    have he : -(j : Int) + (t + j : Nat) = 0 + t := by omega
    rw [nearest_mul_two_pow, he, ← magnitude_shift _ (by decide), magnitude_zero, rounded, ht,
      Nat.add_sub_cancel_left]
  · obtain ⟨i, hi⟩ : ∃ i, m.log2 + i = 52 := ⟨52 - m.log2, by omega⟩
    obtain rfl : j = i + k := by omega
    have he : -((i + k : Nat) : Int) + k + i = 0 := by omega
    have hnearest : nearest (m * 2 ^ (i + k)) k = m * 2 ^ i := by
      rw [Nat.pow_add, ← Nat.mul_assoc]
      simpa using nearest_mul_two_pow (m * 2 ^ i) 0 k
    rw [hnearest, magnitude_shift m (by omega), he, magnitude_zero, rounded,
      Nat.sub_eq_zero_of_le hlog, nearest_zero, Nat.pow_zero, Nat.mul_one]

theorem hasSize_round (s : Sign) {m j : Nat} (hm : m ≠ 0) (hlog : m.log2 < 64)
    (hlo : 52 ≤ m.log2 + j) (hhi : j ≤ 53) :
    HasSize (roundWithAccuracy .binary64 s (m * 2 ^ j) (-j) .exact) s
      (rounded m * unitsInOne) := by
  obtain ⟨k, hk⟩ : ∃ k, m.log2 + j = 52 + k := ⟨m.log2 + j - 52, by omega⟩
  rw [← magnitude_nearest hk hhi]
  exact hasSize_roundWithAccuracy s ((log2_mul_two_pow hm j).trans hk) (by omega) (.inl (by omega))

theorem hasSize_large {m : Nat} (hlo : 2 ^ 53 ≤ m) (hhi : m < 2 ^ 64) :
    HasSize (Float.ofNat m).toModel.unpack .positive (rounded m * unitsInOne) := by
  have hm : m ≠ 0 := by omega
  have hlog : 52 ≤ m.log2 := (Nat.le_log2 hm).2 (by omega)
  have hmodel : (Float.ofNat m).toModel = .pack (roundWithAccuracy .binary64 .positive
      (m <<< 53 * 10 ^ 0) (-53 + 0) .exact) := by
    change (Float.ofScientific m false 0).toModel = _
    rw [Float.ofScientific, dif_neg (by omega)]
    change Float.Model.pack (ofScientific .binary64 m 0) = _
    rw [ofScientific, dif_neg hm, if_neg (by decide), if_neg (by simp), if_pos le_rfl]
    rfl
  have hsize := hasSize_round .positive (j := 53) hm ((Nat.log2_lt hm).2 hhi) (by omega) le_rfl
  rw [hmodel, Nat.pow_zero, Nat.mul_one, Nat.shiftLeft_eq]
  exact hsize.pack.symm ▸ hsize

theorem ofInt_eq_round {m : Nat} (hm : m ≠ 0) (hlog : m.log2 < 53) :
    ofInt .binary64 m =
      roundWithAccuracy .binary64 .positive (m * 2 ^ (52 - m.log2)) (-(52 - m.log2 : Nat))
        .exact := by
  have hpositive : compare (m : Int) 0 = .gt := compare_gt_iff_gt.2 (by omega)
  have htarget : (-Format.binary64.targetExponent (totalExponent m 0)).toNat = 52 - m.log2 := by
    change (-max ((m.log2 : Int) + 1 + 0 - 53) (-1074)).toNat = _
    omega
  rw [ofInt, Float.Model.UnpackedFloat.normalize, hpositive]
  simp only [UnpackedFloat.round, decreaseExponent, Int.zero_sub, htarget, Int.toNat_natCast,
    Nat.shiftLeft_eq]

theorem unpack_one :
    (getElem Float.exactlyRepresentablePowersOfTen 0 (by decide)).toModel.unpack =
      .finite .positive (2 ^ 52) (-52) (by decide) := rfl

theorem HasSize.mul_one {u : UnpackedFloat} {s : Sign} {a : Nat} (h : HasSize u s a) :
    HasSize (mul .binary64 u (.finite .positive (2 ^ 52) (-52) (by decide))) s a := by
  obtain ⟨m, e, hm, rfl, hbig, hlt, hlo, hhi, rfl⟩ := h
  have hlog : (m * 2 ^ 52).log2 = 52 + 52 := by
    rw [log2_mul_two_pow hm.ne', (Nat.log2_eq_iff hm.ne').2 ⟨hbig, hlt⟩]
  have hnearest : nearest (m * 2 ^ 52) 52 = m := by simpa using nearest_mul_two_pow m 0 52
  have he : e + -52 + (52 : Nat) = e := by omega
  have hsign : s * .positive = s := by cases s <;> rfl
  have hsize := hasSize_roundWithAccuracy s hlog (e := e + -52) (by omega) (by omega)
  rw [hnearest, he] at hsize
  rw [mul, hsign]
  exact hsize

theorem hasSize_ofInt {m : Nat} (hm : m ≠ 0) (hhi : m < 2 ^ 53) :
    HasSize (ofInt .binary64 m) .positive (rounded m * unitsInOne) := by
  have hlog : m.log2 < 53 := (Nat.log2_lt hm).2 hhi
  rw [ofInt_eq_round hm hlog]
  exact hasSize_round .positive hm (by omega) (by omega) (by omega)

theorem toModel_toFloat {m : Nat} (h : m < 2 ^ 53) :
    m.toUInt64.toFloat.toModel = .pack (ofInt .binary64 m) := by
  have hcast : m.toUInt64.toNat = m := Nat.mod_eq_of_lt (by omega)
  change Float.Model.pack (ofInt .binary64 m.toUInt64.toNat) = _
  rw [hcast]

theorem hasSize_small {m : Nat} (hm : m ≠ 0) (hhi : m < 2 ^ 53) :
    HasSize (Float.ofNat m).toModel.unpack .positive (rounded m * unitsInOne) := by
  have hmodel : (Float.ofNat m).toModel = .pack (mul .binary64
      (Float.Model.pack (ofInt .binary64 m)).unpack
      (.finite .positive (2 ^ 52) (-52) (by decide))) := by
    change (Float.ofScientific m false 0).toModel = _
    rw [Float.ofScientific, dif_pos (by omega), ← unpack_one, ← toModel_toFloat hhi]
    rfl
  have hsize := hasSize_ofInt hm hhi
  rw [hmodel, hsize.pack, hsize.mul_one.pack]
  exact hsize.mul_one

theorem hasSize_ofNat {m : Nat} (hm : m ≠ 0) (hhi : m < 2 ^ 64) :
    HasSize (Float.ofNat m).toModel.unpack .positive (rounded m * unitsInOne) :=
  (Nat.lt_or_ge m (2 ^ 53)).elim (hasSize_small hm) (hasSize_large · hhi)

theorem HasSize.neg {u : UnpackedFloat} {s : Sign} {a : Nat} (h : HasSize u s a) :
    HasSize u.neg (-s) a := by
  obtain ⟨m, e, hm, rfl, h⟩ := h
  exact ⟨m, e, hm, rfl, h⟩

def roundedInt (n : Int) : Int := n.sign * rounded n.natAbs

theorem number?_ofInt {n : Int} (h : n.natAbs < 2 ^ 64) :
    number? (Float.ofInt n) = some (roundedInt n * unitsInOne) := by
  rcases n with (_ | m) | m
  · change number? (Float.ofInt 0) = some (0 * (rounded 0 : Int) * _)
    rw [Int.zero_mul, Int.zero_mul]
    rfl
  · have hsize := hasSize_ofNat (m := m + 1) (by omega) h
    change units? (Float.ofNat (m + 1)).toModel.unpack = some (1 * (rounded (m + 1) : Int) * _)
    rw [hsize.units, Int.one_mul]
    exact congrArg some (Nat.cast_mul _ _)
  · have hsize := (hasSize_ofNat (m := m + 1) (by omega) h).neg
    change units? (Float.Model.pack (Float.ofNat (m + 1)).toModel.unpack.neg).unpack =
      some (-1 * (rounded (m + 1) : Int) * _)
    rw [hsize.pack, hsize.units, Int.neg_one_mul, Int.neg_mul]
    exact congrArg (some ∘ Neg.neg) (Nat.cast_mul _ _)

theorem rounded_of_log2 {m : Nat} (h : m.log2 ≤ 52) : rounded m = m := by
  rw [rounded, Nat.sub_eq_zero_of_le h, nearest_zero, Nat.pow_zero, Nat.mul_one]

theorem rounded_le (m : Nat) : rounded m ≤ 2 ^ (m.log2 + 1) := by
  rcases Nat.le_total m.log2 52 with h | h
  · rw [rounded_of_log2 h]
    exact Nat.lt_log2_self.le
  · have hexponent : m.log2 + 1 = 53 + (m.log2 - 52) := by omega
    rw [hexponent, Nat.pow_add]
    exact Nat.mul_le_mul_right _ (nearest_le (hexponent ▸ Nat.lt_log2_self))

theorem le_rounded {m : Nat} (hm : m ≠ 0) : 2 ^ m.log2 ≤ rounded m := by
  rcases Nat.le_total m.log2 52 with h | h
  · rw [rounded_of_log2 h]
    exact Nat.log2_self_le hm
  · have hexponent : m.log2 = 52 + (m.log2 - 52) := by omega
    calc 2 ^ m.log2 = 2 ^ 52 * 2 ^ (m.log2 - 52) := by rw [← Nat.pow_add, ← hexponent]
      _ ≤ rounded m := Nat.mul_le_mul_right _ (le_nearest (hexponent ▸ Nat.log2_self_le hm))

/-- Rounding keeps the order. -/
theorem rounded_mono {m n : Nat} (h : m ≤ n) : rounded m ≤ rounded n := by
  rcases Nat.eq_zero_or_pos m with rfl | hm
  · exact Nat.zero_le _
  · have hn : n ≠ 0 := by omega
    have hlog : m.log2 ≤ n.log2 := (Nat.le_log2 hn).2 ((Nat.log2_self_le hm.ne').trans h)
    rcases hlog.lt_or_eq with hlt | heq
    · calc rounded m ≤ 2 ^ (m.log2 + 1) := rounded_le m
        _ ≤ 2 ^ n.log2 := Nat.pow_le_pow_right (by decide) hlt
        _ ≤ rounded n := le_rounded hn
    · rw [rounded, rounded, heq]
      exact Nat.mul_le_mul_right _ (nearest_mono h _)

/-- Up to 2⁵³ every integer has a float. -/
theorem rounded_of_le {m : Nat} (h : m ≤ 2 ^ 53) : rounded m = m := by
  rcases h.lt_or_eq with hlt | rfl
  · rcases Nat.eq_zero_or_pos m with rfl | hm
    · rfl
    · exact rounded_of_log2 (Nat.lt_succ_iff.1 ((Nat.log2_lt hm.ne').2 hlt))
  · rfl

theorem roundedInt_natCast (m : Nat) : roundedInt m = rounded m := by
  rcases Nat.eq_zero_or_pos m with rfl | hm
  · rfl
  · rw [roundedInt, Int.sign_natCast_of_ne_zero hm.ne', Int.one_mul, Int.natAbs_natCast]

theorem roundedInt_neg (n : Int) : roundedInt (-n) = -roundedInt n := by
  rw [roundedInt, roundedInt, Int.sign_neg, Int.natAbs_neg, Int.neg_mul]

theorem roundedInt_mono {m n : Int} (h : m ≤ n) : roundedInt m ≤ roundedInt n := by
  obtain ⟨i, rfl | rfl⟩ := m.eq_nat_or_neg <;> obtain ⟨j, rfl | rfl⟩ := n.eq_nat_or_neg <;>
    simp only [roundedInt_neg, roundedInt_natCast]
  · exact Int.ofNat_le.2 (rounded_mono (Int.ofNat_le.1 h))
  · obtain ⟨rfl, rfl⟩ : i = 0 ∧ j = 0 := by omega
    rfl
  · omega
  · exact Int.neg_le_neg (Int.ofNat_le.2 (rounded_mono (by omega)))

theorem roundedInt_of_le {n : Int} (h : n.natAbs ≤ 2 ^ 53) : roundedInt n = n := by
  rw [roundedInt, rounded_of_le h, Int.sign_mul_natAbs]

/-- Rounding makes no two integers equal, if one is less than 2⁵³ in size. -/
theorem roundedInt_lt {m n : Int} (h : n < m) (hsmall : m.natAbs < 2 ^ 53 ∨ n.natAbs < 2 ^ 53) :
    roundedInt n < roundedInt m := by
  rcases hsmall with hm | hn
  · have hle : roundedInt n ≤ roundedInt (max n (-2 ^ 53)) := roundedInt_mono (le_max_left _ _)
    have hmax : roundedInt (max n (-2 ^ 53)) = max n (-2 ^ 53) := roundedInt_of_le (by omega)
    rw [roundedInt_of_le hm.le]
    omega
  · have hle : roundedInt (min m (2 ^ 53)) ≤ roundedInt m := roundedInt_mono (min_le_left _ _)
    have hmin : roundedInt (min m (2 ^ 53)) = min m (2 ^ 53) := roundedInt_of_le (by omega)
    rw [roundedInt_of_le hn.le]
    omega

end Stencil
