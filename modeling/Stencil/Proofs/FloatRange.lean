import Mathlib
import Stencil.Decimal
import Stencil.Proofs.FloatBits
import Stencil.Proofs.Rounding

/-! When a decimal has a finite float: a quotient is rounded to a finite float just if it is less
than halfway from the greatest float to the next power of two. -/
namespace Stencil

open Float.Model (UnpackedFloat Format totalExponent)
open Float.Model.UnpackedFloat

/-- Halfway from the greatest float to `2 ^ 1024`, which is rounded up. -/
@[irreducible] def floatLimit : Nat := (2 ^ 54 - 1) * 2 ^ 970

theorem two_pow_le_floatLimit {n : Nat} (h : n ≤ 1023) : 2 ^ n ≤ floatLimit := by
  have hlimit : 2 ^ 1023 ≤ floatLimit := by
    unfold floatLimit
    rw [show 1023 = 53 + 970 from rfl, pow_add]
    exact Nat.mul_le_mul_right _ (by decide)
  exact (pow_le_pow_right₀ one_le_two h).trans hlimit

theorem floatLimit_le_two_pow {n : Nat} (h : 1024 ≤ n) : floatLimit ≤ 2 ^ n := by
  have hlimit : floatLimit ≤ 2 ^ 1024 := by
    unfold floatLimit
    rw [show 1024 = 54 + 970 from rfl, pow_add]
    exact Nat.mul_le_mul_right _ (by decide)
  exact hlimit.trans (pow_le_pow_right₀ one_le_two h)

theorem floatLimit_le_ten_pow {n : Nat} (h : 311 ≤ n) : floatLimit ≤ 10 ^ n := by
  have hten : 2 ^ 93 ≤ 10 ^ 28 := by decide
  calc floatLimit ≤ 2 ^ (93 * 11 + 1) := floatLimit_le_two_pow (by decide)
    _ = (2 ^ 93) ^ 11 * 2 := by rw [pow_succ, pow_mul]
    _ ≤ (10 ^ 28) ^ 11 * 10 := Nat.mul_le_mul (Nat.pow_le_pow_left hten 11) (by decide)
    _ = 10 ^ (28 * 11 + 1) := by rw [pow_succ _ (28 * 11), pow_mul]
    _ ≤ 10 ^ n := pow_le_pow_right₀ (by decide) (by omega)

theorem two_mul_floatLimit : 2 * floatLimit + 2 ^ 971 = 4 * (2 ^ 971 * 2 ^ 52) := by
  rw [show 971 = 970 + 1 from rfl, pow_succ]
  unfold floatLimit
  generalize 2 ^ 970 = n
  omega

def InRange : UnpackedFloat → Prop
  | .notANumber | .infinity _ => False
  | .zero _ => True
  | .finite _ _ e _ => e ≤ 971

theorem isFinite_packComponents (s : Sign) (e : BitVec 11) (m : BitVec 52) :
    (unpack .binary64 (packComponents .binary64 s e m)).isFinite ↔ e.toNat ≠ 2047 := by
  rw [(unpack_kind _).1, unpackExponent_packComponents]

theorem isFinite_pack (u : UnpackedFloat) :
    (unpack .binary64 (UnpackedFloat.pack .binary64 u)).isFinite ↔ InRange u := by
  cases u with
  | notANumber => exact iff_of_false (by decide) id
  | infinity s => cases s <;> exact iff_of_false (by decide) id
  | zero s => cases s <;> exact iff_of_true (by decide) trivial
  | finite s m e hm =>
    have hbiased : (e + Format.binary64.exponentBias +
        Format.binary64.mantissaBitsWithoutImplicit).toNat = (e + 1075).toNat := by
      change (e + (1023 : Nat) + (52 : Nat)).toNat = _
      omega
    simp only [UnpackedFloat.pack, hbiased, InRange]
    split
    case isTrue h =>
      have h : 2048 ≤ (e + 1075).toNat + 1 := h
      refine iff_of_false ?_ (by omega)
      cases s <;> decide
    case isFalse h =>
      have h : ¬2048 ≤ (e + 1075).toNat + 1 := h
      split
      · refine (isFinite_packComponents s _ _).trans (iff_of_true ?_ (by omega))
        rw [BitVec.toNat_ofNat]
        omega
      · exact (isFinite_packComponents s _ _).trans (iff_of_true (by decide) (by omega))

theorem isFinite_iff_inRange (x : Float) : x.isFinite ↔ InRange x.toModel.unpack := by
  rw [← isFinite_pack, pack_toModel]
  rfl

theorem inRange_neg (u : UnpackedFloat) : InRange u.neg ↔ InRange u := by
  cases u <;> rfl

theorem isFinite_neg (x : Float) : (-x).isFinite ↔ x.isFinite := by
  rw [isFinite_iff_inRange x, ← inRange_neg, ← isFinite_pack]
  rfl

theorem mantissa_shiftRight (em : ExtendedMantissa) (k : Nat) :
    (em >>> k).mantissa = em.mantissa / 2 ^ k := by
  change (k.repeat ExtendedMantissa.shiftRightOne em).mantissa = _
  induction k with
  | zero => rw [Nat.repeat, Nat.pow_zero, Nat.div_one]
  | succ k ih =>
    rw [Nat.repeat, ExtendedMantissa.shiftRightOne, ih, Nat.div_div_eq_div_mul, Nat.pow_succ]

theorem mantissa_ofMantissaAndAccuracy (m : Nat) (acc : Accuracy) :
    (ExtendedMantissa.ofMantissaAndAccuracy m acc).mantissa = m := by
  rcases acc with _ | o
  · rfl
  · cases o <;> rfl

theorem roundedMantissa_le (em : ExtendedMantissa) : em.roundedMantissa ≤ em.mantissa + 1 := by
  unfold ExtendedMantissa.roundedMantissa Accuracy.roundToNearestEven
  split <;> omega

/-- A number below `2 ^ 1023` stays in range however it is rounded. -/
theorem inRange_round (s : Sign) (m : Nat) {e : Int} (acc : Accuracy) (h : m.log2 + e ≤ 1022)
    (he : e ≤ 970) : InRange (roundWithAccuracy .binary64 s m e acc) := by
  obtain ⟨t, ht⟩ : ∃ t, Format.binary64.targetExponent (totalExponent m e) = t := ⟨_, rfl⟩
  have hmax : max ((m.log2 : Int) + 1 + e - 53) (-1074) = t := ht
  obtain ⟨k, hk⟩ : ∃ k, (t - e).toNat = k := ⟨_, rfl⟩
  obtain ⟨em, hem⟩ : ∃ em, ExtendedMantissa.ofMantissaAndAccuracy m acc >>> k = em := ⟨_, rfl⟩
  have hfirst : shiftToTargetExponent .binary64 m e acc = (em, e + k) := by
    rw [shiftToTargetExponent, ht, shiftToExponent, hk, hem]
  -- what is rounded up has at most one bit more than what was left of `m`
  have hlog : em.roundedMantissa.log2 ≤ m.log2 + 1 - k := by
    have hmant : em.mantissa = m / 2 ^ k := by
      rw [← hem, mantissa_shiftRight, mantissa_ofMantissaAndAccuracy]
    have hlt : m / 2 ^ k < 2 ^ (m.log2 + 1 - k) := by
      rw [Nat.div_lt_iff_lt_mul (Nat.two_pow_pos k), ← Nat.pow_add]
      exact Nat.lt_log2_self.trans_le (Nat.pow_le_pow_right (by decide) (by omega))
    have hle := roundedMantissa_le em
    rcases Nat.eq_zero_or_pos em.roundedMantissa with h0 | hpos
    · rw [h0]
      exact Nat.zero_le _
    · refine Nat.lt_succ_iff.1 ((Nat.log2_lt hpos.ne').2 ?_)
      rw [Nat.pow_succ]
      omega
  obtain ⟨em', e', hsecond⟩ : ∃ em' e', shiftToTargetExponent .binary64 em.roundedMantissa (e + k)
      .exact = (em', e') := ⟨_, _, rfl⟩
  have he' : e' ≤ 971 := by
    have hshift : e' = e + k + ((max ((em.roundedMantissa.log2 : Int) + 1 + (e + k) - 53) (-1074) -
        (e + k)).toNat : Int) := (congrArg Prod.snd hsecond).symm
    omega
  rw [roundWithAccuracy, hfirst]
  simp only [hsecond]
  split
  · trivial
  · exact he'

/-- A quotient below an even number is rounded up to it just from halfway on. -/
theorem roundedMantissa_lt_iff {n d m : Nat} (hd : 0 < d) (h : n / d < 2 * m) :
    (quotient n d).roundedMantissa < 2 * m ↔ 2 * n + d < 4 * (d * m) := by
  have hn := Nat.div_add_mod n d
  have hlt := Nat.mod_lt n hd
  rw [roundedMantissa_quotient hd]
  generalize n / d = q at h hn ⊢
  generalize n % d = r at hlt hn ⊢
  have hdouble : d * (2 * m) = 2 * (d * m) := Nat.mul_left_comm d 2 m
  rcases Nat.lt_or_ge (q + 1) (2 * m) with hq | hq
  · have hmul : d * (q + 2) ≤ d * (2 * m) := Nat.mul_le_mul_left d hq
    rw [Nat.mul_add] at hmul
    refine iff_of_true ?_ (by omega)
    split
    · omega
    · split <;> omega
  · have hq : q + 1 = 2 * m := by omega
    have hmul : d * (q + 1) = 2 * (d * m) := by rw [hq, hdouble]
    rw [Nat.mul_add, Nat.mul_one] at hmul
    split
    · omega
    · split <;> omega

theorem inRange_round_quotient (s : Sign) {n d k : Nat} (hd : 0 < d)
    (hlog : (n / d).log2 = 52 + k) :
    InRange (roundWithAccuracy .binary64 s (n / d) 0 (accuracyOfFraction (n % d) d)) ↔
      n < floatLimit * d := by
  have hq : n / d ≠ 0 := by
    intro h
    simp [h] at hlog
    omega
  have hlo : 2 ^ (52 + k) ≤ n / d := hlog ▸ Nat.log2_self_le hq
  have hhi : n / d < 2 ^ (53 + k) := (Nat.log2_lt hq).1 (by omega)
  obtain ⟨m, hm, -, hround⟩ := round_quotient s hd (e := 0) hlog (by omega)
  rw [← Nat.div_lt_iff_lt_mul hd]
  rcases Nat.lt_trichotomy k 971 with hk | hk | hk
  · have hbound : n / d < floatLimit :=
      hhi.trans_le (two_pow_le_floatLimit (by omega))
    refine iff_of_true ?_ hbound
    clear hlo hhi hbound hm
    rcases hround with ⟨-, hpos, h⟩ | ⟨-, hpos, h⟩ <;> rw [h, InRange] <;> omega
  · have hpow : 0 < d * 2 ^ k := Nat.mul_pos hd (Nat.two_pow_pos k)
    have hfew : n / (d * 2 ^ k) < 2 * 2 ^ 52 := by
      rw [← Nat.div_div_eq_div_mul, Nat.div_lt_iff_lt_mul (Nat.two_pow_pos k), ← Nat.pow_succ',
        ← Nat.pow_add]
      exact hhi
    have hhalf : 2 * (floatLimit * d) + d * 2 ^ k = 4 * (d * 2 ^ k * 2 ^ 52) := by
      have h : 2 * floatLimit + 2 ^ k = 4 * (2 ^ k * 2 ^ 52) := hk ▸ two_mul_floatLimit
      linear_combination d * h
    have hbound : n < floatLimit * d ↔ m < 2 * 2 ^ 52 := by
      rw [hm, roundedMantissa_lt_iff hpow hfew, ← hhalf]
      clear hm hlo hhi hfew hhalf
      omega
    rw [Nat.div_lt_iff_lt_mul hd, hbound]
    clear hlo hhi hfew hhalf hbound hm
    rcases hround with ⟨hlt, hpos, h⟩ | ⟨heq, hpos, h⟩
    · exact iff_of_true (by rw [h, InRange]; omega) hlt
    · exact iff_of_false (by rw [h, InRange]; omega) (by omega)
  · have hbound : floatLimit ≤ n / d :=
      (floatLimit_le_two_pow (by omega)).trans hlo
    refine iff_of_false ?_ hbound.not_gt
    clear hlo hhi hbound hm
    rcases hround with ⟨-, hpos, h⟩ | ⟨-, hpos, h⟩ <;> rw [h, InRange] <;> omega

theorem log2_quotient_le (m k : Nat) {d : Nat} (hd : d ≠ 0) :
    (m * 2 ^ k / d).log2 ≤ m.log2 + k + 1 - (d.log2 + 1) := by
  rcases Nat.eq_zero_or_pos (m * 2 ^ k / d) with h0 | hpos
  · rw [h0]
    exact Nat.zero_le _
  · refine Nat.lt_succ_iff.1 ((Nat.log2_lt hpos.ne').2 ?_)
    rw [Nat.div_lt_iff_lt_mul (Nat.pos_of_ne_zero hd)]
    calc m * 2 ^ k < 2 ^ (m.log2 + 1) * 2 ^ k :=
          Nat.mul_lt_mul_of_pos_right Nat.lt_log2_self (Nat.two_pow_pos k)
      _ = 2 ^ (m.log2 + 1 + k) := (Nat.pow_add ..).symm
      _ ≤ 2 ^ ((m.log2 + k + 1 - (d.log2 + 1)).succ + d.log2) :=
          pow_le_pow_right₀ one_le_two (by omega)
      _ = 2 ^ (m.log2 + k + 1 - (d.log2 + 1)).succ * 2 ^ d.log2 := Nat.pow_add ..
      _ ≤ 2 ^ (m.log2 + k + 1 - (d.log2 + 1)).succ * d :=
          Nat.mul_le_mul_left _ (Nat.log2_self_le hd)

section Division

variable {m n : Nat} {e f : Int} (s t : Sign) (hm : 0 < m) (hn : 0 < n)

theorem div_finite {g : Int}
    (hg : min (e - f) (max ((m.log2 : Int) + 1 + e - (n.log2 + 1 + f) - 53) (-1074)) = g) :
    div .binary64 (.finite s m e hm) (.finite t n f hn) =
      roundWithAccuracy .binary64 (s / t) (m * 2 ^ (e - f - g).toNat / n) g
        (accuracyOfFraction (m * 2 ^ (e - f - g).toNat % n) n) := by
  subst hg
  rw [← Nat.shiftLeft_eq]
  rfl

/-- Numbers whose quotient has at most 1023 bits before the point have a finite one. -/
theorem inRange_div_of_le (h : (m.log2 : Int) + e - (n.log2 + f) ≤ 1022) :
    InRange (div .binary64 (.finite s m e hm) (.finite t n f hn)) := by
  obtain ⟨g, hg⟩ : ∃ g, min (e - f) (max ((m.log2 : Int) + 1 + e - (n.log2 + 1 + f) - 53) (-1074)) =
    g := ⟨_, rfl⟩
  have hlog := log2_quotient_le m (e - f - g).toNat hn.ne'
  rw [div_finite s t hm hn hg]
  exact inRange_round _ _ _ (by omega) (by omega)

/-- The quotient of two integers is finite just if it is below the limit. -/
theorem inRange_div_iff :
    InRange (div .binary64 (.finite s m 0 hm) (.finite t n 0 hn)) ↔ m < floatLimit * n := by
  rcases Nat.lt_or_ge m.log2 (n.log2 + 1023) with h | h
  · refine iff_of_true (inRange_div_of_le s t hm hn (by omega)) ?_
    obtain ⟨k, hk, hlog⟩ : ∃ k, k ≤ 1023 ∧ m.log2 + 1 ≤ k + n.log2 := ⟨1023, le_rfl, by omega⟩
    calc m < 2 ^ (m.log2 + 1) := Nat.lt_log2_self
      _ ≤ 2 ^ (k + n.log2) := pow_le_pow_right₀ one_le_two hlog
      _ = 2 ^ k * 2 ^ n.log2 := Nat.pow_add ..
      _ ≤ floatLimit * n := Nat.mul_le_mul (two_pow_le_floatLimit hk) (Nat.log2_self_le hn.ne')
  · have hlog : 2 ^ 52 ≤ m / n := by
      rw [Nat.le_div_iff_mul_le hn]
      calc 2 ^ 52 * n ≤ 2 ^ 52 * 2 ^ (n.log2 + 1) := Nat.mul_le_mul_left _ Nat.lt_log2_self.le
        _ = 2 ^ (52 + (n.log2 + 1)) := (Nat.pow_add ..).symm
        _ ≤ 2 ^ m.log2 := pow_le_pow_right₀ one_le_two (by omega)
        _ ≤ m := Nat.log2_self_le hm.ne'
    have hlog : 52 ≤ (m / n).log2 := (Nat.le_log2 (by omega)).2 hlog
    have hg : min ((0 : Int) - 0) (max ((m.log2 : Int) + 1 + 0 - (n.log2 + 1 + 0) - 53) (-1074)) =
      0 := by omega
    have hdiv := div_finite s t hm hn hg
    rw [Int.sub_zero, Int.sub_zero, Int.toNat_zero, Nat.pow_zero, Nat.mul_one] at hdiv
    rw [hdiv]
    exact inRange_round_quotient _ hn (k := (m / n).log2 - 52) (by omega)

end Division

def hasWhole : UnpackedFloat → Bool
  | .finite .positive n f _ => 0 ≤ (n.log2 : Int) + f
  | _ => false

theorem hasWhole_iff (u : UnpackedFloat) :
    hasWhole u ↔ ∃ n f, ∃ hn, u = .finite .positive n f hn ∧ 0 ≤ (n.log2 : Int) + f := by
  constructor
  · intro h
    unfold hasWhole at h
    split at h
    · exact ⟨_, _, _, rfl, by simpa using h⟩
    · cases h
  · rintro ⟨n, f, hn, rfl, h⟩
    simpa [hasWhole] using h

theorem hasWhole_powerOfTen : ∀ k : Fin Float.exactlyRepresentablePowersOfTen.size,
    hasWhole Float.exactlyRepresentablePowersOfTen[k].toModel.unpack := by
  decide +kernel

theorem isFinite_ofScientific_small {c k : Nat} (hc : c ≠ 0) (h : c < 2 ^ 53 ∧ k ≤ 22) :
    (Float.ofScientific c true k).isFinite := by
  have hsize := hasSize_ofInt hc h.1
  have hunpack := hsize.pack
  obtain ⟨n, f, hn, hpower, hlog⟩ :=
    (hasWhole_iff _).1 (hasWhole_powerOfTen ⟨k, Nat.lt_succ_of_le h.2⟩)
  obtain ⟨m, e, hm, hu, hge, hlt, -, he, -⟩ := hsize
  have hmlog : m.log2 = 52 := (Nat.log2_eq_iff hm.ne').2 ⟨hge, hlt⟩
  have hdiv : (Float.ofScientific c true k).toModel = .pack (div .binary64
      (.finite .positive m e hm) (.finite .positive n f hn)) := by
    rw [Float.ofScientific, dif_pos h, ← hpower, ← hu, ← hunpack, ← toModel_toFloat h.1]
    rfl
  change (Float.ofScientific c true k).toModel.unpack.isFinite
  rw [hdiv]
  exact (isFinite_pack _).2 (inRange_div_of_le _ _ hm hn (by omega))

theorem le_floatLimit_mul {c : Nat} (h : c ≤ floatLimit) (k : Nat) : c ≤ floatLimit * 10 ^ k :=
  h.trans (Nat.le_mul_of_pos_right _ (Nat.pow_pos (by decide)))

theorem inRange_ofScientific {c k : Nat} (hc : c ≠ 0) (hk : 0 < k) :
    InRange (ofScientific .binary64 c (-(k : Int))) ↔ c < floatLimit * 10 ^ k := by
  have hbits : (0 : Int) < 2 ^ Format.binary64.exponentBits := by decide
  rw [ofScientific, dif_neg hc, if_neg (by omega)]
  split
  case isTrue h =>
    -- so small a number is not divided out
    have h : -(k : Int) < -(2 ^ 11 + c.log2) := h
    refine iff_of_true trivial ?_
    calc c < 2 ^ (c.log2 + 1) := Nat.lt_log2_self
      _ ≤ 2 ^ k := pow_le_pow_right₀ one_le_two (by omega)
      _ ≤ 10 ^ k := Nat.pow_le_pow_left (by decide) k
      _ ≤ floatLimit * 10 ^ k :=
        Nat.le_mul_of_pos_left _ (Nat.one_pos.trans_le (two_pow_le_floatLimit (Nat.zero_le _)))
  case isFalse h =>
    have hpower : (-(-(k : Int))).toNat = k := by omega
    rw [if_neg (by omega), inRange_div_iff, hpower]

theorem isFinite_ofScientific {c k : Nat} (hc : c ≠ 0) (hk : 0 < k) :
    (Float.ofScientific c true k).isFinite ↔ c < floatLimit * 10 ^ k := by
  by_cases hsmall : c < 2 ^ 53 ∧ k ≤ 22
  · refine iff_of_true (isFinite_ofScientific_small hc hsmall) (hsmall.1.trans_le ?_)
    exact le_floatLimit_mul (two_pow_le_floatLimit (by decide)) k
  · have hmodel : (Float.ofScientific c true k).toModel =
        .pack (ofScientific .binary64 c (-(k : Int))) := by
      rw [Float.ofScientific, dif_neg hsmall, show -(k : Int) = Int.negOfNat k from
        Int.negOfNat_eq.symm]
      rfl
    change (Float.ofScientific c true k).toModel.unpack.isFinite ↔ _
    rw [hmodel]
    exact (isFinite_pack _).trans (inRange_ofScientific hc hk)

/-- A decimal with places after the point has a finite float just if it is below the limit. -/
theorem isFinite_toFloat (c : Nat) {k : Nat} (hk : 0 < k) :
    (Decimal.toFloat ⟨c, -k⟩).isFinite ↔ c < floatLimit * 10 ^ k := by
  have hlen (n : Nat) (hn : 0 < n) : (Nat.toDigits 10 c).length ≤ n ↔ c < 10 ^ n :=
    Nat.length_toDigits_le_iff (by decide) hn
  have hlead : Decimal.leading ⟨c, -k⟩ = (Nat.toDigits 10 c).length - 1 - (k : Int) := rfl
  have hlimit : 0 < floatLimit := Nat.one_pos.trans_le (two_pow_le_floatLimit (Nat.zero_le _))
  unfold Decimal.toFloat
  rw [hlead]
  split
  case isTrue h =>
    refine iff_of_true (by decide) ?_
    rw [Bool.or_eq_true, decide_eq_true_iff, decide_eq_true_iff] at h
    rcases h with h | h
    · rw [show c = 0 from h]
      exact Nat.mul_pos hlimit (Nat.pow_pos (by decide))
    · have hc : c < 10 ^ k := (hlen k hk).1 (by omega)
      exact hc.trans_le (Nat.le_mul_of_pos_left _ hlimit)
  case isFalse h =>
    have hc : c ≠ 0 := by
      rintro rfl
      simp at h
    split
    case isTrue hbig =>
      refine iff_of_false (by decide) (Nat.not_lt.2 ?_)
      obtain ⟨n, hn, hdigits⟩ : ∃ n, 311 ≤ n ∧ n + k < (Nat.toDigits 10 c).length :=
        ⟨311, le_rfl, by omega⟩
      have hc : 10 ^ (n + k) ≤ c := Nat.not_lt.1 ((hlen (n + k) (by omega)).not.1 (by omega))
      rw [Nat.pow_add] at hc
      exact (Nat.mul_le_mul_right _ (floatLimit_le_ten_pow hn)).trans hc
    case isFalse =>
      have hneg : decide (-(k : Int) < 0) = true := decide_eq_true (by omega)
      rw [hneg, Int.natAbs_neg, Int.natAbs_natCast]
      exact isFinite_ofScientific hc hk

end Stencil
