import Stencil.Decimal
import Stencil.Proofs.FloatOrder

/-! The bits of a float: whether it is finite, its sign, and that floats which compare equal and
have the same sign are the same. An absolute value has the same bits but for the sign. -/
namespace Stencil

open Float.Model (UnpackedFloat)
open Float.Model.UnpackedFloat

variable {x y : Float}

theorem eq_of_toBits (h : x.toBits = y.toBits) : x = y := by
  obtain ⟨⟨a, _⟩⟩ := x
  obtain ⟨⟨b, _⟩⟩ := y
  have h : a = b := h
  subst h
  rfl

theorem unpackExponent_toNat (b : BitVec 64) :
    (@unpackExponent .binary64 b).toNat = b.toNat / 2 ^ 52 % 2 ^ 11 := by
  simp [unpackExponent, BitVec.extractLsb, BitVec.extractLsb', Nat.shiftRight_eq_div_pow]

theorem unpackMantissa_toNat (b : BitVec 64) :
    (@unpackMantissa .binary64 b).toNat = b.toNat % 2 ^ 52 := by
  simp [unpackMantissa, BitVec.extractLsb, BitVec.extractLsb']

/-- What a float is, said with the fields of its bits. -/
theorem unpack_kind (b : BitVec 64) :
    ((unpack .binary64 b).isFinite ↔ (@unpackExponent .binary64 b).toNat ≠ 2047) ∧
      ((unpack .binary64 b).isNaN ↔ (@unpackExponent .binary64 b).toNat = 2047 ∧
        (@unpackMantissa .binary64 b).toNat ≠ 0) := by
  have he : @unpackExponent .binary64 b = -1#11 ↔ (@unpackExponent .binary64 b).toNat = 2047 :=
    BitVec.toNat_inj.symm
  have hm : @unpackMantissa .binary64 b = 0#52 ↔ (@unpackMantissa .binary64 b).toNat = 0 :=
    BitVec.toNat_inj.symm
  rw [Ne, Ne, ← he, ← hm, unpack]
  split
  case isTrue h =>
    split
    case isTrue hz =>
      exact ⟨iff_of_false Bool.false_ne_true (· h), iff_of_false Bool.false_ne_true (·.2 hz)⟩
    case isFalse hz => exact ⟨iff_of_false Bool.false_ne_true (· h), iff_of_true rfl ⟨h, hz⟩⟩
  case isFalse h =>
    split
    · split <;> exact ⟨iff_of_true rfl h, iff_of_false Bool.false_ne_true (h ·.1)⟩
    · exact ⟨iff_of_true rfl h, iff_of_false Bool.false_ne_true (h ·.1)⟩

theorem isFinite_iff (x : Float) :
    x.isFinite ↔ x.toBits.toNat % Layout.signBit < Layout.infinityBits := by
  have hlt : x.toBits.toNat < 2 ^ 64 := x.toBits.toNat_lt
  refine (unpack_kind x.toBits.toBitVec).1.trans ?_
  rw [unpackExponent_toNat, UInt64.toNat_toBitVec]
  unfold Layout.signBit Layout.infinityBits
  omega

theorem isNaN_iff (x : Float) :
    x.isNaN ↔ Layout.infinityBits < x.toBits.toNat % Layout.signBit := by
  have hlt : x.toBits.toNat < 2 ^ 64 := x.toBits.toNat_lt
  refine (unpack_kind x.toBits.toBitVec).2.trans ?_
  rw [unpackExponent_toNat, unpackMantissa_toNat, UInt64.toNat_toBitVec]
  unfold Layout.signBit Layout.infinityBits
  omega

theorem isFinite_of_number (hn : ¬ x.isNaN) (hi : ¬ x.isInf) : x.isFinite := by
  change x.toModel.unpack.isFinite
  change ¬ x.toModel.unpack.isNaN at hn
  change ¬ x.toModel.unpack.isInf at hi
  cases hu : x.toModel.unpack with
  | notANumber => exact absurd (by rw [hu]; rfl) hn
  | infinity s => exact absurd (by rw [hu]; rfl) hi
  | zero | finite => rfl

def isNegative (x : Float) : Bool := Layout.signBit ≤ x.toBits.toNat

def sign? : UnpackedFloat → Option Sign
  | .notANumber => none
  | .infinity s | .zero s | .finite s _ _ _ => some s

theorem sign?_unpack (x : Float) (h : (units? x.toModel.unpack).isSome) :
    sign? x.toModel.unpack = some (if isNegative x then .negative else .positive) := by
  have hsign : (@unpackSign .binary64 x.toBits.toBitVec).toNat = x.toBits.toNat / 2 ^ 63 := by
    have hlt : x.toBits.toNat < 2 ^ 64 := x.toBits.toNat_lt
    simp [unpackSign, BitVec.extractLsb, BitVec.extractLsb', Nat.shiftRight_eq_div_pow]
    omega
  have hs : Sign.ofBitVec (@unpackSign .binary64 x.toBits.toBitVec) =
      if isNegative x then .negative else .positive := by
    have hzero : @unpackSign .binary64 x.toBits.toBitVec = 0#1 ↔ ¬ isNegative x := by
      rw [← BitVec.toNat_inj, hsign, isNegative, decide_eq_true_iff, Layout.signBit]
      change x.toBits.toNat / 2 ^ 63 = 0 ↔ _
      omega
    by_cases hn : isNegative x <;> simp [Sign.ofBitVec, hzero, hn]
  rw [← hs]
  change (units? (unpack .binary64 x.toBits.toBitVec)).isSome at h
  change sign? (unpack .binary64 x.toBits.toBitVec) = _
  rw [unpack] at h ⊢
  split at h
  case isTrue hinf =>
    rw [if_pos hinf]
    split at h
    case isTrue hm => rw [if_pos hm]; rfl
    case isFalse => cases h
  case isFalse hfin =>
    rw [if_neg hfin]
    split
    · split <;> rfl
    · rfl

theorem Sign.apply_inj {s : Sign} {a b : Nat} (h : s.apply (a : Int) = s.apply (b : Int)) :
    a = b := by
  cases s <;> simp only [Sign.apply] at h <;> omega

theorem apply_ne_zero (s : Sign) {a : Nat} (h : 0 < a) : s.apply (a : Int) ≠ 0 := by
  cases s <;> simp only [Sign.apply] <;> omega

theorem Normal.eq_of_magnitude {m n : Nat} {e d : Int} (hm : Normal m e) (hn : Normal n d)
    (h : magnitude m e = magnitude n d) : m = n ∧ e = d := by
  have hc := hm.compare_eq hn
  rw [h, compare_eq_iff_eq.2 rfl] at hc
  cases hed : compare e d with
  | eq =>
    rw [hed] at hc
    exact ⟨compare_eq_iff_eq.1 hc, compare_eq_iff_eq.1 hed⟩
  | lt => rw [hed] at hc; cases hc
  | gt => rw [hed] at hc; cases hc

theorem eq_of_units {u v : UnpackedFloat} {a : Int} (hu : Canonical u) (hv : Canonical v)
    (hua : units? u = some a) (hva : units? v = some a) (hs : sign? u = sign? v) : u = v := by
  have hsize := hua.trans hva.symm
  cases u with
  | notANumber => cases hua
  | infinity s =>
    cases v with
    | notANumber => cases hva
    | infinity t => rw [Option.some.inj hs]
    | zero t =>
      exact absurd (Option.some.inj hsize) (apply_ne_zero s infiniteMagnitude_pos)
    | finite t n d _ =>
      obtain rfl := Option.some.inj hs
      have h : magnitude n d < infiniteMagnitude := Normal.magnitude_lt_infinite hv
      exact absurd (Sign.apply_inj (Option.some.inj hsize)) h.ne'
  | zero s =>
    cases v with
    | notANumber => cases hva
    | infinity t =>
      exact absurd (Option.some.inj hsize).symm (apply_ne_zero t infiniteMagnitude_pos)
    | zero t => rw [Option.some.inj hs]
    | finite t n d _ =>
      exact absurd (Option.some.inj hsize).symm (apply_ne_zero t (Normal.magnitude_pos hv))
  | finite s m e _ =>
    cases v with
    | notANumber => cases hva
    | infinity t =>
      obtain rfl := Option.some.inj hs
      have h : magnitude m e < infiniteMagnitude := Normal.magnitude_lt_infinite hu
      exact absurd (Sign.apply_inj (Option.some.inj hsize)) h.ne
    | zero t =>
      exact absurd (Option.some.inj hsize) (apply_ne_zero s (Normal.magnitude_pos hu))
    | finite t n d _ =>
      obtain rfl := Option.some.inj hs
      obtain ⟨rfl, rfl⟩ := Normal.eq_of_magnitude hu hv (Sign.apply_inj (Option.some.inj hsize))
      rfl

/-- Floats are equal if they compare equal and have the same sign. -/
theorem eq_of_beq (h : x == y) (hs : isNegative x = isNegative y) : x = y := by
  obtain ⟨a, hx, hy⟩ := beq_iff_numbers.1 h
  have hu : x.toModel.unpack = y.toModel.unpack := by
    refine eq_of_units (canonical_unpack _) (canonical_unpack _) hx hy ?_
    rw [sign?_unpack x (Option.isSome_of_eq_some hx),
      sign?_unpack y (Option.isSome_of_eq_some hy), hs]
  have hpack := congrArg (UnpackedFloat.pack .binary64) hu
  refine eq_of_toBits (UInt64.toBitVec_inj.1 ?_)
  exact (pack_unpack_of_valid x.toModel.valid).symm.trans
    (hpack.trans (pack_unpack_of_valid y.toModel.valid))

theorem toNat_packComponents (s : Sign) (e : BitVec 11) (m : BitVec 52) :
    (packComponents .binary64 s e m).toNat =
      s.toBitVec.toNat * 2 ^ 63 + (e.toNat * 2 ^ 52 + m.toNat) := by
  have he := e.isLt
  have hm := m.isLt
  change ((s.toBitVec ++ e) ++ m).toNat = _
  rw [BitVec.toNat_append, ← Nat.shiftLeft_add_eq_or_of_lt hm, BitVec.toNat_append,
    ← Nat.shiftLeft_add_eq_or_of_lt he, Nat.shiftLeft_eq, Nat.shiftLeft_eq]
  omega

/-- Only the sign bit is cleared. -/
theorem pack_abs {u : UnpackedFloat} (h : ¬ u.isNaN) :
    (UnpackedFloat.pack .binary64 u.abs).toNat =
      (UnpackedFloat.pack .binary64 u).toNat % 2 ^ 63 := by
  have hparts (s : Sign) (e : BitVec 11) (m : BitVec 52) :
      (packComponents .binary64 .positive e m).toNat =
        (packComponents .binary64 s e m).toNat % 2 ^ 63 := by
    have he := e.isLt
    have hm := m.isLt
    rw [toNat_packComponents, toNat_packComponents]
    change 0 * 2 ^ 63 + _ = _
    omega
  cases u with
  | notANumber => exact absurd rfl h
  | infinity s => exact hparts s _ _
  | zero s => exact hparts s _ _
  | finite s m e hm =>
    simp only [UnpackedFloat.abs, UnpackedFloat.pack]
    split
    · exact hparts s _ _
    · split
      · exact hparts s _ _
      · exact hparts s _ _

theorem pack_toModel (x : Float) :
    UnpackedFloat.pack .binary64 x.toModel.unpack = x.toBits.toBitVec :=
  pack_unpack_of_valid x.toModel.valid

theorem toBits_abs (h : ¬ x.isNaN) : x.abs.toBits.toNat = x.toBits.toNat % Layout.signBit := by
  change (UnpackedFloat.pack .binary64 x.toModel.unpack.abs).toNat = _
  rw [pack_abs h, pack_toModel]
  rfl

/-- Of the floats with a minus sign only the zero is not less than zero. -/
theorem lt_zero_iff (h : x.isFinite) : x < 0.0 ↔ isNegative x ∧ x ≠ -0.0 := by
  have hlt : x < 0.0 ↔ ∃ a, number? x = some a ∧ a < 0 := by
    have hzero : number? 0.0 = some 0 := rfl
    simp [lt_iff_numbers, hzero]
  have hsign := sign?_unpack x
  rw [hlt, number?]
  change x.toModel.unpack.isFinite at h
  cases hu : x.toModel.unpack with
  | notANumber | infinity => rw [hu] at h; cases h
  | zero s =>
    have hs : s = if isNegative x then .negative else .positive := by
      rw [hu] at hsign
      exact Option.some.inj (hsign rfl)
    have hx : isNegative x → x = -0.0 := by
      intro hn
      rw [hn] at hs
      refine eq_of_toBits (UInt64.toBitVec_inj.1 ?_)
      rw [← pack_toModel, hu, hs]
      rfl
    simp only [units?, Option.some.injEq, exists_eq_left', lt_self_iff_false, false_iff, not_and,
      not_not]
    exact hx
  | finite s m e hm =>
    have hs : s = if isNegative x then .negative else .positive := by
      rw [hu] at hsign
      exact Option.some.inj (hsign rfl)
    have hx : x ≠ -0.0 := by
      rintro rfl
      cases hu
    have hpos : 0 < magnitude m e := Nat.mul_pos hm (Nat.two_pow_pos _)
    cases hn : isNegative x with
    | false =>
      rw [hn] at hs
      simp [units?, hs, Sign.apply, hx]
    | true =>
      rw [hn] at hs
      simp [units?, hs, Sign.apply, hx, hpos]

end Stencil
