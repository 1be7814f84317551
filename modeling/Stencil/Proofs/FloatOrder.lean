import Mathlib
import Stencil.Value

/-! The order of floats. A float stands for so many of the least positive floats, and floats compare
as these numbers do. -/
namespace Stencil

open Float.Model (UnpackedFloat Format)
open Float.Model.UnpackedFloat

def magnitude (m : Nat) (e : Int) : Nat := m * 2 ^ (e + 1074).toNat

@[irreducible] def infiniteMagnitude : Nat := magnitude (2 ^ 53) 971

/-- The number that a float stands for, in units of the least positive one. A NaN stands for none.
-/
def units? : UnpackedFloat → Option Int
  | .notANumber => none
  | .infinity s => some (s.apply infiniteMagnitude)
  | .zero _ => some 0
  | .finite s m e _ => some (s.apply (magnitude m e))

def Normal (m : Nat) (e : Int) : Prop :=
  0 < m ∧ m < 2 ^ 53 ∧ -1074 ≤ e ∧ e ≤ 971 ∧ (e = -1074 ∨ 2 ^ 52 ≤ m)

def Canonical : UnpackedFloat → Prop
  | .finite _ m e _ => Normal m e
  | _ => True

variable {m n : Nat} {e d : Int}

theorem Normal.magnitude_pos (h : Normal m e) : 0 < magnitude m e :=
  Nat.mul_pos h.1 (Nat.two_pow_pos _)

theorem Normal.magnitude_lt_infinite (h : Normal m e) : magnitude m e < infiniteMagnitude := by
  obtain ⟨-, hm, -, he, -⟩ := h
  have hk : (e + 1074).toNat ≤ (971 + 1074 : Int).toNat := by omega
  unfold infiniteMagnitude
  calc magnitude m e
      < magnitude (2 ^ 53) e := Nat.mul_lt_mul_of_pos_right hm (Nat.two_pow_pos _)
    _ ≤ magnitude (2 ^ 53) 971 := Nat.mul_le_mul_left _ (Nat.pow_le_pow_right (by decide) hk)

theorem infiniteMagnitude_pos : 0 < infiniteMagnitude :=
  Nat.zero_lt_of_lt (Normal.magnitude_lt_infinite (m := 1) (e := -1074) (by simp [Normal]))

/-- A greater exponent makes a greater number. -/
theorem Normal.magnitude_lt (hm : Normal m e) (hn : Normal n d) (h : e < d) :
    magnitude m e < magnitude n d := by
  obtain ⟨-, hm, he, -, -⟩ := hm
  obtain ⟨-, -, -, -, hn⟩ := hn
  have hn : 2 ^ 52 ≤ n := by omega
  have hk : (e + 1074).toNat + 1 ≤ (d + 1074).toNat := by omega
  calc m * 2 ^ (e + 1074).toNat
      < 2 ^ 53 * 2 ^ (e + 1074).toNat := Nat.mul_lt_mul_of_pos_right hm (Nat.two_pow_pos _)
    _ = 2 ^ 52 * 2 ^ ((e + 1074).toNat + 1) := by rw [← Nat.pow_add, ← Nat.pow_add]; congr 1; omega
    _ ≤ n * 2 ^ (d + 1074).toNat := Nat.mul_le_mul hn (Nat.pow_le_pow_right (by decide) hk)

/-- Numbers compare by their exponents first, and then by their mantissas. -/
theorem Normal.compare_eq (hm : Normal m e) (hn : Normal n d) :
    (compare e d).then (compare m n) = compare (magnitude m e) (magnitude n d) := by
  rcases lt_trichotomy e d with h | rfl | h
  · rw [compare_lt_iff_lt.2 h, compare_lt_iff_lt.2 (hm.magnitude_lt hn h)]
    rfl
  · rw [compare_eq_iff_eq.2 rfl, magnitude, magnitude]
    have hp := Nat.two_pow_pos (e + 1074).toNat
    rcases lt_trichotomy m n with h | rfl | h
    · rw [compare_lt_iff_lt.2 h, compare_lt_iff_lt.2 (Nat.mul_lt_mul_of_pos_right h hp)]
      rfl
    · rw [compare_eq_iff_eq.2 rfl, compare_eq_iff_eq.2 rfl]
      rfl
    · rw [compare_gt_iff_gt.2 h, compare_gt_iff_gt.2 (Nat.mul_lt_mul_of_pos_right h hp)]
      rfl
  · rw [compare_gt_iff_gt.2 h, compare_gt_iff_gt.2 (hn.magnitude_lt hm h)]
    rfl

theorem toNat_one_append (v : BitVec 52) : (1#1 ++ v).toNat = 2 ^ 52 + v.toNat := by
  rw [BitVec.toNat_append, ← Nat.shiftLeft_add_eq_or_of_lt v.isLt]
  rfl

theorem canonical_unpack (b : BitVec 64) : Canonical (unpack .binary64 b) := by
  have hm : (@unpackMantissa .binary64 b).toNat < 2 ^ 52 := BitVec.isLt _
  have he : (@unpackExponent .binary64 b).toNat < 2 ^ 11 := BitVec.isLt _
  have hbias : (Format.binary64.exponentBias : Int) + (52 : Nat) = 1075 := rfl
  rw [unpack]
  split
  · split <;> trivial
  case isFalse hfinite =>
    split
    case isTrue hzero =>
      split
      · trivial
      case isFalse hne =>
        have hpos : (@unpackMantissa .binary64 b).toNat ≠ 0 :=
          fun h => hne (BitVec.eq_of_toNat_eq h)
        have h0 : (@unpackExponent .binary64 b).toNat = 0 := congrArg BitVec.toNat hzero
        simp only [Canonical, Normal, hbias, h0]
        omega
    case isFalse hnonzero =>
      have h0 : (@unpackExponent .binary64 b).toNat ≠ 0 :=
        fun h => hnonzero (BitVec.eq_of_toNat_eq h)
      have h1 : (@unpackExponent .binary64 b).toNat ≠ 2047 :=
        fun h => hfinite (BitVec.eq_of_toNat_eq h)
      simp only [Canonical, Normal, hbias, toNat_one_append]
      omega

theorem compare_natCast (a b : Nat) : compare (a : Int) b = compare a b := by
  rcases lt_trichotomy a b with h | rfl | h
  · rw [compare_lt_iff_lt.2 h, compare_lt_iff_lt.2 (Int.ofNat_lt.2 h)]
  · rw [compare_eq_iff_eq.2 rfl, compare_eq_iff_eq.2 rfl]
  · rw [compare_gt_iff_gt.2 h, compare_gt_iff_gt.2 (Int.ofNat_lt.2 h)]

theorem compare_neg_neg (a b : Int) : compare (-a) (-b) = compare b a := by
  rcases lt_trichotomy a b with h | rfl | h
  · rw [compare_gt_iff_gt.2 h, compare_gt_iff_gt.2 (Int.neg_lt_neg h)]
  · rw [compare_eq_iff_eq.2 rfl, compare_eq_iff_eq.2 rfl]
  · rw [compare_lt_iff_lt.2 h, compare_lt_iff_lt.2 (Int.neg_lt_neg h)]

/-- How positive numbers compare once each has its sign. -/
def signed : Sign → Sign → Ordering → Ordering
  | .negative, .negative, o => o.swap
  | .negative, .positive, _ => .lt
  | .positive, .negative, _ => .gt
  | .positive, .positive, o => o

theorem compare_apply (s t : Sign) {a b : Nat} (ha : 0 < a) (hb : 0 < b) :
    compare (s.apply a) (t.apply b) = signed s t (compare a b) := by
  cases s <;> cases t <;> simp only [Sign.apply, signed]
  · rw [compare_neg_neg, compare_natCast, ← Nat.compare_swap]
  · exact compare_lt_iff_lt.2 (by omega)
  · exact compare_gt_iff_gt.2 (by omega)
  · exact compare_natCast a b

theorem compare_apply_zero (s : Sign) {a : Nat} (ha : 0 < a) :
    compare (s.apply a) 0 = match s with | .negative => .lt | .positive => .gt := by
  cases s
  · exact compare_lt_iff_lt.2 (by simp only [Sign.apply]; omega)
  · exact compare_gt_iff_gt.2 (by simp only [Sign.apply]; omega)

theorem compare_zero_apply (s : Sign) {a : Nat} (ha : 0 < a) :
    compare 0 (s.apply a) = match s with | .negative => .gt | .positive => .lt := by
  cases s
  · exact compare_gt_iff_gt.2 (by simp only [Sign.apply]; omega)
  · exact compare_lt_iff_lt.2 (by simp only [Sign.apply]; omega)

/-- Floats compare as the numbers they stand for. -/
theorem compare_units {u v : UnpackedFloat} (hu : Canonical u) (hv : Canonical v) :
    u.compare v = (units? u).bind fun a => (units? v).map (compare a) := by
  have hinf := infiniteMagnitude_pos
  cases u with
  | notANumber => rfl
  | infinity s =>
    cases v with
    | notANumber => cases s <;> rfl
    | infinity t =>
      rw [units?, units?, Option.bind_some, Option.map_some, compare_apply s t hinf hinf,
        compare_eq_iff_eq.2 rfl]
      cases s <;> cases t <;> rfl
    | zero t =>
      rw [units?, units?, Option.bind_some, Option.map_some, compare_apply_zero s hinf]
      cases s <;> rfl
    | finite t n d hn =>
      have h : magnitude n d < infiniteMagnitude := Normal.magnitude_lt_infinite hv
      rw [units?, units?, Option.bind_some, Option.map_some,
        compare_apply s t hinf (Normal.magnitude_pos hv), compare_gt_iff_gt.2 h]
      cases s <;> cases t <;> rfl
  | zero s =>
    cases v with
    | notANumber => rfl
    | infinity t =>
      rw [units?, units?, Option.bind_some, Option.map_some, compare_zero_apply t hinf]
      cases t <;> rfl
    | zero t => rfl
    | finite t n d hn =>
      rw [units?, units?, Option.bind_some, Option.map_some,
        compare_zero_apply t (Normal.magnitude_pos hv)]
      cases t <;> rfl
  | finite s m e hm =>
    have hpos : 0 < magnitude m e := Normal.magnitude_pos hu
    cases v with
    | notANumber => cases s <;> rfl
    | infinity t =>
      have h : magnitude m e < infiniteMagnitude := Normal.magnitude_lt_infinite hu
      rw [units?, units?, Option.bind_some, Option.map_some, compare_apply s t hpos hinf,
        compare_lt_iff_lt.2 h]
      cases s <;> cases t <;> rfl
    | zero t =>
      rw [units?, units?, Option.bind_some, Option.map_some, compare_apply_zero s hpos]
      cases s <;> rfl
    | finite t n d hn =>
      rw [units?, units?, Option.bind_some, Option.map_some,
        compare_apply s t hpos (Normal.magnitude_pos hv), ← Normal.compare_eq hu hv]
      cases s <;> cases t <;> rfl

def number? (x : Float) : Option Int := units? x.toModel.unpack

theorem number?_eq_none {x : Float} : number? x = none ↔ x.isNaN := by
  change units? x.toModel.unpack = none ↔ x.toModel.unpack.isNaN
  cases x.toModel.unpack <;> simp [units?, UnpackedFloat.isNaN]

theorem compare_numbers (x y : Float) : x.toModel.unpack.compare y.toModel.unpack =
    (number? x).bind fun a => (number? y).map (compare a) :=
  compare_units (canonical_unpack _) (canonical_unpack _)

theorem lt_iff_numbers {x y : Float} :
    x < y ↔ ∃ a b, number? x = some a ∧ number? y = some b ∧ a < b := by
  have h : x < y ↔ x.toModel.unpack.compare y.toModel.unpack = some .lt := by
    change (decide (UnpackedFloat.lt _ _ = true)) = true ↔ _
    simp [UnpackedFloat.lt]
  rw [h, compare_numbers]
  cases number? x <;> cases number? y <;> simp [compare_lt_iff_lt]

theorem beq_iff_numbers {x y : Float} : x == y ↔ ∃ a, number? x = some a ∧ number? y = some a := by
  have h : x == y ↔ x.toModel.unpack.compare y.toModel.unpack = some .eq := by
    change (UnpackedFloat.compare _ _ == some .eq) = true ↔ _
    exact beq_iff_eq
  rw [h, compare_numbers]
  cases number? x <;> cases number? y <;> simp [@eq_comm Int]

/-- A float that is a NaN has no place in the order, and any other the place of its number. -/
theorem compareFloats_eq (x y : Float) :
    compareFloats x y = (number? x).bind fun a => (number? y).map (compare a) := by
  rw [compareFloats]
  cases hx : number? x with
  | none => simp [lt_iff_numbers, beq_iff_numbers, hx]
  | some a =>
    cases hy : number? y with
    | none => simp [lt_iff_numbers, beq_iff_numbers, hy]
    | some b =>
      have hlt : x < y ↔ a < b := by simp [lt_iff_numbers, hx, hy]
      have hgt : y < x ↔ b < a := by simp [lt_iff_numbers, hx, hy]
      have heq : x == y ↔ b = a := by simp [beq_iff_numbers, hx, hy]
      simp only [hlt, hgt, heq, Option.bind_some, Option.map_some]
      rcases lt_trichotomy a b with h | rfl | h
      · rw [if_pos h, compare_lt_iff_lt.2 h]
      · simp
      · rw [if_neg h.not_gt, if_neg h.ne, if_pos h, compare_gt_iff_gt.2 h]

end Stencil
