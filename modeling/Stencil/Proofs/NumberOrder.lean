import Stencil.Proofs.Equality
import Stencil.Proofs.Rounding

/-! The order of numbers of both kinds. Two integers compare exactly. Where a float takes part, an
integer counts as the nearest float, so that two large integers may both equal it. -/
namespace Stencil

namespace Value

/-- The number that a value counts as beside a float, in units of the least positive float. -/
def size? (v : Value) : Option Int := v.toFloat?.bind number?

theorem size?_int (n : Int64) : size? (int n) = some (roundedInt n.toInt * unitsInOne) := by
  have hlo := n.le_toInt
  have hhi := n.toInt_lt
  exact number?_ofInt (by omega)

/-- An integer that is not greater does not become so by rounding. -/
theorem size?_mono {m n : Int64} {i j : Int} (h : m.toInt ≤ n.toInt) (hm : size? (int m) = some i)
    (hn : size? (int n) = some j) : i ≤ j := by
  rw [size?_int, Option.some.injEq] at hm hn
  rw [← hm, ← hn]
  exact Int.mul_le_mul_of_nonneg_right (roundedInt_mono h) (Int.natCast_nonneg _)

/-- Beside a float an integer counts as the nearest float. -/
theorem order?_toFloat {a b : Value} {x y : Float} (ha : a.toFloat? = some x)
    (hb : b.toFloat? = some y) (hfloat : ∀ m n, a = int m → b ≠ int n) :
    order? a b = some (compareFloats x y) := by
  cases a <;> cases b <;>
    first
    | exact absurd rfl (hfloat _ _ rfl)
    | simp_all [order?, toFloat?]

theorem toFloat?_of_isNumber {a : Value} (h : a.isNumber) : ∃ x, a.toFloat? = some x := by
  cases a <;> first | exact ⟨_, rfl⟩ | cases h

/-- A NaN has no place in the order. -/
theorem order?_of_no_size {a b : Value} (ha : a.isNumber) (hb : b.isNumber)
    (h : size? a = none ∨ size? b = none) : order? a b = some none := by
  obtain ⟨x, hx⟩ := toFloat?_of_isNumber ha
  obtain ⟨y, hy⟩ := toFloat?_of_isNumber hb
  have hfloat : ∀ m n, a = int m → b ≠ int n := by
    rintro m n rfl rfl
    simp [size?_int] at h
  rw [size?, size?, hx, hy] at h
  rw [order?_toFloat hx hy hfloat, compareFloats_eq]
  rcases h with h | h
  · rw [show number? x = none from h]
    rfl
  · rw [show number? y = none from h]
    cases number? x <;> rfl

/-- Two numbers compare as their sizes, except that two integers of one size may differ. -/
theorem order?_of_size {a b : Value} {i j : Int} (ha : size? a = some i) (hb : size? b = some j) :
    ∃ o, order? a b = some (some o) ∧
      (o ≠ .gt ↔ i ≤ j ∧ ∀ m n, a = int m → b = int n → m.toInt ≤ n.toInt) ∧
      (o = .eq ↔ i = j ∧ ∀ m n, a = int m → b = int n → m = n) := by
  by_cases hint : ∃ m n, a = int m ∧ b = int n
  · obtain ⟨m, n, rfl, rfl⟩ := hint
    have hle : compare m n ≠ .gt ↔ m.toInt ≤ n.toInt := by
      rw [ne_eq, Std.compare_eq_gt, Int64.lt_iff_toInt_lt, Int.not_lt]
    refine ⟨compare m n, rfl, ?_, ?_⟩
    · rw [hle]
      refine ⟨fun h => ⟨size?_mono h ha hb, ?_⟩, fun h => h.2 m n rfl rfl⟩
      rintro _ _ ⟨⟩ ⟨⟩
      exact h
    · rw [Std.compare_eq_iff_eq]
      refine ⟨?_, fun h => h.2 m n rfl rfl⟩
      rintro rfl
      refine ⟨Option.some.inj (ha.symm.trans hb), ?_⟩
      rintro _ _ ⟨⟩ ⟨⟩
      rfl
  · obtain ⟨x, hx, hxi⟩ := Option.bind_eq_some_iff.1 ha
    obtain ⟨y, hy, hyj⟩ := Option.bind_eq_some_iff.1 hb
    have hfloat : ∀ m n, a = int m → b ≠ int n := fun m n hm hn => hint ⟨m, n, hm, hn⟩
    refine ⟨compare i j, ?_, ?_, ?_⟩
    · rw [order?_toFloat hx hy hfloat, compareFloats_eq, hxi, hyj]
      rfl
    · rw [compare_le_iff_le]
      exact ⟨fun h => ⟨h, fun m n hm hn => absurd hn (hfloat m n hm)⟩, And.left⟩
    · rw [compare_eq_iff_eq]
      exact ⟨fun h => ⟨h, fun m n hm hn => absurd hn (hfloat m n hm)⟩, And.left⟩

end Value

namespace Render

open Value

variable {a b c : Value}

theorem order?_of_numbers (ha : a.isNumber) (hb : b.isNumber) : ∃ o, order? a b = some o := by
  cases hi : size? a with
  | none => exact ⟨_, order?_of_no_size ha hb (.inl hi)⟩
  | some i =>
    cases hj : size? b with
    | none => exact ⟨_, order?_of_no_size ha hb (.inr hj)⟩
    | some j =>
      obtain ⟨o, ho, -⟩ := order?_of_size hi hj
      exact ⟨_, ho⟩

/-- `a ≤ b` holds of the sizes, and of the integers, if both are. -/
theorem compare_le_iff (ha : a.isNumber) (hb : b.isNumber) : compare .le a b = .ok true ↔
    ∃ i j, size? a = some i ∧ size? b = some j ∧ i ≤ j ∧
      ∀ m n, a = int m → b = int n → m.toInt ≤ n.toInt := by
  cases hi : size? a with
  | none => simp [compare_of_order? _ (order?_of_no_size ha hb (.inl hi)), answer]
  | some i =>
    cases hj : size? b with
    | none => simp [compare_of_order? _ (order?_of_no_size ha hb (.inr hj)), answer]
    | some j =>
      obtain ⟨o, ho, hle, -⟩ := order?_of_size hi hj
      simp only [compare_of_order? _ ho, answer, Comparison.holds, Except.ok.injEq, bne_iff_ne, hle,
        Option.some.injEq, exists_eq_left', exists_and_left]

theorem compare_eq_iff (ha : a.isNumber) (hb : b.isNumber) : compare .eq a b = .ok true ↔
    ∃ i, size? a = some i ∧ size? b = some i ∧ ∀ m n, a = int m → b = int n → m = n := by
  cases hi : size? a with
  | none => simp [compare_of_order? _ (order?_of_no_size ha hb (.inl hi)), answer]
  | some i =>
    cases hj : size? b with
    | none => simp [compare_of_order? _ (order?_of_no_size ha hb (.inr hj)), answer]
    | some j =>
      obtain ⟨o, ho, -, heq⟩ := order?_of_size hi hj
      simp only [compare_of_order? _ ho, answer, Comparison.holds, Except.ok.injEq, beq_iff_eq, heq,
        Option.some.injEq, exists_eq_left']
      exact and_congr_left' eq_comm

/-- Two integers, the greater one first, and between them a float that equals both. -/
def blurred : Value → Value → Value → Bool
  | .int m, .float x, .int n => n < m && Float.ofInt m.toInt == x && Float.ofInt n.toInt == x
  | _, _, _ => false

theorem size?_of_equal_float {n : Int64} {x : Float} :
    Float.ofInt n.toInt == x ↔ ∃ i, size? (int n) = some i ∧ size? (float x) = some i :=
  beq_iff_numbers

theorem blurred_iff : blurred a b c ↔ ∃ m x n i, a = int m ∧ b = float x ∧ c = int n ∧
    n.toInt < m.toInt ∧ size? a = some i ∧ size? b = some i ∧ size? c = some i := by
  constructor
  · intro h
    unfold blurred at h
    split at h
    case h_1 m x n =>
      simp only [Bool.and_eq_true, decide_eq_true_eq, Int64.lt_iff_toInt_lt] at h
      obtain ⟨⟨hlt, hm⟩, hn⟩ := h
      obtain ⟨i, hmi, hxi⟩ := size?_of_equal_float.1 hm
      obtain ⟨j, hnj, hxj⟩ := size?_of_equal_float.1 hn
      obtain rfl : j = i := Option.some.inj (hxj.symm.trans hxi)
      exact ⟨m, x, n, j, rfl, rfl, rfl, hlt, hmi, hxi, hnj⟩
    case h_2 => cases h
  · rintro ⟨m, x, n, i, rfl, rfl, rfl, hlt, hm, hx, hn⟩
    simp only [blurred, Bool.and_eq_true, decide_eq_true_eq, Int64.lt_iff_toInt_lt]
    exact ⟨⟨hlt, size?_of_equal_float.2 ⟨i, hm, hx⟩⟩, size?_of_equal_float.2 ⟨i, hn, hx⟩⟩

/-- Smaller integers are told apart, since each is its own float. -/
theorem blurred_large {m n : Int64} (h : blurred (int m) b (int n)) :
    2 ^ 53 ≤ m.toInt.natAbs ∧ 2 ^ 53 ≤ n.toInt.natAbs := by
  obtain ⟨_, x, _, i, ⟨⟩, rfl, ⟨⟩, hlt, hm, -, hn⟩ := blurred_iff.1 h
  have hround : roundedInt m.toInt = roundedInt n.toInt := by
    rw [size?_int] at hm hn
    exact Int.eq_of_mul_eq_mul_right (Int.natCast_ne_zero.2 unitsInOne_pos.ne')
      (Option.some.inj (hm.trans hn.symm))
  by_contra hsmall
  exact (roundedInt_lt hlt (by omega)).ne' hround

theorem le_trans_iff (ha : a.isNumber) (hb : b.isNumber) (hc : c.isNumber)
    (hab : compare .le a b = .ok true) (hbc : compare .le b c = .ok true) :
    compare .le a c = .ok true ↔ ¬ blurred a b c := by
  obtain ⟨i, j, hi, hj, hij, hle⟩ := (compare_le_iff ha hb).1 hab
  obtain ⟨j', k, hj', hk, hjk, hle'⟩ := (compare_le_iff hb hc).1 hbc
  obtain rfl : j' = j := Option.some.inj (hj'.symm.trans hj)
  rw [compare_le_iff ha hc, blurred_iff]
  constructor
  · rintro ⟨-, -, -, -, -, h⟩ ⟨m, x, n, -, rfl, -, rfl, hlt, -⟩
    exact (h m n rfl rfl).not_gt hlt
  · intro h
    refine ⟨i, k, hi, hk, hij.trans hjk, ?_⟩
    rintro m n rfl rfl
    cases b with
    | int l => exact (hle m l rfl rfl).trans (hle' l n rfl rfl)
    | float x =>
      -- the sizes stand in the wrong order for the integers, so that they are all equal
      by_contra hlt
      have hki : k ≤ i := size?_mono (Int.not_le.1 hlt).le hk hi
      obtain rfl : i = j' := by omega
      obtain rfl : k = i := by omega
      exact h ⟨m, x, n, k, rfl, rfl, rfl, Int.not_le.1 hlt, hi, hj, hk⟩
    | _ => cases hb

theorem eq_trans_iff (ha : a.isNumber) (hb : b.isNumber) (hc : c.isNumber)
    (hab : compare .eq a b = .ok true) (hbc : compare .eq b c = .ok true) :
    compare .eq a c = .ok true ↔ ¬ (blurred a b c || blurred c b a) := by
  obtain ⟨i, hi, hj, heq⟩ := (compare_eq_iff ha hb).1 hab
  obtain ⟨j, hj', hk, heq'⟩ := (compare_eq_iff hb hc).1 hbc
  obtain rfl : j = i := Option.some.inj (hj'.symm.trans hj)
  rw [compare_eq_iff ha hc, Bool.or_eq_true, blurred_iff, blurred_iff]
  constructor
  · rintro ⟨-, -, -, h⟩ (⟨m, x, n, -, rfl, -, rfl, hlt, -⟩ | ⟨m, x, n, -, rfl, -, rfl, hlt, -⟩)
    · exact hlt.ne (congrArg Int64.toInt (h m n rfl rfl).symm)
    · exact hlt.ne (congrArg Int64.toInt (h n m rfl rfl))
  · intro h
    refine ⟨j, hi, hk, ?_⟩
    rintro m n rfl rfl
    cases b with
    | int l => exact (heq m l rfl rfl).trans (heq' l n rfl rfl)
    | float x =>
      by_contra hne
      rcases lt_or_gt_of_ne (mt Int64.toInt_inj.1 hne) with hlt | hlt
      · exact h (.inr ⟨n, x, m, j, rfl, rfl, rfl, hlt, hk, hj, hi⟩)
      · exact h (.inl ⟨m, x, n, j, rfl, rfl, rfl, hlt, hi, hj, hk⟩)
    | _ => cases hb

theorem compare_of_iff_not {op : Comparison} {p : Bool} (ha : a.isNumber) (hb : b.isNumber)
    (h : compare op a b = .ok true ↔ ¬ p) : compare op a b = .ok (!p) := by
  obtain ⟨o, ho⟩ := order?_of_numbers ha hb
  rw [compare_of_order? op ho, Except.ok.injEq] at h ⊢
  cases p <;> simpa using h

/-- Transitivity holds but for two large integers with a float between them. -/
theorem numbers_ordered (ha : a.isNumber) (hb : b.isNumber) (hc : c.isNumber) :
    (compare .le a b = .ok true → compare .le b c = .ok true →
      compare .le a c = .ok (!blurred a b c)) ∧
    (compare .eq a b = .ok true → compare .eq b c = .ok true →
      compare .eq a c = .ok (!(blurred a b c || blurred c b a))) ∧
    ∀ m n, blurred (int m) b (int n) → 2 ^ 53 ≤ m.toInt.natAbs ∧ 2 ^ 53 ≤ n.toInt.natAbs :=
  ⟨fun hab hbc => compare_of_iff_not ha hc (le_trans_iff ha hb hc hab hbc),
    fun hab hbc => compare_of_iff_not ha hc (eq_trans_iff ha hb hc hab hbc),
    fun _ _ => blurred_large⟩

/-- The float 2⁵³ equals the integers 2⁵³ and 2⁵³ + 1, and neither `≤` nor `=` passes through it. -/
theorem numbers_not_ordered :
    let a := int 9007199254740993
    let b := float (Float.ofBits 0x4340000000000000)
    let c := int 9007199254740992
    a.isNumber ∧ (b.isNumber ∧ ¬ (Float.ofBits 0x4340000000000000).isNaN) ∧ c.isNumber ∧
      (compare .le a b = .ok true ∧ compare .le b c = .ok true ∧ compare .le a c ≠ .ok true) ∧
      (compare .eq a b = .ok true ∧ compare .eq b c = .ok true ∧ compare .eq a c ≠ .ok true) := by
  decide

theorem numbers_ordered_around_floats :
    compare .le (int (-3)) (int 7) = .ok true ∧ compare .eq (int 2) (int 2) = .ok true ∧
      compare .le (int 9007199254740993) (int 9007199254740992) = .ok false := by
  have hsmall := numbers_ordered (a := int (-3)) (b := float 0.5) (c := int 7) rfl rfl rfl
  have hequal := numbers_ordered (a := int 2) (b := float 2.0) (c := int 2) rfl rfl rfl
  have hblurred := numbers_ordered (a := int 9007199254740993)
    (b := float (Float.ofBits 0x4340000000000000)) (c := int 9007199254740992) rfl rfl rfl
  refine ⟨(hsmall.1 ?_ ?_).trans ?_, (hequal.2.1 ?_ ?_).trans ?_, (hblurred.1 ?_ ?_).trans ?_⟩
  all_goals rfl

end Render
end Stencil
