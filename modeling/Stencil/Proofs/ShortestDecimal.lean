import Mathlib.Algebra.Order.Field.Power
import Mathlib.Algebra.Order.Field.Rat
import Mathlib.Data.Nat.Cast.Order.Ring
import Mathlib.Tactic.Linarith
import Mathlib.Tactic.NormNum
import Mathlib.Tactic.Positivity
import Mathlib.Tactic.Ring
import Stencil.Decimal

/-! The shortest decimal of a float. The numbers that round to a float are an interval, and where
two of these meet, the common end belongs to one of them alone. The search finds a decimal of the
interval, so that different floats have different shortest decimals. -/
namespace Stencil

def Decimal.value (d : Decimal) : ℚ := d.coefficient * 10 ^ d.exponent

namespace Binary

variable {tie : Tie} {b : Binary} {k : Int} {d : Decimal}

def lower (b : Binary) : ℚ := (4 * b.mantissa - if b.narrow then 1 else 2) * 2 ^ (b.exponent - 2)

def upper (b : Binary) : ℚ := (4 * b.mantissa + 2) * 2 ^ (b.exponent - 2)

/-- Whether a number rounds to `b`. The ends do if the mantissa is even. -/
def Rounds (b : Binary) (q : ℚ) : Prop :=
  if b.mantissa % 2 = 0 then b.lower ≤ q ∧ q ≤ b.upper else b.lower < q ∧ q < b.upper

theorem Rounds.bounds {q : ℚ} (h : b.Rounds q) : b.lower ≤ q ∧ q ≤ b.upper := by
  unfold Rounds at h
  split at h
  · exact h
  · exact ⟨h.1.le, h.2.le⟩

theorem rounds_of_lt {q : ℚ} (hl : b.lower < q) (hu : q < b.upper) : b.Rounds q := by
  unfold Rounds
  split
  · exact ⟨hl.le, hu.le⟩
  · exact ⟨hl, hu⟩

/-! Grids. What is compared there is multiplied out to natural numbers. -/

def step (b : Binary) (k : Int) : Nat := Nat.pow 10 k.toNat * Nat.pow 2 (2 - b.exponent).toNat

def unit (b : Binary) (k : Int) : Nat := Nat.pow 2 (b.exponent - 2).toNat * Nat.pow 10 (-k).toNat

def inside (b : Binary) (k : Int) (n : Nat) : Bool :=
  let value := 4 * b.mantissa * b.unit k
  let low := value - (if b.narrow then 1 else 2) * b.unit k
  let high := value + 2 * b.unit k
  if b.mantissa % 2 = 0 then low ≤ n * b.step k && n * b.step k ≤ high
  else low < n * b.step k && n * b.step k < high

def factor (b : Binary) (k : Int) : ℚ := 10 ^ (-k).toNat * 2 ^ (2 - b.exponent).toNat

theorem factor_pos (b : Binary) (k : Int) : 0 < b.factor k := by
  unfold factor
  positivity

theorem zpow_mul_toNat {a : ℚ} (ha : a ≠ 0) (k : Int) : a ^ k * a ^ (-k).toNat = a ^ k.toNat := by
  rw [← zpow_natCast, ← zpow_natCast, ← zpow_add₀ ha]
  congr 1
  omega

theorem step_cast (b : Binary) (k : Int) : (b.step k : ℚ) = 10 ^ k * b.factor k := by
  have h := zpow_mul_toNat (a := 10) (by norm_num) k
  unfold step factor
  push_cast [Nat.pow_eq]
  rw [← h, mul_assoc]

theorem unit_cast (b : Binary) (k : Int) :
    (b.unit k : ℚ) = 2 ^ (b.exponent - 2) * b.factor k := by
  have h := zpow_mul_toNat (a := 2) (by norm_num) (b.exponent - 2)
  rw [neg_sub] at h
  unfold unit factor
  push_cast [Nat.pow_eq]
  rw [← h]
  ring

theorem inside_iff (hm : 0 < b.mantissa) (k : Int) (n : Nat) :
    b.inside k n ↔ b.Rounds (n * 10 ^ k) := by
  have hf := b.factor_pos k
  have hstep := b.step_cast k
  have hunit := b.unit_cast k
  have hle : (if b.narrow then 1 else 2) * b.unit k ≤ 4 * b.mantissa * b.unit k := by
    apply Nat.mul_le_mul_right
    split <;> omega
  have hn : ((n * b.step k : Nat) : ℚ) = n * 10 ^ k * b.factor k := by
    rw [Nat.cast_mul, hstep, mul_assoc]
  have hl : ((4 * b.mantissa * b.unit k - (if b.narrow then 1 else 2) * b.unit k : Nat) : ℚ) =
      b.lower * b.factor k := by
    rw [Nat.cast_sub hle, lower]
    push_cast
    rw [hunit]
    ring
  have hu : ((4 * b.mantissa * b.unit k + 2 * b.unit k : Nat) : ℚ) = b.upper * b.factor k := by
    rw [upper]
    push_cast
    rw [hunit]
    ring
  by_cases he : b.mantissa % 2 = 0
  · simp only [inside, Rounds, if_pos he, Bool.and_eq_true, decide_eq_true_eq]
    rw [← Nat.cast_le (α := ℚ), ← Nat.cast_le (α := ℚ), hn, hl, hu, mul_le_mul_iff_left₀ hf,
      mul_le_mul_iff_left₀ hf]
  · simp only [inside, Rounds, if_neg he, Bool.and_eq_true, decide_eq_true_eq]
    rw [← Nat.cast_lt (α := ℚ), ← Nat.cast_lt (α := ℚ), hn, hl, hu, mul_lt_mul_iff_left₀ hf,
      mul_lt_mul_iff_left₀ hf]

def below (b : Binary) (k : Int) : Nat := 4 * b.mantissa * b.unit k / b.step k

theorem onGrid_inside (h : onGrid tie b k = some d) : ∃ n, d = ⟨n, k⟩ ∧ b.inside k n := by
  unfold onGrid at h
  dsimp only at h
  split at h
  · cases h
  · rename_i hin _
    exact ⟨_, (Option.some.inj h).symm, hin⟩
  · rename_i _ hin
    exact ⟨_, (Option.some.inj h).symm, hin⟩
  · rename_i hin hnext
    split at h
    · exact ⟨_, (Option.some.inj h).symm, hin⟩
    · split at h
      · exact ⟨_, (Option.some.inj h).symm, hnext⟩
      · cases tie with
        | up => exact ⟨_, (Option.some.inj h).symm, hnext⟩
        | even =>
          refine ⟨_, (Option.some.inj h).symm, ?_⟩
          change b.inside k (b.below k + b.below k % 2)
          rcases Nat.mod_two_eq_zero_or_one (b.below k) with hz | ho
          · rwa [hz]
          · rwa [ho]

theorem onGrid_some (h : b.inside k (b.below k + 1)) : ∃ d, onGrid tie b k = some d := by
  cases hd : onGrid tie b k with
  | some d => exact ⟨d, rfl⟩
  | none =>
    unfold onGrid at hd
    dsimp only at hd
    split at hd
    · rename_i hn
      cases hn.symm.trans h
    · cases hd
    · cases hd
    · split at hd
      · cases hd
      · split at hd
        · cases hd
        · cases tie <;> cases hd

theorem onGrid_rounds (hm : 0 < b.mantissa) (h : onGrid tie b k = some d) : b.Rounds d.value := by
  obtain ⟨n, rfl, hn⟩ := onGrid_inside h
  exact (inside_iff hm k n).1 hn

theorem inside_next (hm : 0 < b.mantissa) (h : (10 : ℚ) ^ k < 2 ^ (b.exponent - 1)) :
    b.inside k (b.below k + 1) := by
  have hf := b.factor_pos k
  have hpos : 0 < b.step k := Nat.mul_pos (Nat.pow_pos (by decide)) (Nat.pow_pos (by decide))
  have hunit := b.unit_cast k
  have hle : (b.below k : ℚ) * 10 ^ k ≤ 4 * b.mantissa * 2 ^ (b.exponent - 2) := by
    have hdiv : b.below k * b.step k ≤ 4 * b.mantissa * b.unit k := Nat.div_mul_le_self _ _
    have hdiv : ((b.below k * b.step k : Nat) : ℚ) ≤ ((4 * b.mantissa * b.unit k : Nat) : ℚ) :=
      Nat.cast_le.2 hdiv
    push_cast [step_cast] at hdiv
    rw [hunit] at hdiv
    rw [← mul_le_mul_iff_left₀ hf]
    linarith
  have hlt : 4 * b.mantissa * 2 ^ (b.exponent - 2) < ((b.below k + 1 : Nat) : ℚ) * 10 ^ k := by
    have hdiv : 4 * b.mantissa * b.unit k < (b.below k + 1) * b.step k :=
      Nat.lt_mul_of_div_lt (Nat.lt_succ_self _) hpos
    have hdiv :
        ((4 * b.mantissa * b.unit k : Nat) : ℚ) < (((b.below k + 1) * b.step k : Nat) : ℚ) :=
      Nat.cast_lt.2 hdiv
    rw [Nat.cast_mul (b.below k + 1), step_cast] at hdiv
    push_cast at hdiv ⊢
    rw [hunit] at hdiv
    rw [← mul_lt_mul_iff_left₀ hf]
    linarith
  have hdouble : (2 : ℚ) ^ (b.exponent - 1) = 2 * 2 ^ (b.exponent - 2) := by
    rw [← zpow_one_add₀ (by norm_num)]
    congr 1
    ring
  rw [hdouble] at h
  rw [inside_iff hm]
  apply rounds_of_lt
  · have hquarter : (0 : ℚ) < 2 ^ (b.exponent - 2) := by positivity
    refine lt_of_le_of_lt ?_ hlt
    rw [lower]
    apply mul_le_mul_of_nonneg_right _ hquarter.le
    split <;> linarith
  · rw [upper]
    push_cast
    linarith

/-! The search ends on a grid that is fine enough. -/

theorem coarsest_rounds (hm : 0 < b.mantissa) {tries : Nat}
    (h : ∃ j < tries, (10 : ℚ) ^ (k - j) < 2 ^ (b.exponent - 1)) :
    b.Rounds (coarsest tie b tries k).value := by
  induction tries generalizing k with
  | zero =>
    obtain ⟨j, hj, -⟩ := h
    omega
  | succ tries ih =>
    rw [coarsest]
    cases hd : onGrid tie b k with
    | some d => exact onGrid_rounds hm hd
    | none =>
      apply ih
      obtain ⟨j, hj, hk⟩ := h
      cases j with
      | zero =>
        obtain ⟨d, hs⟩ : ∃ d, onGrid tie b k = some d :=
          onGrid_some (inside_next hm (by simpa using hk))
        cases hd.symm.trans hs
      | succ j =>
        refine ⟨j, by omega, ?_⟩
        have he : k - 1 - j = k - (j + 1 : Nat) := by omega
        rwa [he]

theorem two_pow_le_ten_pow (n : Nat) : 2 ^ (93 * (n / 28) + 3 * (n % 28)) ≤ 10 ^ n := by
  calc 2 ^ (93 * (n / 28) + 3 * (n % 28))
      = (2 ^ 93) ^ (n / 28) * (2 ^ 3) ^ (n % 28) := by rw [pow_add, pow_mul, pow_mul]
    _ ≤ (10 ^ 28) ^ (n / 28) * 10 ^ (n % 28) :=
        Nat.mul_le_mul (Nat.pow_le_pow_left (by norm_num) _) (Nat.pow_le_pow_left (by norm_num) _)
    _ = 10 ^ n := by rw [← pow_mul, ← pow_add, Nat.div_add_mod]

theorem ten_pow_le_two_pow (n : Nat) : 10 ^ n ≤ 2 ^ (10 * (n / 3) + 4 * (n % 3)) := by
  calc 10 ^ n
      = (10 ^ 3) ^ (n / 3) * 10 ^ (n % 3) := by rw [← pow_mul, ← pow_add, Nat.div_add_mod]
    _ ≤ (2 ^ 10) ^ (n / 3) * (2 ^ 4) ^ (n % 3) :=
        Nat.mul_le_mul (Nat.pow_le_pow_left (by norm_num) _) (Nat.pow_le_pow_left (by norm_num) _)
    _ = 2 ^ (10 * (n / 3) + 4 * (n % 3)) := by rw [pow_add, pow_mul, pow_mul]

/-- The last grid that is tried is finer than the distance to the next float. -/
theorem last_grid_fine (hm : b.mantissa < 2 ^ 53) (hlo : -1074 ≤ b.exponent)
    (hhi : b.exponent ≤ 971) : (10 : ℚ) ^ (b.ceiling - (39 : Nat)) < 2 ^ (b.exponent - 1) := by
  have hlog : b.mantissa.log2 ≤ 52 := by
    by_cases h0 : b.mantissa = 0
    · simp [h0]
    · exact Nat.le_of_lt_succ ((Nat.log2_lt h0).2 hm)
  rcases Int.eq_nat_or_neg (b.ceiling - (39 : Nat)) with ⟨n, hn | hn⟩
  · have hle : ((10 ^ n : Nat) : ℚ) ≤ ((2 ^ (10 * (n / 3) + 4 * (n % 3)) : Nat) : ℚ) :=
      Nat.cast_le.2 (ten_pow_le_two_pow n)
    push_cast at hle
    rw [hn, zpow_natCast]
    refine lt_of_le_of_lt hle ?_
    rw [← zpow_natCast]
    apply zpow_lt_zpow_right₀ (by norm_num)
    simp only [ceiling] at hn
    split at hn <;> omega
  · have hle : ((2 ^ (93 * (n / 28) + 3 * (n % 28)) : Nat) : ℚ) ≤ ((10 ^ n : Nat) : ℚ) :=
      Nat.cast_le.2 (two_pow_le_ten_pow n)
    push_cast at hle
    rw [hn, zpow_neg, zpow_natCast]
    refine lt_of_le_of_lt (inv_anti₀ (by positivity) hle) ?_
    rw [← zpow_natCast, ← zpow_neg]
    apply zpow_lt_zpow_right₀ (by norm_num)
    simp only [ceiling] at hn
    split at hn <;> omega

theorem shortest_rounds (tie : Tie) (hpos : 0 < b.mantissa) (hm : b.mantissa < 2 ^ 53)
    (hlo : -1074 ≤ b.exponent) (hhi : b.exponent ≤ 971) : b.Rounds (b.shortest tie).value :=
  coarsest_rounds hpos ⟨39, by omega, last_grid_fine hm hlo hhi⟩

/-! Neighbouring floats, whose bits follow each other as numbers. -/

/-- The next mantissa at the same exponent, or the least one at the next exponent. -/
theorem ofBits_succ (n : Nat) :
    ofBits (n + 1) = ⟨(ofBits n).mantissa + 1, (ofBits n).exponent, false⟩ ∨
      ∃ e, ofBits n = ⟨2 * leastNormal - 1, e, false⟩ ∧
        ofBits (n + 1) = ⟨leastNormal, e + 1, true⟩ := by
  unfold ofBits leastNormal
  dsimp only
  by_cases hf : n % 0x10000000000000 + 1 = 0x10000000000000
  · have hdiv : (n + 1) / 0x10000000000000 = n / 0x10000000000000 + 1 := by omega
    have hmod : (n + 1) % 0x10000000000000 = 0 := by omega
    have hmod' : n % 0x10000000000000 = 0xFFFFFFFFFFFFF := by omega
    rw [hdiv, hmod, hmod', if_neg (Nat.succ_ne_zero _)]
    by_cases h0 : n / 0x10000000000000 = 0
    · left
      rw [if_pos h0, h0]
      rfl
    · right
      refine ⟨(n / 0x10000000000000 : Nat) - 1075, ?_, ?_⟩
      · rw [if_neg h0]
        rfl
      · have hlt : 1 < n / 0x10000000000000 + 1 := by omega
        rw [decide_eq_true hlt]
        push_cast
        congr 1
        ring
  · have hdiv : (n + 1) / 0x10000000000000 = n / 0x10000000000000 := by omega
    have hmod : (n + 1) % 0x10000000000000 = n % 0x10000000000000 + 1 := by omega
    left
    rw [hdiv, hmod]
    split <;> rfl

theorem mantissa_parity (n : Nat) : (ofBits n).mantissa % 2 = n % 2 := by
  unfold ofBits leastNormal
  dsimp only
  split <;> dsimp only <;> omega

/-- The interval of a float ends where that of the next one begins. -/
theorem upper_eq_lower_succ (n : Nat) : (ofBits n).upper = (ofBits (n + 1)).lower := by
  rcases ofBits_succ n with h | ⟨e, h, h'⟩
  · rw [h, upper, lower, if_neg Bool.false_ne_true]
    push_cast
    ring
  · rw [h, h', upper, lower]
    have he : (2 : ℚ) ^ (e + 1 - 2) = 2 * 2 ^ (e - 2) := by
      rw [← zpow_one_add₀ (by norm_num)]
      congr 1
      ring
    simp only [he, leastNormal]
    norm_num
    ring

theorem lower_lt_upper (b : Binary) : b.lower < b.upper := by
  rw [lower, upper]
  apply mul_lt_mul_of_pos_right _ (by positivity)
  split <;> linarith

theorem lower_strictMono : StrictMono fun n => (ofBits n).lower := by
  apply strictMono_nat_of_lt_succ
  intro n
  rw [← upper_eq_lower_succ]
  exact lower_lt_upper _

/-- A number rounds to one float only. -/
theorem rounds_unique {m n : Nat} {q : ℚ} (hm : (ofBits m).Rounds q) (hn : (ofBits n).Rounds q) :
    m = n := by
  wlog h : m < n generalizing m n
  · rcases Nat.lt_or_eq_of_le (Nat.le_of_not_lt h) with h | h
    · exact (this hn hm h).symm
    · exact h.symm
  -- the number is the common end of both, which are neighbours, and one of them leaves it out
  have hu : q ≤ (ofBits (m + 1)).lower := upper_eq_lower_succ m ▸ hm.bounds.2
  have hle : (ofBits (m + 1)).lower ≤ (ofBits n).lower := lower_strictMono.monotone h
  have hsucc : n = m + 1 :=
    (lower_strictMono.injective (hle.antisymm (hn.bounds.1.trans hu))).symm
  subst hsucc
  have hq : q = (ofBits (m + 1)).lower := hu.antisymm hn.bounds.1
  unfold Rounds at hm hn
  rw [mantissa_parity] at hm hn
  rcases Nat.mod_two_eq_zero_or_one m with hp | hp
  · rw [if_neg (by omega)] at hn
    exact absurd hq hn.1.ne'
  · rw [if_neg (by omega), upper_eq_lower_succ] at hm
    exact absurd hq hm.2.ne

theorem Rounds.pos {q : ℚ} (h : b.Rounds q) (hm : 0 < b.mantissa) : 0 < q := by
  have hm : (1 : ℚ) ≤ b.mantissa := by exact_mod_cast hm
  have hl : 0 < b.lower := by
    apply mul_pos _ (by positivity)
    split <;> linarith
  exact hl.trans_le h.bounds.1

theorem ofBits_bounds {n : Nat} (hpos : 0 < n) (h : n < Layout.infinityBits) :
    0 < (ofBits n).mantissa ∧ (ofBits n).mantissa < 2 ^ 53 ∧ -1074 ≤ (ofBits n).exponent ∧
      (ofBits n).exponent ≤ 971 := by
  unfold Layout.infinityBits at h
  unfold ofBits leastNormal
  dsimp only
  split <;> dsimp only <;> omega

theorem shortest_ofBits (tie : Tie) {n : Nat} (hpos : 0 < n) (h : n < Layout.infinityBits) :
    (ofBits n).Rounds ((ofBits n).shortest tie).value := by
  obtain ⟨hm, hm', hlo, hhi⟩ := ofBits_bounds hpos h
  exact shortest_rounds tie hm hm' hlo hhi

theorem shortest_value_pos (tie : Tie) {n : Nat} (hpos : 0 < n) (h : n < Layout.infinityBits) :
    0 < ((ofBits n).shortest tie).value :=
  (shortest_ofBits tie hpos h).pos (ofBits_bounds hpos h).1

/-- The shortest decimals of different floats are different numbers. -/
theorem shortest_injective {tie tie' : Tie} {m n : Nat} (hm : 0 < m) (hm' : m < Layout.infinityBits)
    (hn : 0 < n) (hn' : n < Layout.infinityBits)
    (h : ((ofBits m).shortest tie).value = ((ofBits n).shortest tie').value) : m = n :=
  rounds_unique (shortest_ofBits tie hm hm') (h ▸ shortest_ofBits tie' hn hn')

end Binary
end Stencil
