import Stencil.Proofs.FloatBits
import Stencil.Proofs.JsonNumerals
import Stencil.Proofs.ShortestDecimal

/-! The text of a float. In every layout a finite float is written as a numeral with a point or an
exponent, which denotes the shortest decimal of the float: from the text the float can be told. -/
namespace Stencil

namespace Json

variable {rest : List Char}

namespace Numeral

def exponent (m : Numeral) : Int :=
  match m.power with
  | none => 0
  | some (down, ds) =>
    let n : Int := Nat.ofDigitChars 10 ds 0
    if down then -n else n

def decimal (m : Numeral) : Decimal :=
  ⟨Nat.ofDigitChars 10 (m.whole ++ m.fraction.getD []) 0,
    m.exponent - (m.fraction.getD []).length⟩

end Numeral

def FloatNumeral (cs : List Char) (negative : Bool) (size : ℚ) : Prop :=
  ∃ m : Numeral, m.WellFormed ∧ (∃ plus, cs = m.chars plus) ∧ m.negative = negative ∧
    m.decimal.value = size ∧ ¬ (m.fraction = none ∧ m.power = none)

theorem FloatNumeral.read {cs : List Char} {negative : Bool} {size : ℚ}
    (h : FloatNumeral cs negative size) (hr : Follows rest) :
    ∃ m, readNumeral (cs ++ rest) = some (m, rest) ∧ m.negative = negative ∧
      m.decimal.value = size ∧ ∀ n, m.value? ≠ some (.int n) := by
  obtain ⟨m, hm, ⟨plus, rfl⟩, hn, hs, hf⟩ := h
  exact ⟨m, readNumeral_chars hm plus hr, hn, hs, Numeral.value?_ne_int hf⟩

theorem FloatNumeral.starts {cs : List Char} {negative : Bool} {size : ℚ}
    (h : FloatNumeral cs negative size) : ∃ c ds, cs = c :: ds ∧ (c = '-' ∨ c.isDigit) := by
  obtain ⟨m, hm, ⟨plus, rfl⟩, -⟩ := h
  exact hm.starts plus

end Json

open Json (Digits Numeral FloatNumeral)

namespace Decimal

variable {d : Decimal}

theorem digits_form (d : Decimal) : Digits d.digits := Digits.toDigits d.coefficient

theorem digits_leading (h : 0 < d.coefficient) (cs : List Char) : d.digits ≠ '0' :: cs := by
  obtain ⟨c, ds, hc, hz⟩ := Value.toDigits_head h
  rw [digits, hc]
  exact fun he => hz (List.cons.inj he).1

theorem ofDigitChars_digits (d : Decimal) : Nat.ofDigitChars 10 d.digits 0 = d.coefficient :=
  Nat.ofDigitChars_ten_toDigits

theorem coefficient_pos (h : 0 < d.value) : 0 < d.coefficient := by
  refine Nat.pos_of_ne_zero fun h0 => ?_
  rw [value, h0] at h
  simp at h

end Decimal

namespace Layout

variable {d : Decimal}

/-- Digits on both sides of a point, all in place. -/
theorem positional_numeral {whole fraction : List Char} (hw : Digits whole)
    (hz : ∀ cs, whole = '0' :: cs → cs = []) (hf : Digits fraction)
    (hv : (Nat.ofDigitChars 10 (whole ++ fraction) 0 : ℚ) * 10 ^ (-(fraction.length : Int)) =
      d.value) (negative : Bool) :
    FloatNumeral (Numeral.signChars negative ++ (whole ++ '.' :: fraction)) negative d.value := by
  refine ⟨⟨negative, whole, some fraction, none⟩, ⟨hw, hz, ?_, nofun⟩, ⟨false, ?_⟩, rfl, ?_, nofun⟩
  · rintro _ ⟨⟩
    exact hf
  · simp [Numeral.chars, Numeral.fractionChars, Numeral.powerChars]
  · rw [← hv, ← zero_sub]
    rfl

/-- Zeros fill the places up to the point. -/
theorem padded_numeral (h : 0 < d.coefficient) {n : Nat} (hn : d.exponent = n) (negative : Bool) :
    FloatNumeral (Numeral.signChars negative ++
      (d.digits ++ List.replicate n '0' ++ ['.', '0'])) negative d.value := by
  refine positional_numeral (d.digits_form.append fun c hc => List.eq_of_mem_replicate hc ▸ rfl) ?_
    (Digits.toDigits 0) ?_ negative
  · intro cs hcs
    obtain ⟨c, ds, hds⟩ := List.exists_cons_of_ne_nil d.digits_form.1
    rw [hds, List.cons_append] at hcs
    exact absurd ((List.cons.inj hcs).1 ▸ hds) (Decimal.digits_leading h ds)
  · have hten (k : Nat) : Nat.ofDigitChars 10 (Nat.toDigits 10 0) k = 10 * k := rfl
    have hone : (Nat.toDigits 10 0).length = 1 := rfl
    rw [Nat.ofDigitChars_append, Nat.ofDigitChars_append, d.ofDigitChars_digits,
      Nat.ofDigitChars_replicate_zero, hten, hone, Decimal.value, hn]
    push_cast
    norm_num
    ring

/-- The point stands among the digits. -/
theorem pointed_numeral (h : 0 < d.coefficient) {n : Nat} (hn : d.digits.length + d.exponent = n)
    (hpos : 0 < n) (he : d.exponent < 0) (negative : Bool) :
    FloatNumeral (Numeral.signChars negative ++
      (d.digits.take n ++ '.' :: d.digits.drop n)) negative d.value := by
  have hd := d.digits_form.2
  have hdrop : (d.digits.drop n).length = d.digits.length - n := List.length_drop
  have htake : (d.digits.take n).length = min n d.digits.length := List.length_take
  refine positional_numeral
    ⟨List.ne_nil_of_length_pos (by omega), fun c hc => hd c (List.mem_of_mem_take hc)⟩ ?_
    ⟨List.ne_nil_of_length_pos (by omega), fun c hc => hd c (List.mem_of_mem_drop hc)⟩ ?_ negative
  · intro cs hcs
    have hall := List.take_append_drop n d.digits
    rw [hcs] at hall
    exact absurd hall.symm (Decimal.digits_leading h _)
  · have he : -((d.digits.drop n).length : Int) = d.exponent := by omega
    rw [List.take_append_drop, d.ofDigitChars_digits, he, Decimal.value]

/-- Zeros fill the places from the point to the digits. -/
theorem small_numeral {n : Nat} (hn : d.digits.length + d.exponent = -n) (negative : Bool) :
    FloatNumeral (Numeral.signChars negative ++
      (['0'] ++ '.' :: (List.replicate n '0' ++ d.digits))) negative d.value := by
  obtain ⟨hne, hd⟩ := d.digits_form
  refine positional_numeral (Digits.toDigits 0) (fun cs hcs => (List.cons.inj hcs).2.symm)
    ⟨List.append_ne_nil_of_right_ne_nil _ hne, List.forall_mem_append.2 ⟨?_, hd⟩⟩ ?_ negative
  · exact fun c hc => List.eq_of_mem_replicate hc ▸ rfl
  · have he : -((List.replicate n '0' ++ d.digits).length : Int) = d.exponent := by
      rw [List.length_append, List.length_replicate]
      omega
    have h0 : Nat.ofDigitChars 10 (Nat.toDigits 10 0) 0 = 0 := rfl
    rw [Nat.ofDigitChars_append, h0, Nat.ofDigitChars_append, Nat.ofDigitChars_replicate_zero,
      Nat.mul_zero, d.ofDigitChars_digits, he, Decimal.value]

theorem inPlace_numeral (h : 0 < d.coefficient) (negative : Bool) :
    FloatNumeral (Numeral.signChars negative ++ (inPlace d).toList) negative d.value := by
  have hlen : 0 < d.digits.length := List.length_pos_of_ne_nil d.digits_form.1
  simp only [inPlace]
  split
  case isTrue he =>
    rw [String.toList_ofList]
    exact padded_numeral h (Int.toNat_of_nonneg he).symm negative
  case isFalse he =>
    split
    case isTrue hp =>
      rw [String.toList_ofList]
      exact pointed_numeral h (Int.toNat_of_nonneg hp.le).symm (by omega) (by omega) negative
    case isFalse hp =>
      rw [String.toList_ofList]
      exact small_numeral (by omega) negative

theorem scientific_numeral (h : 0 < d.coefficient) (plus negative : Bool) :
    FloatNumeral (Numeral.signChars negative ++ (scientific plus d).toList) negative d.value := by
  have hd := d.digits_form
  have hv := d.ofDigitChars_digits
  have hsign : (if d.leading < 0 then "-" else if plus then "+" else "").toList =
      if decide (d.leading < 0) then ['-'] else if plus then ['+'] else [] := by
    cases plus <;> by_cases hl : d.leading < 0 <;> simp [hl]
  have hexp : (if decide (d.leading < 0) then -(d.leading.natAbs : Int) else d.leading.natAbs) =
      d.leading := by
    by_cases hl : d.leading < 0
    · rw [decide_eq_true hl, if_pos rfl]
      omega
    · rw [decide_eq_false hl, if_neg Bool.false_ne_true]
      omega
  obtain ⟨c, cs, hc⟩ := List.exists_cons_of_ne_nil hd.1
  rw [hc] at hd hv
  have hlead : d.leading - cs.length = d.exponent := by
    rw [Decimal.leading, hc, List.length_cons]
    push_cast
    ring
  have hz : c ≠ '0' := by
    rintro rfl
    exact Decimal.digits_leading h cs hc
  refine ⟨⟨negative, [c], if cs = [] then none else some cs,
    some (decide (d.leading < 0), Nat.toDigits 10 d.leading.natAbs)⟩, ⟨?_, ?_, ?_, ?_⟩,
    ⟨plus, ?_⟩, rfl, ?_, nofun⟩
  · exact ⟨List.cons_ne_nil c [], by simpa using hd.2 c List.mem_cons_self⟩
  · exact fun ds hds => absurd (List.cons.inj hds).1 hz
  · intro ds hds
    by_cases hcs : cs = []
    · simp [hcs] at hds
    · simp only [if_neg hcs, Option.mem_def, Option.some.injEq] at hds
      exact hds ▸ ⟨hcs, fun x hx => hd.2 x (List.mem_cons_of_mem c hx)⟩
  · rintro _ ⟨⟩
    exact Digits.toDigits _
  · rw [scientific, hc]
    cases cs <;>
      simp [Numeral.chars, Numeral.fractionChars, Numeral.powerChars, hsign, Nat.toList_repr]
  · have hcs : (if cs = [] then none else some cs).getD [] = cs := by
      by_cases hcs : cs = [] <;> simp [hcs]
    simp only [Numeral.decimal, Numeral.exponent, Decimal.value, hcs, List.singleton_append, hv,
      Nat.ofDigitChars_ten_toDigits, hexp, hlead]

theorem decimalText_numeral (l : Layout) (h : 0 < d.coefficient) (negative : Bool) :
    FloatNumeral (Numeral.signChars negative ++ (l.decimalText d).toList) negative d.value := by
  unfold decimalText
  split
  · exact inPlace_numeral h negative
  · split
    · exact inPlace_numeral h negative
    · exact scientific_numeral h l.plus negative

def shownSize (l : Layout) (bits : Nat) : ℚ :=
  if bits % signBit = 0 then 0 else ((Binary.ofBits (bits % signBit)).shortest l.tie).value

theorem bitsText_numeral (l : Layout) {bits : Nat} (h : bits % signBit < infinityBits) :
    FloatNumeral (l.bitsText bits).toList (signBit ≤ bits) (l.shownSize bits) := by
  have hsign : (if signBit ≤ bits then "-" else "").toList =
      Numeral.signChars (signBit ≤ bits) := by
    by_cases hb : signBit ≤ bits <;> simp [hb, Numeral.signChars]
  simp only [bitsText, if_neg (Nat.lt_asymm h), if_neg (Nat.ne_of_lt h), shownSize]
  split
  case isTrue =>
    have h0 : Nat.ofDigitChars 10 (Nat.toDigits 10 0 ++ Nat.toDigits 10 0) 0 = 0 := rfl
    have hv : (⟨0, 0⟩ : Decimal).value = 0 := zero_mul _
    rw [String.toList_append, hsign, ← hv]
    refine positional_numeral (Digits.toDigits 0) (fun cs hcs => (List.cons.inj hcs).2.symm)
      (Digits.toDigits 0) ?_ _
    rw [h0, hv, Nat.cast_zero, zero_mul]
  case isFalse h0 =>
    rw [String.toList_append, hsign]
    have hpos := Binary.shortest_value_pos l.tie (Nat.pos_of_ne_zero h0) h
    exact decimalText_numeral l (Decimal.coefficient_pos hpos) _

theorem shownSize_injective (l : Layout) {m n : Nat} (hm : m % signBit < infinityBits)
    (hn : n % signBit < infinityBits) (h : l.shownSize m = l.shownSize n) :
    m % signBit = n % signBit := by
  unfold shownSize at h
  by_cases hm0 : m % signBit = 0
  · by_cases hn0 : n % signBit = 0
    · rw [hm0, hn0]
    · rw [if_pos hm0, if_neg hn0] at h
      exact absurd h (Binary.shortest_value_pos l.tie (Nat.pos_of_ne_zero hn0) hn).ne
  · by_cases hn0 : n % signBit = 0
    · rw [if_neg hm0, if_pos hn0] at h
      exact absurd h (Binary.shortest_value_pos l.tie (Nat.pos_of_ne_zero hm0) hm).ne'
    · rw [if_neg hm0, if_neg hn0] at h
      exact Binary.shortest_injective (Nat.pos_of_ne_zero hm0) hm (Nat.pos_of_ne_zero hn0) hn h

end Layout

/-! The text of a float. -/

namespace Layout

open Json (Follows)

variable {x y : Float} {r s : List Char}

theorem text_numeral (l : Layout) (h : x.isFinite) :
    FloatNumeral (l.text x).toList (isNegative x) (l.shownSize x.toBits.toNat) :=
  l.bitsText_numeral ((isFinite_iff x).1 h)

/-- The text of a float that is not finite: a NaN or one of the infinities. -/
theorem text_of_not_finite (l : Layout) (h : ¬ x.isFinite) :
    x.isNaN ∧ l.text x = l.nan ∨ x = 1.0 / 0.0 ∧ l.text x = l.infinity ∨
      x = -1.0 / 0.0 ∧ l.text x = l.negativeInfinity := by
  have hlt : x.toBits.toNat < 2 ^ 64 := x.toBits.toNat_lt
  rw [isFinite_iff, Nat.not_lt] at h
  unfold text bitsText
  dsimp only
  rcases Nat.lt_or_eq_of_le h with hnan | hinf
  · exact .inl ⟨(isNaN_iff x).2 hnan, if_pos hnan⟩
  · rw [if_neg (Nat.not_lt.2 hinf.ge), if_pos hinf.symm]
    by_cases hs : signBit ≤ x.toBits.toNat
    · refine .inr (.inr ⟨eq_of_toBits (UInt64.toNat_inj.1 ?_), if_pos hs⟩)
      have hbits : (-1.0 / 0.0 : Float).toBits.toNat = signBit + infinityBits := rfl
      rw [hbits]
      unfold signBit infinityBits at *
      omega
    · refine .inr (.inl ⟨eq_of_toBits (UInt64.toNat_inj.1 ?_), if_neg hs⟩)
      have hbits : (1.0 / 0.0 : Float).toBits.toNat = infinityBits := rfl
      rw [hbits]
      unfold signBit infinityBits at *
      omega

/-- A float is told from the front of a text, and what follows it. -/
theorem text_append_inj (l : Layout) (hx : x.isFinite) (hy : y.isFinite) (hr : Follows r)
    (hs : Follows s) (h : (l.text x).toList ++ r = (l.text y).toList ++ s) : x = y ∧ r = s := by
  obtain ⟨m, hm, hmn, hms, -⟩ := (l.text_numeral hx).read hr
  obtain ⟨n, hn, hnn, hns, -⟩ := (l.text_numeral hy).read hs
  rw [h, hn] at hm
  cases hm
  have hsign : isNegative x = isNegative y := hmn.symm.trans hnn
  have hmod := l.shownSize_injective ((isFinite_iff x).1 hx) ((isFinite_iff y).1 hy)
    (hms.symm.trans hns)
  refine ⟨eq_of_toBits (UInt64.toNat_inj.1 ?_), rfl⟩
  have hltx : x.toBits.toNat < 2 ^ 64 := x.toBits.toNat_lt
  have hlty : y.toBits.toNat < 2 ^ 64 := y.toBits.toNat_lt
  have hsign := decide_eq_decide.1 hsign
  unfold signBit at hsign hmod
  omega

theorem text_injective (l : Layout) (hx : x.isFinite) (hy : y.isFinite) (h : l.text x = l.text y) :
    x = y := by
  exact (l.text_append_inj hx hy Json.follows_nil Json.follows_nil (by rw [h])).1

/-- No finite float is written like an integer. -/
theorem text_append_ne_intText (l : Layout) (hx : x.isFinite) (n : Int64) (hr : Follows r)
    (hs : Follows s) : (l.text x).toList ++ r ≠ (Value.intText n).toList ++ s := by
  intro h
  obtain ⟨m, hm, -, -, hmn⟩ := (l.text_numeral hx).read hr
  obtain ⟨k, hk, hkn⟩ := Json.readNumeral_intText hs n
  rw [← h, hm] at hk
  cases hk
  exact hmn n hkn

end Layout
end Stencil
