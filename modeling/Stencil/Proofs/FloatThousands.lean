import Stencil.Proofs.FloatText
import Stencil.Proofs.Thousands

/-! Floats with grouped thousands. The digits before the point are grouped and those after it are
not, and but for the commas the text is that of the float, unless this is the negative zero. -/
namespace Stencil

open Json (Digits)
open Json.Numeral (signChars)

namespace Layout

def Pointed (cs : List Char) : Prop :=
  ∃ whole places, cs = whole ++ '.' :: places ∧ Digits whole ∧ Digits places

theorem inPlace_pointed (d : Decimal) : Pointed (inPlace d).toList := by
  have hd := d.digits_form
  have hlen : 0 < d.digits.length := List.length_pos_iff.2 hd.1
  have hzeros (n : Nat) : ∀ c ∈ List.replicate n '0', c.isDigit :=
    fun c hc => List.eq_of_mem_replicate hc ▸ rfl
  simp only [inPlace]
  split
  case isTrue =>
    refine ⟨d.digits ++ List.replicate d.exponent.toNat '0', ['0'], ?_, hd.append (hzeros _),
      Digits.toDigits 0⟩
    rw [String.toList_ofList]
  case isFalse he =>
    split
    case isTrue hp =>
      have htake (n : Nat) : ∀ c ∈ d.digits.take n, c.isDigit :=
        fun c hc => hd.2 c (List.mem_of_mem_take hc)
      have hdrop (n : Nat) : ∀ c ∈ d.digits.drop n, c.isDigit :=
        fun c hc => hd.2 c (List.mem_of_mem_drop hc)
      refine ⟨_, _, String.toList_ofList, ⟨?_, htake _⟩, ⟨?_, hdrop _⟩⟩
      · refine List.ne_nil_of_length_pos ?_
        rw [List.length_take]
        omega
      · refine List.ne_nil_of_length_pos ?_
        rw [List.length_drop]
        omega
    case isFalse =>
      refine ⟨['0'], _, String.toList_ofList, Digits.toDigits 0, ?_, ?_⟩
      · exact List.append_ne_nil_of_right_ne_nil _ hd.1
      · exact List.forall_mem_append.2 ⟨hzeros _, hd.2⟩

/-- Without exponents, the text of a finite float is its sign and the pointed text of its size. -/
theorem bitsText_pointed {l : Layout} (hl : l.positional = none) {bits : Nat}
    (h : bits % signBit < infinityBits) :
    Pointed (l.bitsText (bits % signBit)).toList ∧
      (l.bitsText bits).toList =
        signChars (signBit ≤ bits) ++ (l.bitsText (bits % signBit)).toList := by
  have hpos : ¬ signBit ≤ bits % signBit := Nat.not_le.2 (Nat.mod_lt _ (by decide))
  have hsign : (if signBit ≤ bits then "-" else "").toList = signChars (signBit ≤ bits) := by
    by_cases hb : signBit ≤ bits <;> simp [hb, signChars]
  simp only [bitsText, Nat.mod_mod, if_neg (Nat.lt_asymm h), if_neg (Nat.ne_of_lt h), if_neg hpos]
  split
  case isTrue =>
    refine ⟨⟨['0'], ['0'], rfl, Digits.toDigits 0, Digits.toDigits 0⟩, ?_⟩
    rw [String.toList_append, hsign]
    rfl
  case isFalse =>
    have hplace (d : Decimal) : l.decimalText d = inPlace d := by rw [decimalText, hl]
    simp only [hplace, String.toList_append, hsign]
    exact ⟨inPlace_pointed _, rfl⟩

end Layout

namespace Value

variable {x : Float}

theorem floatText_pointed (h : x.isFinite) : ∃ whole places,
    Digits whole ∧ Digits places ∧ (floatText x.abs).toList = whole ++ '.' :: places ∧
      (floatText x).toList = signChars (isNegative x) ++ (whole ++ '.' :: places) := by
  have hbits := (isFinite_iff x).1 h
  have hnan : ¬ x.isNaN := fun hn => Nat.lt_asymm hbits ((isNaN_iff x).1 hn)
  obtain ⟨⟨whole, places, hw, hdw, hdp⟩, ht⟩ :=
    Layout.bitsText_pointed (l := outputLayout) rfl hbits
  refine ⟨whole, places, hdw, hdp, ?_, ?_⟩
  · rw [floatText, Layout.text, toBits_abs hnan, hw]
  · rw [floatText, Layout.text, ht, hw]
    rfl

theorem span_whole {whole : List Char} (h : Digits whole) (places : List Char) :
    (whole ++ '.' :: places).takeWhile (· ≠ '.') = whole ∧
      (whole ++ '.' :: places).dropWhile (· ≠ '.') = '.' :: places := by
  have hw : ∀ c ∈ whole, decide (c ≠ '.') = true := by
    intro c hc
    refine decide_eq_true ?_
    rintro rfl
    exact absurd (h.2 '.' hc) (by decide)
  exact span_stop hw (by simp)

/-- The sign is that of the number, so that zero has none. -/
theorem groupedFloat_pointed (h : x.isFinite) {whole places : List Char} (hw : Digits whole)
    (ht : (floatText x.abs).toList = whole ++ '.' :: places) :
    (groupedFloat x).toList =
      signChars (x < 0.0) ++ (groupThousands whole ++ '.' :: places) := by
  obtain ⟨htake, hdrop⟩ := span_whole hw places
  rw [groupedFloat, if_pos h]
  simp only [ht, htake, hdrop]
  by_cases hx : x < 0.0 <;> simp [hx, signChars]

theorem withoutCommas_signChars (negative : Bool) :
    withoutCommas (signChars negative) = signChars negative := by
  cases negative <;> rfl

/-- In a finite float only the digits before the point are grouped, and deleting the commas gives
the text of the float. The negative zero is written like the positive one. -/
theorem float_thousands_separate_digits (h : x.isFinite) : ∃ text grouped whole places,
    outputText? (float x) = some text ∧ thousands? (float x) = some grouped ∧
    (x ≠ -0.0 → withoutCommas grouped.toList = text.toList) ∧
    (x = -0.0 → text = "-0.0" ∧ grouped = "0.0") ∧
    grouped.toList = signChars (x < 0.0) ++ (whole ++ '.' :: places) ∧ Grouped whole ∧
    Digits places := by
  obtain ⟨whole, places, hw, hp, habs, htext⟩ := floatText_pointed h
  have hgrouped := groupedFloat_pointed h hw habs
  refine ⟨floatText x, groupedFloat x, groupThousands whole, places, rfl, rfl, fun hx => ?_, ?_,
    hgrouped, grouped_groupThousands hw, hp⟩
  · have hsign : decide (x < 0.0) = isNegative x := by
      rw [Bool.eq_iff_iff, decide_eq_true_iff, lt_zero_iff h]
      exact and_iff_left hx
    have hplaces : withoutCommas ('.' :: places) = '.' :: places := by
      exact withoutCommas_of_not_mem
        (List.not_mem_cons_of_ne_of_not_mem (by decide) (not_mem_of_digits hp.2))
    rw [hgrouped, htext, hsign, withoutCommas_append, withoutCommas_append,
      withoutCommas_signChars, withoutCommas_groupThousands hw.2, hplaces]
  · rintro rfl
    exact ⟨rfl, rfl⟩

theorem float_thousands_separate_digits_negative :
    let x : Float := -1234567.5
    x.isFinite ∧ x ≠ -0.0 ∧ ∃ text grouped whole places, outputText? (float x) = some text ∧
      thousands? (float x) = some grouped ∧ withoutCommas grouped.toList = text.toList ∧
      grouped.toList = signChars (x < 0.0) ++ (whole ++ '.' :: places) ∧ Grouped whole ∧
      Digits places := by
  intro x
  have h : x.isFinite := by decide +kernel
  have hx : x ≠ -0.0 := fun hx => absurd (congrArg Float.toBits hx) (by decide)
  obtain ⟨text, grouped, whole, places, ht, hg, hdelete, -, hparts⟩ :=
    float_thousands_separate_digits h
  exact ⟨h, hx, text, grouped, whole, places, ht, hg, hdelete hx, hparts⟩

/-- Grouped, the negative zero has no sign, and its text has one. -/
theorem negative_zero_loses_sign :
    (-0.0 : Float).isFinite ∧ ∃ text grouped, outputText? (float (-0.0)) = some text ∧
      thousands? (float (-0.0)) = some grouped ∧
      withoutCommas grouped.toList ≠ text.toList := by
  exact ⟨rfl, "-0.0", "0.0", rfl, rfl, by decide⟩

end Value
end Stencil
