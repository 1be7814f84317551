import Stencil.Unicode.Property

/-! What the tables of properties say about characters. A table stands in one number, with a bit for
each code point, and two tables are compared by an operation on their numbers. -/
namespace Stencil.Unicode

theorem isAlpha_toNat {c : Char} (h : c.isAlpha) : 65 ≤ c.toNat := by
  unfold Char.isAlpha Char.isUpper Char.isLower at h
  simp only [Bool.or_eq_true, Bool.and_eq_true, decide_eq_true_eq, ge_iff_le,
    UInt32.le_iff_toNat_le, Char.toNat_val, Char.reduceToNat] at h
  omega

theorem isDigit_toNat {c : Char} (h : c.isDigit) : 48 ≤ c.toNat ∧ c.toNat ≤ 57 := by
  simp only [Char.isDigit, Bool.and_eq_true, decide_eq_true_eq, ge_iff_le,
    UInt32.le_iff_toNat_le] at h
  exact h

def Ranges.bits : Ranges → Nat
  | [] => 0
  | r :: rs => (1 <<< (r.2 + 1 - r.1) - 1) <<< r.1 ||| bits rs

theorem Ranges.testBit_bits (rs : Ranges) (n : Nat) : rs.bits.testBit n = rs.has n := by
  induction rs with
  | nil => exact Nat.zero_testBit n
  | cons r rs ih =>
    have hr : (decide (n ≥ r.1) && decide (n - r.1 < r.2 + 1 - r.1)) =
        (decide (r.1 ≤ n) && decide (n ≤ r.2)) := by
      rw [← Bool.decide_and, ← Bool.decide_and, decide_eq_decide]
      omega
    rw [bits, Nat.testBit_or, Nat.testBit_shiftLeft, Nat.one_shiftLeft,
      Nat.testBit_two_pow_sub_one, hr, ih]
    rfl

theorem Ranges.not_has {rs ss : Ranges} (h : rs.bits &&& ss.bits = 0) {n : Nat} (hn : rs.has n) :
    ss.has n = false := by
  have hb : (rs.bits &&& ss.bits).testBit n = false := by rw [h, Nat.zero_testBit]
  rwa [Nat.testBit_and, testBit_bits, testBit_bits, hn, Bool.true_and] at hb

theorem not_isAlphabetic_of_isDigit {c : Char} (h : c.isDigit) : isAlphabetic c = false := by
  obtain ⟨hl, hu⟩ := isDigit_toNat h
  rw [isAlphabetic, if_pos (by omega), Bool.eq_false_iff]
  intro ha
  have := isAlpha_toNat ha
  omega

theorem isAlphanumeric_of_isDigit {c : Char} (h : c.isDigit) : isAlphanumeric c := by
  have hl : c.toNat < 0x80 := by
    have := isDigit_toNat h
    omega
  rw [isAlphanumeric, isNumeric, if_pos hl, h, Bool.or_true]

/-- No white space stands between the digits and the end of ASCII. -/
theorem isSpace_toNat {c : Char} (h : isSpace c) : c.toNat < 48 ∨ 0x80 ≤ c.toNat := by
  have ha : ∀ r ∈ spaceRanges, r.2 < 48 ∨ 0x80 ≤ r.1 := by decide
  obtain ⟨r, hr, h⟩ := List.any_eq_true.1 h
  have hn := ha r hr
  simp only [Bool.and_eq_true, decide_eq_true_eq] at h
  omega

theorem not_isDigit_of_isSpace {c : Char} (h : isSpace c) : c.isDigit = false := by
  have hs := isSpace_toNat h
  rw [Bool.eq_false_iff]
  intro hd
  have := isDigit_toNat hd
  omega

theorem not_isAlphabetic_of_isSpace {c : Char} (h : isSpace c) : isAlphabetic c = false := by
  have hs := isSpace_toNat h
  rw [isAlphabetic]
  split
  · rw [Bool.eq_false_iff]
    intro ha
    have := isAlpha_toNat ha
    omega
  · exact Ranges.not_has (by decide +kernel) h

theorem not_isAlphanumeric_of_isSpace {c : Char} (h : isSpace c) : isAlphanumeric c = false := by
  have hn : isNumeric c = false := by
    rw [isNumeric]
    split
    · exact not_isDigit_of_isSpace h
    · exact Ranges.not_has (by decide +kernel) h
  rw [isAlphanumeric, not_isAlphabetic_of_isSpace h, hn, Bool.or_false]

@[irreducible] def wordBits : Nat := alphabeticRanges.bits ||| numericRanges.bits

/-- The letters and digits by their bits. -/
def isWord (c : Char) : Bool :=
  if c.toNat < 0x80 then c.isAlpha || c.isDigit else wordBits.testBit c.toNat

theorem isAlphanumeric_eq_isWord (c : Char) : isAlphanumeric c = isWord c := by
  rw [isAlphanumeric, isAlphabetic, isNumeric, isWord]
  split
  · rfl
  · unfold wordBits
    simp only [Nat.testBit_or, Ranges.testBit_bits]

end Stencil.Unicode
