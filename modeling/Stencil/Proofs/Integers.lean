import Stencil.Value

/-! Integers in decimal digits, and back. -/
namespace Stencil

/-- A list is divided where its elements stop to have the property. -/
theorem span_stop {α : Type} {p : α → Bool} {as rest : List α} (h : ∀ a ∈ as, p a)
    (hr : ∀ a ∈ rest.head?, p a = false) :
    (as ++ rest).takeWhile p = as ∧ (as ++ rest).dropWhile p = rest := by
  rw [List.takeWhile_append_of_pos h, List.dropWhile_append_of_pos h]
  cases rest with
  | nil => exact ⟨List.append_nil as, rfl⟩
  | cons a rest =>
    have ha : ¬p a := Bool.eq_false_iff.1 (hr a rfl)
    rw [List.takeWhile_cons_of_neg ha, List.dropWhile_cons_of_neg ha]
    exact ⟨List.append_nil as, rfl⟩

namespace Value

theorem int64?_toInt (n : Int64) : int64? n.toInt = some n := by
  rw [int64?, if_pos ⟨n.minValue_le_toInt, n.toInt_le⟩, Int64.ofInt_toInt]

theorem toInt_of_int64? {i : Int} {n : Int64} (h : int64? i = some n) : n.toInt = i := by
  rw [int64?] at h
  split at h
  · next hi =>
    cases h
    exact Int64.toInt_ofInt_of_le hi.1 (Int.lt_add_one_of_le hi.2)
  · cases h

theorem ofInt_toInt (n : Int64) : ofInt n.toInt = int n := by
  rw [ofInt, int64?_toInt]

theorem ofDigits?_toDigits {negative : Bool} {m : Nat} {n : Int64}
    (h : n.toInt = if negative then -(m : Int) else m) :
    ofDigits? negative (Nat.toDigits 10 m) = some n := by
  rw [ofDigits?, Nat.ofDigitChars_ten_toDigits]
  simp only [← h, int64?_toInt]

/-- An integer is written as its digits, after a minus sign if it is negative. -/
theorem toList_toString (n : Int) :
    (∃ m : Nat, n = m ∧ (toString n).toList = Nat.toDigits 10 m) ∨
      ∃ m : Nat, 0 < m ∧ n = -m ∧ (toString n).toList = '-' :: Nat.toDigits 10 m := by
  cases n with
  | ofNat m => exact .inl ⟨m, rfl, Nat.toList_repr⟩
  | negSucc m =>
    refine .inr ⟨m + 1, Nat.succ_pos m, rfl, ?_⟩
    rw [← Nat.toList_repr]
    exact String.toList_append

theorem isDigit_of_toDigits {m : Nat} {c : Char} (h : c ∈ Nat.toDigits 10 m) : c.isDigit :=
  Nat.isDigit_of_mem_toDigits (by decide) (by decide) h

/-- The digits have no leading zero. -/
theorem toDigits_head {m : Nat} (h : 0 < m) : ∃ c cs, Nat.toDigits 10 m = c :: cs ∧ c ≠ '0' := by
  induction m using Nat.strongRecOn with
  | ind m ih =>
    rw [Nat.toDigits_eq_if (by decide)]
    by_cases hm : m < 10
    · rw [if_pos hm]
      refine ⟨m.digitChar, [], rfl, fun hc => ?_⟩
      have hd : ∀ k < 10, k.digitChar = '0' → k = 0 := by decide
      exact Nat.ne_of_gt h (hd m hm hc)
    · obtain ⟨c, cs, hc, hn⟩ := ih (m / 10) (by omega) (by omega)
      rw [if_neg hm, hc]
      exact ⟨c, _, rfl, hn⟩

theorem integer?_digits {s : String} {ds : List Char} (hs : s.toList = ds)
    (hd : ds ≠ [] ∧ ds.all Char.isDigit) : integer? s = ofDigits? false ds := by
  obtain ⟨c, cs, rfl⟩ := List.exists_cons_of_ne_nil hd.1
  have hc : c.isDigit := List.all_eq_true.1 hd.2 c List.mem_cons_self
  have hm : c ≠ '-' := by
    rintro rfl
    exact absurd hc (by decide)
  have hp : c ≠ '+' := by
    rintro rfl
    exact absurd hc (by decide)
  rw [integer?, hs]
  simp [hm, hp, hd]

/-- The decimal text of an integer denotes it. -/
theorem integer?_toString (n : Int64) : integer? (toString n.toInt) = some n := by
  have hd (m : Nat) : Nat.toDigits 10 m ≠ [] ∧ (Nat.toDigits 10 m).all Char.isDigit :=
    ⟨Nat.toDigits_ne_nil, List.all_eq_true.2 fun _ => isDigit_of_toDigits⟩
  rcases toList_toString n.toInt with ⟨m, hn, hs⟩ | ⟨m, -, hn, hs⟩
  · rw [integer?_digits hs (hd m), ofDigits?_toDigits hn]
  · rw [integer?, hs]
    simp only [if_pos (hd m)]
    exact ofDigits?_toDigits hn

end Value

end Stencil
