import Stencil.Proofs.JsonNumerals
import Stencil.Value

/-! Digits in groups of three. Grouping only puts commas between the digits, the first group has one
to three of them and every other three, and an integer can be told from its grouped digits. -/
namespace Stencil.Value

open Json (Digits)
open Json.Numeral (signChars)

/-- Between commas stand one to three digits at first, and three digits each time after that. -/
def Grouped (cs : List Char) : Prop :=
  ∃ first rest, cs.splitOn ',' = first :: rest ∧ Digits first ∧ first.length ≤ 3 ∧
    ∀ g ∈ rest, Digits g ∧ g.length = 3

def withoutCommas (cs : List Char) : List Char := cs.filter (· ≠ ',')

variable {ds : List Char}

theorem withoutCommas_append (cs ds : List Char) :
    withoutCommas (cs ++ ds) = withoutCommas cs ++ withoutCommas ds := List.filter_append cs ds

theorem withoutCommas_of_not_mem (h : ',' ∉ ds) : withoutCommas ds = ds := by
  refine List.filter_eq_self.2 fun c hc => decide_eq_true ?_
  rintro rfl
  exact h hc

theorem not_comma_of_isDigit {c : Char} (h : c.isDigit) : c ≠ ',' := by
  rintro rfl
  exact absurd h (by decide)

theorem not_mem_of_digits (h : ∀ c ∈ ds, c.isDigit) : ',' ∉ ds :=
  fun hc => not_comma_of_isDigit (h ',' hc) rfl

theorem withoutCommas_groupThousands (h : ∀ c ∈ ds, c.isDigit) :
    withoutCommas (groupThousands ds) = ds := by
  induction ds with
  | nil => rfl
  | cons d ds ih =>
    obtain ⟨hd, h⟩ := List.forall_mem_cons.1 h
    have hkeep : withoutCommas (d :: groupThousands ds) = d :: ds := by
      rw [withoutCommas, List.filter_cons_of_pos (by simpa using not_comma_of_isDigit hd)]
      exact congrArg (d :: ·) (ih h)
    rw [groupThousands]
    split
    · exact hkeep
    · exact hkeep

/-- The first group takes what is left over when the others are full. -/
theorem splitOn_groupThousands (h : Digits ds) :
    ∃ first rest, (groupThousands ds).splitOn ',' = first :: rest ∧ Digits first ∧
      first.length = (ds.length - 1) % 3 + 1 ∧ ∀ g ∈ rest, Digits g ∧ g.length = 3 := by
  -- on the digits from the left: how many follow says whether a group begins with the next one
  induction ds with
  | nil => exact absurd rfl h.1
  | cons d ds ih =>
    obtain ⟨hd, htail⟩ := List.forall_mem_cons.1 h.2
    have hcomma : (d == ',') = false := beq_eq_false_iff_ne.2 (not_comma_of_isDigit hd)
    have hone : Digits [d] := ⟨List.cons_ne_nil d [], List.forall_mem_singleton.2 hd⟩
    by_cases hne : ds = []
    · subst hne
      refine ⟨[d], [], ?_, hone, rfl, List.forall_mem_nil _⟩
      exact List.splitOn_eq_singleton (not_mem_of_digits hone.2)
    · have hpos : 0 < ds.length := List.length_pos_iff.2 hne
      obtain ⟨first, rest, hs, hfirst, hlen, hrest⟩ := ih ⟨hne, htail⟩
      rw [groupThousands]
      by_cases hfull : ds.length % 3 = 0
      · refine ⟨[d], first :: rest, ?_, hone, ?_,
          List.forall_mem_cons.2 ⟨⟨hfirst, by omega⟩, hrest⟩⟩
        · rw [if_pos ⟨hne, hfull⟩, List.splitOn_cons_eq_if_modifyHead, hcomma,
            List.splitOn_cons_eq_if_modifyHead, hs]
          rfl
        · rw [List.length_singleton, List.length_cons]
          omega
      · refine ⟨d :: first, rest, ?_, ?_, ?_, hrest⟩
        · rw [if_neg fun hc => hfull hc.2, List.splitOn_cons_eq_if_modifyHead, hcomma, hs]
          rfl
        · exact ⟨List.cons_ne_nil d first, List.forall_mem_cons.2 ⟨hd, hfirst.2⟩⟩
        · rw [List.length_cons, List.length_cons, hlen]
          omega

theorem grouped_groupThousands (h : Digits ds) : Grouped (groupThousands ds) := by
  obtain ⟨first, rest, hs, hfirst, hlen, hrest⟩ := splitOn_groupThousands h
  exact ⟨first, rest, hs, hfirst, by omega, hrest⟩

theorem toList_intText (n : Int64) :
    (intText n).toList = signChars (n.toInt < 0) ++ Nat.toDigits 10 n.toInt.natAbs := by
  rcases toList_toString n.toInt with ⟨m, hn, hs⟩ | ⟨m, hm, hn, hs⟩
  · rw [intText, hs, hn, signChars, if_neg (by simp), Int.natAbs_natCast]
    rfl
  · rw [intText, hs, hn, signChars, if_pos (by simpa using hm), Int.natAbs_neg, Int.natAbs_natCast]
    rfl

theorem toList_groupedInt (n : Int64) : (groupedInt n).toList =
    signChars (n.toInt < 0) ++ groupThousands (Nat.toDigits 10 n.toInt.natAbs) := by
  have hd : (toString n.toInt.natAbs).toList = Nat.toDigits 10 n.toInt.natAbs := Nat.toList_repr
  rw [groupedInt, hd]
  by_cases hn : n.toInt < 0 <;> simp [hn, signChars]

theorem withoutCommas_groupedInt (n : Int64) :
    withoutCommas (groupedInt n).toList = (intText n).toList := by
  have hsign : withoutCommas (signChars (n.toInt < 0)) = signChars (n.toInt < 0) := by
    cases decide (n.toInt < 0) <;> rfl
  rw [toList_groupedInt, withoutCommas_append, hsign,
    withoutCommas_groupThousands (Digits.toDigits _).2, toList_intText]

theorem intText_injective {m n : Int64} (h : intText m = intText n) : m = n := by
  have hm := integer?_toString m
  rw [← intText, h] at hm
  exact Option.some.inj (hm.symm.trans (integer?_toString n))

/-- Grouping digits only puts commas between them, before each group of three, and the digits of an
integer are grouped after its sign. -/
theorem thousands_separate_digits :
    (∀ ds, Digits ds → withoutCommas (groupThousands ds) = ds ∧ Grouped (groupThousands ds)) ∧
    (∀ n, ∃ text grouped digits, outputText? (int n) = some text ∧
      thousands? (int n) = some grouped ∧ withoutCommas grouped.toList = text.toList ∧
      grouped.toList = signChars (n.toInt < 0) ++ digits ∧ Grouped digits) ∧
    ∀ m n, m ≠ n → thousands? (int m) ≠ thousands? (int n) := by
  refine ⟨fun ds h => ⟨withoutCommas_groupThousands h.2, grouped_groupThousands h⟩,
    fun n => ?_, fun m n hne h => hne ?_⟩
  · exact ⟨intText n, groupedInt n, _, rfl, rfl, withoutCommas_groupedInt n, toList_groupedInt n,
      grouped_groupThousands (Digits.toDigits _)⟩
  · have hg : groupedInt m = groupedInt n := Option.some.inj h
    apply intText_injective
    rw [← String.toList_inj, ← withoutCommas_groupedInt m, hg, withoutCommas_groupedInt]

/-- Seven digits, and the least integer, whose size is no integer of 64 bits. -/
theorem thousands_separate_digits_least :
    (withoutCommas (groupThousands "1234567".toList) = "1234567".toList ∧
      Grouped (groupThousands "1234567".toList)) ∧
    (thousands? (int Int64.minValue) = some "-9,223,372,036,854,775,808" ∧
      ∃ text grouped digits, outputText? (int Int64.minValue) = some text ∧
        thousands? (int Int64.minValue) = some grouped ∧
        withoutCommas grouped.toList = text.toList ∧
        grouped.toList = signChars (Int64.minValue.toInt < 0) ++ digits ∧ Grouped digits) ∧
    thousands? (int 1200) ≠ thousands? (int (-1200)) := by
  have hd : Digits "1234567".toList := ⟨by decide, List.all_eq_true.1 (by decide)⟩
  refine ⟨thousands_separate_digits.1 _ hd, ⟨by decide, ?_⟩, ?_⟩
  · exact thousands_separate_digits.2.1 Int64.minValue
  · exact thousands_separate_digits.2.2 1200 (-1200) (by decide)

end Stencil.Value
