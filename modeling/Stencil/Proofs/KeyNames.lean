import Stencil.Proofs.Equality
import Stencil.Proofs.FloatText
import Stencil.Store.Load

/-! The names that keys of a document are given. Different keys may get the same name, such as a
number and the string of its digits; but not two strings, and not two plain scalars of other
kinds. -/
namespace Stencil.Store

open Yaml (Document)

def nameOf (k : Document) : Except Kind String := valueOf k >>= keyName

def NamesDiffer (entries : List (Document × Document)) : Prop :=
  entries.Pairwise fun e later => nameOf later.1 ≠ nameOf e.1

/-- A key without a tag that is no string, and no integer beyond 64 bits. -/
def IsTyped : Document → Prop
  | .null | .bool _ | .float _ => True
  | .int n => (Value.int64? n).isSome
  | _ => False

def PlainKeys (entries : List (Document × Document)) : Prop :=
  (∀ e ∈ entries, ∃ s, e.1 = .string s) ∨ ∀ e ∈ entries, IsTyped e.1

open Json (readNumeral follows_nil)
open Value (intText floatText outputLayout)

variable {entries : List (Document × Document)} {t : String} {n : Int64} {x y : Float}

/-- The words in the texts of scalars are no numerals. -/
theorem words_no_numerals :
    ∀ t ∈ ["None", "True", "False", "nan", "inf", "-inf"], readNumeral t.toList = none := by
  decide

theorem intText_ne (ht : readNumeral t.toList = none) : intText n ≠ t := by
  rintro rfl
  obtain ⟨m, hm, -⟩ := Json.readNumeral_intText follows_nil n
  rw [List.append_nil, ht] at hm
  cases hm

theorem floatText_ne_of_finite (hx : x.isFinite) (ht : readNumeral t.toList = none) :
    floatText x ≠ t := by
  rintro rfl
  obtain ⟨m, hm, -⟩ := (outputLayout.text_numeral hx).read follows_nil
  rw [List.append_nil] at hm
  cases ht.symm.trans hm

theorem floatText_not_finite (hx : ¬ x.isFinite) : x.isNaN ∧ floatText x = "nan" ∨
    x = 1.0 / 0.0 ∧ floatText x = "inf" ∨ x = -1.0 / 0.0 ∧ floatText x = "-inf" :=
  outputLayout.text_of_not_finite hx

theorem floatText_word (hx : ¬ x.isFinite) : floatText x ∈ ["nan", "inf", "-inf"] := by
  rcases floatText_not_finite hx with ⟨-, h⟩ | ⟨-, h⟩ | ⟨-, h⟩ <;> simp [h]

theorem floatText_ne (ht : t ∈ ["None", "True", "False"]) : floatText x ≠ t := by
  by_cases hx : x.isFinite
  · exact floatText_ne_of_finite hx
      (words_no_numerals t (List.mem_append_left ["nan", "inf", "-inf"] ht))
  · rintro rfl
    have hd : ∀ t ∈ ["None", "True", "False"], t ∉ ["nan", "inf", "-inf"] := by decide
    exact hd _ ht (floatText_word hx)

theorem floatText_no_numeral (hx : ¬ x.isFinite) : readNumeral (floatText x).toList = none :=
  words_no_numerals _ (List.mem_append_right ["None", "True", "False"] (floatText_word hx))

theorem floatText_ne_intText : floatText x ≠ intText n := by
  by_cases hx : x.isFinite
  · intro h
    exact outputLayout.text_append_ne_intText hx n follows_nil follows_nil
      (congrArg (String.toList · ++ []) h)
  · exact (intText_ne (floatText_no_numeral hx)).symm

/-- The text of a float belongs to no other, but all NaNs have the same. -/
theorem eq_of_floatText (h : floatText x = floatText y) : x = y ∨ x.isNaN ∧ y.isNaN := by
  by_cases hx : x.isFinite
  · by_cases hy : y.isFinite
    · exact .inl (outputLayout.text_injective hx hy h)
    · exact absurd h (floatText_ne_of_finite hx (floatText_no_numeral hy))
  · by_cases hy : y.isFinite
    · exact absurd h.symm (floatText_ne_of_finite hy (floatText_no_numeral hx))
    · rcases floatText_not_finite hx with ⟨hnx, hx'⟩ | ⟨hix, hx'⟩ | ⟨hix, hx'⟩ <;>
        rcases floatText_not_finite hy with ⟨hny, hy'⟩ | ⟨hiy, hy'⟩ | ⟨hiy, hy'⟩ <;>
        have hw := hx'.symm.trans (h.trans hy')
      case inl.inl => exact .inr ⟨hnx, hny⟩
      case inr.inl.inr.inl => exact .inl (hix.trans hiy.symm)
      case inr.inr.inr.inr => exact .inl (hix.trans hiy.symm)
      all_goals exact absurd hw (by decide)

theorem equal_float (h : floatText x = floatText y) :
    Document.equal (.float x) (.float y) := by
  rw [Document.equal, Bool.or_eq_true, Bool.and_eq_true]
  rcases eq_of_floatText h with rfl | hn
  · by_cases hx : x.isNaN
    · exact .inr ⟨hx, hx⟩
    · exact .inl ((beq_float_self x).2 hx)
  · exact .inr hn

def IsWord (k : Document) : Prop := k = .null ∨ ∃ b, k = .bool b

theorem IsTyped.cases {k : Document} (hk : IsTyped k) :
    IsWord k ∨ (∃ n : Int64, k = .int n.toInt) ∨ ∃ x, k = .float x := by
  cases k with
  | null => exact .inl (.inl rfl)
  | bool b => exact .inl (.inr ⟨b, rfl⟩)
  | int i =>
    obtain ⟨n, hn⟩ := Option.isSome_iff_exists.1 hk
    exact .inr (.inl ⟨n, congrArg Document.int (Value.toInt_of_int64? hn).symm⟩)
  | float x => exact .inr (.inr ⟨x, rfl⟩)
  | _ => cases hk

theorem nameOf_word {k : Document} (hk : IsWord k) :
    ∃ t ∈ ["None", "True", "False"], nameOf k = .ok t := by
  rcases hk with rfl | ⟨b, rfl⟩
  · exact ⟨"None", by simp, rfl⟩
  · cases b with
    | true => exact ⟨"True", by simp, rfl⟩
    | false => exact ⟨"False", by simp, rfl⟩

theorem nameOf_int (n : Int64) : nameOf (.int n.toInt) = .ok (intText n) := by
  rw [nameOf, valueOf, Value.ofInt_toInt]
  rfl

theorem nameOf_float (x : Float) : nameOf (.float x) = .ok (floatText x) := rfl

theorem equal_of_words {k l : Document} (hk : IsWord k) (hl : IsWord l)
    (h : nameOf k = nameOf l) : Document.equal k l := by
  have hname (t u : String) (h : Except.ok t = (Except.ok u : Except Kind String)) : t = u :=
    Except.ok.inj h
  rcases hk with rfl | ⟨b, rfl⟩ <;> rcases hl with rfl | ⟨c, rfl⟩
  · rfl
  · cases c <;> exact absurd (hname _ _ h) (by decide)
  · cases b <;> exact absurd (hname _ _ h) (by decide)
  · cases b <;> cases c <;> first | rfl | exact absurd (hname _ _ h) (by decide)

theorem word_ne_number {k l : Document} (hk : IsWord k)
    (hl : (∃ n : Int64, l = .int n.toInt) ∨ ∃ x, l = .float x) : nameOf k ≠ nameOf l := by
  obtain ⟨t, ht, hname⟩ := nameOf_word hk
  rw [hname]
  rcases hl with ⟨n, rfl⟩ | ⟨x, rfl⟩
  · rw [nameOf_int]
    have hw := words_no_numerals t (List.mem_append_left ["nan", "inf", "-inf"] ht)
    exact fun h => intText_ne hw (Except.ok.inj h).symm
  · rw [nameOf_float]
    exact fun h => floatText_ne ht (Except.ok.inj h).symm

/-- Typed keys with the same name are equal as keys. -/
theorem equal_of_names {k l : Document} (hk : IsTyped k) (hl : IsTyped l)
    (h : nameOf k = nameOf l) : Document.equal k l := by
  rcases hk.cases with hk | hk
  · rcases hl.cases with hl | hl
    · exact equal_of_words hk hl h
    · exact absurd h (word_ne_number hk hl)
  · rcases hl.cases with hl | hl
    · exact absurd h.symm (word_ne_number hl hk)
    · rcases hk with ⟨m, rfl⟩ | ⟨x, rfl⟩ <;> rcases hl with ⟨n, rfl⟩ | ⟨y, rfl⟩ <;>
        simp only [nameOf_int, nameOf_float, Except.ok.injEq] at h
      · have hmn := Json.intText_append_inj follows_nil follows_nil
          (congrArg (String.toList · ++ []) h)
        rw [hmn.1]
        exact beq_self_eq_true n.toInt
      · exact absurd h.symm floatText_ne_intText
      · exact absurd h floatText_ne_intText
      · exact equal_float h

theorem namesDiffer_of_plainKeys (hp : PlainKeys entries)
    (h : entries.Pairwise fun e later => Document.equal later.1 e.1 = false) :
    NamesDiffer entries := by
  refine h.imp_of_mem fun {e later} he hlater hne hname => ?_
  rcases hp with hp | hp
  · obtain ⟨s, hs⟩ := hp e he
    obtain ⟨t, ht⟩ := hp later hlater
    rw [hs, ht] at hne hname
    cases hname
    simp [Document.equal] at hne
  · have heq := equal_of_names (hp later hlater) (hp e he) hname
    rw [hne] at heq
    cases heq

end Stencil.Store
