import Stencil.Json.Read
import Stencil.Json.Write
import Stencil.Proofs.Integers

/-! Numerals and their texts. A numeral is read back from its text as far as it goes, and an integer
is written as one without a point and an exponent. -/
namespace Stencil.Json

variable {rest ds : List Char}

def Follows (rest : List Char) : Prop := ∀ c ∈ rest.head?, c ∈ [',', ']', '}']

theorem follows_cons (h : c ∈ [',', ']', '}']) (cs : List Char) : Follows (c :: cs) := by
  intro d hd
  cases hd
  exact h

theorem follows_nil : Follows [] := fun _ hc => nomatch hc

theorem Follows.no_digit (h : Follows rest) : rest.head?.any Char.isDigit = false := by
  cases rest with
  | nil => rfl
  | cons c rest =>
    have hd : ∀ c ∈ [',', ']', '}'], c.isDigit = false := by simp
    exact hd c (h c rfl)

theorem readFraction_none (h : Follows rest) : readFraction rest = some (none, rest) := by
  cases rest with
  | nil => rfl
  | cons c rest =>
    have hc : c ≠ '.' := by
      rintro rfl
      exact absurd (h '.' rfl) (by decide)
    rw [readFraction.eq_2 _ fun _ he => hc (List.cons.inj he).1]

theorem readPower_none (h : Follows rest) : readPower rest = some (none, rest) := by
  cases rest with
  | nil => rfl
  | cons c rest =>
    have hc : ∀ c ∈ [',', ']', '}'], (c = 'e' || c = 'E') = false := by simp
    rw [readPower, hc c (h c rfl)]
    rfl

def Digits (ds : List Char) : Prop := ds ≠ [] ∧ ∀ c ∈ ds, c.isDigit

theorem Digits.append {es : List Char} (h : Digits ds) (he : ∀ c ∈ es, c.isDigit) :
    Digits (ds ++ es) :=
  ⟨List.append_ne_nil_of_left_ne_nil h.1 es, List.forall_mem_append.2 ⟨h.2, he⟩⟩

theorem Digits.toDigits (n : Nat) : Digits (Nat.toDigits 10 n) :=
  ⟨Nat.toDigits_ne_nil, fun _ => Value.isDigit_of_toDigits⟩

theorem Digits.starts (h : Digits ds) (cs : List Char) : (ds ++ cs).head?.any Char.isDigit := by
  obtain ⟨c, ds, rfl⟩ := List.exists_cons_of_ne_nil h.1
  exact h.2 c List.mem_cons_self

theorem span_digits (hd : ∀ c ∈ ds, c.isDigit) (hr : rest.head?.any Char.isDigit = false) :
    (ds ++ rest).takeWhile Char.isDigit = ds ∧ (ds ++ rest).dropWhile Char.isDigit = rest := by
  refine span_stop hd fun c hc => ?_
  rwa [Option.mem_def.1 hc] at hr

namespace Numeral

def signChars (negative : Bool) : List Char := if negative then ['-'] else []

def fractionChars : Option (List Char) → List Char
  | none => []
  | some ds => '.' :: ds

def powerChars (plus : Bool) : Option (Bool × List Char) → List Char
  | none => []
  | some (down, ds) => 'e' :: (if down then ['-'] else if plus then ['+'] else []) ++ ds

def chars (plus : Bool) (m : Numeral) : List Char :=
  signChars m.negative ++ (m.whole ++ (fractionChars m.fraction ++ powerChars plus m.power))

structure WellFormed (m : Numeral) : Prop where
  whole : Digits m.whole
  leading : ∀ cs, m.whole = '0' :: cs → cs = []
  fraction : ∀ ds ∈ m.fraction, Digits ds
  power : ∀ p ∈ m.power, Digits p.2

end Numeral

theorem readWhole_digits (h : Digits ds) (hz : ∀ cs, ds = '0' :: cs → cs = [])
    (hr : rest.head?.any Char.isDigit = false) : readWhole (ds ++ rest) = some (ds, rest) := by
  obtain ⟨c, cs, rfl⟩ := List.exists_cons_of_ne_nil h.1
  by_cases hc : c = '0'
  · subst hc
    obtain rfl := hz cs rfl
    rw [List.cons_append, List.nil_append, readWhole, hr]
    rfl
  · obtain ⟨ht, hd⟩ := span_digits h.2 hr
    have hs := h.starts rest
    rw [List.cons_append] at ht hd hs ⊢
    rw [readWhole.eq_2 _ fun _ he => hc (List.cons.inj he).1, if_pos hs, ht, hd]

theorem readFraction_digits (h : Digits ds) (hr : rest.head?.any Char.isDigit = false) :
    readFraction ('.' :: (ds ++ rest)) = some (some ds, rest) := by
  obtain ⟨ht, hd⟩ := span_digits h.2 hr
  rw [readFraction, if_pos (h.starts rest), ht, hd]

theorem readSign_digits (h : Digits ds) (rest : List Char) :
    readSign (ds ++ rest) = (false, ds ++ rest) := by
  obtain ⟨c, ds, rfl⟩ := List.exists_cons_of_ne_nil h.1
  have hc : c.isDigit := h.2 c List.mem_cons_self
  rw [List.cons_append]
  unfold readSign
  split
  · next he =>
    cases he
    exact absurd hc (by decide)
  · next he =>
    cases he
    exact absurd hc (by decide)
  · rfl

theorem readPower_digits (h : Digits ds) (hr : rest.head?.any Char.isDigit = false)
    (plus down : Bool) : readPower (Numeral.powerChars plus (some (down, ds)) ++ rest) =
      some (some (down, ds), rest) := by
  obtain ⟨ht, hd⟩ := span_digits h.2 hr
  have hs : readSign ((if down then ['-'] else if plus then ['+'] else []) ++ (ds ++ rest)) =
      (down, ds ++ rest) := by
    cases down with
    | true => rfl
    | false =>
      cases plus with
      | true => rfl
      | false => exact readSign_digits h rest
  have hp : Numeral.powerChars plus (some (down, ds)) ++ rest =
      'e' :: ((if down then ['-'] else if plus then ['+'] else []) ++ (ds ++ rest)) := by
    simp [Numeral.powerChars]
  have hstarts := h.starts rest
  simp only [hp, readPower, hs, hstarts, ht, hd]
  rfl

/-- A numeral is read back from its text, with what follows left over. -/
theorem readNumeral_chars {m : Numeral} (h : m.WellFormed) (plus : Bool) (hr : Follows rest) :
    readNumeral (m.chars plus ++ rest) = some (m, rest) := by
  obtain ⟨negative, whole, fraction, power⟩ := m
  obtain ⟨hw, hz, hf, hp⟩ := h
  dsimp only at hw hz hf hp
  have hpower : readPower (Numeral.powerChars plus power ++ rest) = some (power, rest) := by
    cases power with
    | none => exact readPower_none hr
    | some p => exact readPower_digits (hp p rfl) hr.no_digit plus p.1
  have hpower' : (Numeral.powerChars plus power ++ rest).head?.any Char.isDigit = false := by
    cases power with
    | none => exact hr.no_digit
    | some p => rfl
  have hfraction : readFraction (Numeral.fractionChars fraction ++
      (Numeral.powerChars plus power ++ rest)) =
        some (fraction, Numeral.powerChars plus power ++ rest) := by
    cases fraction with
    | none =>
      cases power with
      | none => exact readFraction_none hr
      | some p => rfl
    | some ds => exact readFraction_digits (hf ds rfl) hpower'
  have hfraction' : (Numeral.fractionChars fraction ++
      (Numeral.powerChars plus power ++ rest)).head?.any Char.isDigit = false := by
    cases fraction with
    | none => exact hpower'
    | some ds => rfl
  have hwhole := readWhole_digits hw hz hfraction'
  simp only [Numeral.chars, List.append_assoc]
  cases negative with
  | true => simp [Numeral.signChars, readNumeral, hwhole, hfraction, hpower]
  | false =>
    obtain ⟨c, cs, rfl⟩ := List.exists_cons_of_ne_nil hw.1
    have hc : c ≠ '-' := by
      rintro rfl
      exact absurd (hw.2 '-' List.mem_cons_self) (by decide)
    rw [List.cons_append] at hwhole
    simp [Numeral.signChars, readNumeral, hc, hwhole, hfraction, hpower]

theorem Numeral.WellFormed.starts {m : Numeral} (h : m.WellFormed) (plus : Bool) :
    ∃ c cs, m.chars plus = c :: cs ∧ (c = '-' ∨ c.isDigit) := by
  rw [Numeral.chars, Numeral.signChars]
  split
  · exact ⟨'-', _, rfl, .inl rfl⟩
  · obtain ⟨c, ds, hc⟩ := List.exists_cons_of_ne_nil h.whole.1
    rw [hc]
    exact ⟨c, _, rfl, .inr (h.whole.2 c (hc ▸ List.mem_cons_self))⟩

/-- A number is not taken for a blank or for the end of an array. -/
theorem number_starts {c : Char} (h : c = '-' ∨ c.isDigit) : isBlank c = false ∧ c ≠ ']' := by
  constructor
  · rw [← Bool.not_eq_true]
    intro hb
    simp only [isBlank, Bool.or_eq_true, decide_eq_true_eq] at hb
    rcases hb with ((rfl | rfl) | rfl) | rfl <;> exact absurd h (by decide)
  · rintro rfl
    exact absurd h (by decide)

/-- A numeral with a point or an exponent is no integer. -/
theorem Numeral.value?_ne_int {m : Numeral} (h : ¬ (m.fraction = none ∧ m.power = none))
    (n : Int64) : m.value? ≠ some (.int n) := by
  intro hv
  have hfloat {o : Option Float} {f : Float → Float} :
      o.map (fun x => Value.float (f x)) ≠ some (.int n) := by
    cases o <;> nofun
  unfold Numeral.value? at hv
  dsimp only at hv
  split at hv
  · next hf hp => exact h ⟨hf, hp⟩
  · split at hv
    · exact hfloat hv
    · split at hv
      · split at hv <;> cases hv
      · exact hfloat hv

theorem le_ofDigitChars (ds : List Char) (n : Nat) : n ≤ Nat.ofDigitChars 10 ds n := by
  induction ds generalizing n with
  | nil => exact Nat.le_refl n
  | cons d ds ih =>
    rw [Nat.ofDigitChars_cons]
    have hn := ih (10 * n + (d.toNat - '0'.toNat))
    omega

/-- Digits that fit are all appended. -/
theorem appendDigits_eq {ds : List Char} {n : Nat}
    (h : Nat.ofDigitChars 10 ds n < UInt64.size) :
    appendDigits n ds = (Nat.ofDigitChars 10 ds n, 0) := by
  induction ds generalizing n with
  | nil => rfl
  | cons d ds ih =>
    rw [Nat.ofDigitChars_cons] at h ⊢
    have hl := le_ofDigitChars ds (10 * n + (d.toNat - '0'.toNat))
    have hc : n * 10 = 10 * n := Nat.mul_comm n 10
    rw [appendDigits, hc, if_pos (Nat.lt_of_le_of_lt hl h)]
    exact ih h

theorem value?_toDigits {n : Int64} {m : Nat} {negative : Bool}
    (h : n.toInt = if negative then -(m : Int) else m) (hm : negative → 0 < m) :
    Numeral.value? ⟨negative, Nat.toDigits 10 m, none, none⟩ = some (.int n) := by
  have hl : m < UInt64.size := by
    have hu : n.toInt < 2 ^ 63 := n.toInt_lt
    have hd : -2 ^ 63 ≤ n.toInt := n.le_toInt
    have hs : UInt64.size = 2 ^ 64 := rfl
    cases negative with
    | false =>
      have he : n.toInt = m := h
      omega
    | true =>
      have he : n.toInt = -(m : Int) := h
      omega
  have ha : appendDigits 0 (Nat.toDigits 10 m) = (m, 0) := by
    have hd : Nat.ofDigitChars 10 (Nat.toDigits 10 m) 0 = m := Nat.ofDigitChars_ten_toDigits
    rw [appendDigits_eq (by rwa [hd]), hd]
  have hv : Numeral.ofInteger negative m = .int n := by
    rw [Numeral.ofInteger]
    cases negative with
    | false =>
      have he : n.toInt = m := h
      rw [if_neg Bool.false_ne_true, ← he, Value.ofInt_toInt]
    | true =>
      have he : n.toInt = -(m : Int) := h
      rw [if_pos rfl, if_neg (Nat.ne_of_gt (hm rfl)), ← he, Value.ofInt_toInt]
  rw [Numeral.value?, ha]
  exact congrArg some hv

theorem wellFormed_toDigits (negative : Bool) (m : Nat) :
    Numeral.WellFormed ⟨negative, Nat.toDigits 10 m, none, none⟩ := by
  refine ⟨Digits.toDigits m, fun cs hcs => ?_, nofun, nofun⟩
  by_cases hm : 0 < m
  · obtain ⟨c, ds, hc, hz⟩ := Value.toDigits_head hm
    exact absurd (List.cons.inj (hc.symm.trans hcs)).1 hz
  · have h0 : m = 0 := by omega
    subst h0
    exact (List.cons.inj hcs).2.symm

theorem intText_numeral (n : Int64) : ∃ m : Numeral, m.WellFormed ∧
    (Value.intText n).toList = m.chars false ∧ m.value? = some (.int n) := by
  rcases Value.toList_toString n.toInt with ⟨m, hn, hs⟩ | ⟨m, hm, hn, hs⟩
  · refine ⟨_, wellFormed_toDigits false m, ?_, value?_toDigits hn nofun⟩
    rw [Value.intText, hs]
    simp [Numeral.chars, Numeral.signChars, Numeral.fractionChars, Numeral.powerChars]
  · refine ⟨_, wellFormed_toDigits true m, ?_, value?_toDigits hn fun _ => hm⟩
    rw [Value.intText, hs]
    simp [Numeral.chars, Numeral.signChars, Numeral.fractionChars, Numeral.powerChars]

theorem readNumeral_intText (h : Follows rest) (n : Int64) :
    ∃ m, readNumeral ((Value.intText n).toList ++ rest) = some (m, rest) ∧
      m.value? = some (.int n) := by
  obtain ⟨m, hm, ht, hv⟩ := intText_numeral n
  exact ⟨m, ht ▸ readNumeral_chars hm false h, hv⟩

theorem intText_append_inj {n k : Int64} {r s : List Char} (hr : Follows r) (hs : Follows s)
    (h : (Value.intText n).toList ++ r = (Value.intText k).toList ++ s) : n = k ∧ r = s := by
  obtain ⟨a, ha, hn⟩ := readNumeral_intText hr n
  obtain ⟨b, hb, hk⟩ := readNumeral_intText hs k
  rw [h, hb] at ha
  cases ha
  cases hn.symm.trans hk
  exact ⟨rfl, rfl⟩

theorem intText_starts (n : Int64) :
    ∃ c cs, (Value.intText n).toList = c :: cs ∧ (c = '-' ∨ c.isDigit) := by
  obtain ⟨m, hm, ht, -⟩ := intText_numeral n
  exact ht ▸ hm.starts false

end Stencil.Json
