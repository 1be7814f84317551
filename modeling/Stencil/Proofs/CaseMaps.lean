import Mathlib
import Stencil.Unicode.Casing

/-! What a case map does to its own images. Letters are moved to where no run or sequence of the
same map reaches, as one closed check over the letters of each table decides. -/
namespace Stencil.Unicode

def IsLower (c : Char) : Prop := toLower c = [c]
  deriving Decidable

def IsUpper (c : Char) : Prop := toUpper c = [c]
  deriving Decidable

theorem CaseMap.image_cases (m : CaseMap) (c : Char) :
    (∃ ns, (c.toNat, ns) ∈ m.sequences ∧ m.image c = ns.map Char.ofNat) ∨
    (∃ r ∈ m.runs, r.covers c.toNat ∧ m.image c = [Char.ofNat (c.toNat + r.shift).toNat]) ∨
    m.image c = [c] := by
  unfold CaseMap.image
  cases hs : m.sequences.lookup c.toNat with
  | some ns =>
    obtain ⟨before, after, h, -⟩ := List.lookup_eq_some_iff.mp hs
    exact .inl ⟨ns, by simp [h], rfl⟩
  | none =>
    cases hr : m.runs.find? (·.covers c.toNat) with
    | some r =>
      have hc : r.covers c.toNat := by simpa using List.find?_some hr
      exact .inr (.inl ⟨r, List.mem_of_find?_eq_some hr, hc, rfl⟩)
    | none => exact .inr (.inr rfl)

def bits : List Nat → Nat
  | [] => 0
  | n :: ns => 1 <<< n ||| bits ns

theorem testBit_bits {ns : List Nat} {n : Nat} : (bits ns).testBit n ↔ n ∈ ns := by
  induction ns with
  | nil => simp [bits]
  | cons k ns ih =>
    rw [bits, Nat.testBit_or, Nat.one_shiftLeft, Nat.testBit_two_pow, Bool.or_eq_true, ih,
      decide_eq_true_iff, List.mem_cons, eq_comm]

def CaseRun.letters (r : CaseRun) : List Nat :=
  List.range' r.first ((r.last - r.first) / r.step + 1) r.step

theorem CaseRun.mem_letters {r : CaseRun} {n : Nat} (h : r.covers n) : n ∈ r.letters := by
  simp only [covers, Bool.and_eq_true, decide_eq_true_iff, beq_iff_eq] at h
  obtain ⟨⟨hfirst, hlast⟩, hstep⟩ := h
  have hle : (n - r.first) / r.step ≤ (r.last - r.first) / r.step :=
    Nat.div_le_div_right (Nat.sub_le_sub_right hlast _)
  have hn : r.step * ((n - r.first) / r.step) = n - r.first :=
    Nat.mul_div_cancel' (Nat.dvd_of_mod_eq_zero hstep)
  exact List.mem_range'.2 ⟨_, Nat.lt_succ_of_le hle, by omega⟩

/-- The code points that a map may move, as the bits of one number. -/
def CaseMap.domain (m : CaseMap) : Nat :=
  m.runs.foldr (fun r b => bits r.letters ||| b) (bits (m.sequences.map Prod.fst))

theorem CaseMap.testBit_domain {m : CaseMap} {n : Nat} : m.domain.testBit n ↔
    (∃ r ∈ m.runs, n ∈ r.letters) ∨ n ∈ m.sequences.map Prod.fst := by
  unfold domain
  induction m.runs with
  | nil => simp [testBit_bits]
  | cons r rs ih =>
    rw [List.foldr_cons, Nat.testBit_or, Bool.or_eq_true, ih, testBit_bits,
      List.exists_mem_cons_iff, or_assoc]

theorem CaseMap.image_of_domain {m : CaseMap} {c : Char} (h : ¬ m.domain.testBit c.toNat) :
    m.image c = [c] := by
  rw [testBit_domain, not_or] at h
  rcases m.image_cases c with ⟨ns, hns, -⟩ | ⟨r, hmem, hc, -⟩ | h'
  · exact absurd (List.mem_map_of_mem (f := Prod.fst) hns) h.2
  · exact absurd ⟨r, hmem, CaseRun.mem_letters hc⟩ h.1
  · exact h'

/-- A code point above ASCII that is a character and stays where it is. -/
def CaseMap.leaves (m : CaseMap) (n : Nat) : Bool :=
  Nat.ble 0x80 n && Nat.beq (Char.ofNat n).toNat n && !m.domain.testBit n

theorem CaseMap.image_of_leaves {m : CaseMap} {n : Nat} (h : m.leaves n) :
    0x80 ≤ (Char.ofNat n).toNat ∧ m.image (Char.ofNat n) = [Char.ofNat n] := by
  simp only [leaves, Bool.and_eq_true, Nat.ble_eq, Nat.beq_eq, Bool.not_eq_true'] at h
  obtain ⟨⟨habove, hc⟩, hd⟩ := h
  exact ⟨hc.symm ▸ habove, image_of_domain (by simp [hc, hd])⟩

theorem CaseMap.settled {m : CaseMap} {f : Char → List Char}
    (hf : ∀ c, 0x80 ≤ c.toNat → f c = m.image c) {n : Nat}
    (h : m.leaves n ∨ f (Char.ofNat n) = [Char.ofNat n]) :
    f (Char.ofNat n) = [Char.ofNat n] := by
  rcases h with h | h
  · obtain ⟨ha, hi⟩ := image_of_leaves h
    rw [hf _ ha, hi]
  · exact h

/-- Above ASCII a map gives a sequence, or one character that it leaves alone. -/
theorem CaseMap.image_settled {m : CaseMap} {f : Char → List Char}
    (hf : ∀ c, 0x80 ≤ c.toNat → f c = m.image c)
    (hr : ∀ r ∈ m.runs, ∀ n ∈ r.letters, m.leaves (n + r.shift).toNat ∨
      f (Char.ofNat (n + r.shift).toNat) = [Char.ofNat (n + r.shift).toNat])
    {c : Char} (hc : 0x80 ≤ c.toNat) :
    (∃ ns, (c.toNat, ns) ∈ m.sequences ∧ f c = ns.map Char.ofNat) ∨
      ∃ d, f c = [d] ∧ f d = [d] := by
  rw [hf c hc]
  rcases m.image_cases c with h | ⟨r, hmem, hcov, h⟩ | h
  · exact .inl h
  · exact .inr ⟨_, h, settled hf (hr r hmem _ (CaseRun.mem_letters hcov))⟩
  · exact .inr ⟨c, h, by rw [hf c hc, h]⟩

theorem toLower_above {c : Char} (h : 0x80 ≤ c.toNat) : toLower c = lowerMap.image c :=
  if_neg (by omega)

theorem toUpper_above {c : Char} (h : 0x80 ≤ c.toNat) : toUpper c = upperMap.image c :=
  if_neg (by omega)

theorem forall_ascii {P : Char → Prop} (h : ∀ n < 0x80, P (Char.ofNat n)) {c : Char}
    (hc : c.toNat < 0x80) : P c := by
  simpa using h c.toNat hc

theorem ascii_settles : ∀ n < 0x80,
    IsLower (Char.ofNat n).toLower ∧ IsUpper (Char.ofNat n).toUpper := by
  decide +kernel

theorem toLower_ascii {c : Char} (h : c.toNat < 0x80) :
    toLower c = [c.toLower] ∧ IsLower c.toLower :=
  ⟨if_pos h, forall_ascii (P := fun c => IsLower c.toLower) (fun n hn => (ascii_settles n hn).1) h⟩

theorem toUpper_ascii {c : Char} (h : c.toNat < 0x80) :
    toUpper c = [c.toUpper] ∧ IsUpper c.toUpper :=
  ⟨if_pos h, forall_ascii (P := fun c => IsUpper c.toUpper) (fun n hn => (ascii_settles n hn).2) h⟩

/-- The one letter above ASCII with an ASCII lower case is the kelvin sign, and the dotted capital I
alone has two characters as its lower case. -/
theorem lower_table :
    (∀ r ∈ lowerMap.runs, ∀ n ∈ r.letters,
      lowerMap.leaves (n + r.shift).toNat ∨ IsLower (Char.ofNat (n + r.shift).toNat)) ∧
    (∀ s ∈ lowerMap.sequences, s.2.map Char.ofNat = ['i', '\u0307']) ∧
    IsLower 'i' ∧ IsLower '\u0307' := by
  decide +kernel

/-- The two letters above ASCII with an ASCII upper case are the dotless i and the long s. -/
theorem upper_table :
    (∀ r ∈ upperMap.runs, ∀ n ∈ r.letters,
      upperMap.leaves (n + r.shift).toNat ∨ IsUpper (Char.ofNat (n + r.shift).toNat)) ∧
    ∀ s ∈ upperMap.sequences, s.2 ≠ [] ∧
      ∀ n ∈ s.2.head?, upperMap.leaves n ∨ IsUpper (Char.ofNat n) := by
  decide +kernel

theorem toLower_cases (c : Char) :
    toLower c = ['i', '\u0307'] ∨ ∃ d, toLower c = [d] ∧ IsLower d := by
  by_cases h : c.toNat < 0x80
  · exact .inr ⟨_, toLower_ascii h⟩
  · rcases CaseMap.image_settled (fun _ => toLower_above) lower_table.1
      (Nat.le_of_not_lt h) with ⟨ns, hmem, hi⟩ | h
    · exact .inl (hi.trans (lower_table.2.1 _ hmem))
    · exact .inr h

theorem toUpper_cases (c : Char) :
    (∃ s ∈ upperMap.sequences, toUpper c = s.2.map Char.ofNat) ∨
      ∃ u, toUpper c = [u] ∧ IsUpper u := by
  by_cases h : c.toNat < 0x80
  · exact .inr ⟨_, toUpper_ascii h⟩
  · rcases CaseMap.image_settled (fun _ => toUpper_above) upper_table.1
      (Nat.le_of_not_lt h) with ⟨ns, hmem, hi⟩ | h
    · exact .inl ⟨_, hmem, hi⟩
    · exact .inr h

theorem isLower_of_mem {c d : Char} (h : d ∈ toLower c) : IsLower d := by
  rcases toLower_cases c with hc | ⟨e, hc, he⟩
  · rw [hc, List.mem_pair] at h
    rcases h with rfl | rfl
    · exact lower_table.2.2.1
    · exact lower_table.2.2.2
  · rw [hc, List.mem_singleton] at h
    exact h ▸ he

theorem isUpper_of_head {c u : Char} (h : u ∈ (toUpper c).head?) : IsUpper u := by
  rcases toUpper_cases c with ⟨s, hs, hc⟩ | ⟨e, hc, he⟩
  · rw [hc, List.head?_map, Option.mem_def, Option.map_eq_some_iff] at h
    obtain ⟨n, hn, rfl⟩ := h
    exact CaseMap.settled (fun _ => toUpper_above) ((upper_table.2 s hs).2 n hn)
  · rw [hc, List.head?_cons, Option.mem_some_iff] at h
    exact h ▸ he

theorem toLower_ne_nil (c : Char) : toLower c ≠ [] := by
  rcases toLower_cases c with hc | ⟨e, hc, -⟩ <;> simp [hc]

theorem toUpper_ne_nil (c : Char) : toUpper c ≠ [] := by
  rcases toUpper_cases c with ⟨s, hs, hc⟩ | ⟨e, hc, -⟩
  · simp [hc, (upper_table.2 s hs).1]
  · simp [hc]

end Stencil.Unicode
