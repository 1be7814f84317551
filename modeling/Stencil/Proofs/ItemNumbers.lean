import Mathlib
import Stencil.Proofs.Attributes
import Stencil.Proofs.Integers
import Stencil.Proofs.PathPrefixes

/-! Items by their numbers. A number counts from the front or from the end, and one that counts too
far finds nothing. Its decimal text after a dot or in quotes is the same number. -/
namespace Stencil

namespace Render

variable {items : List Value} {n : Int64}

theorem toInt_neg_iff : n < 0 ↔ n.toInt < 0 := by
  rw [Int64.lt_iff_toInt_lt, Int64.toInt_zero]

theorem item?_front {i : Nat} (h : n.toInt = i) : item? items n = items[i]? := by
  have hn : ¬ n < 0 := by
    rw [toInt_neg_iff]
    omega
  have hi : ¬ (i : Int) < 0 := by omega
  simp [item?, hn, h, hi]

theorem item?_back {i : Nat} (h : n.toInt = i - items.length) (hl : i < items.length) :
    item? items n = items[i]? := by
  have hn : n < 0 := by
    rw [toInt_neg_iff]
    omega
  have hs : (items.length : Int) + n.toInt = i := by omega
  have hi : ¬ (i : Int) < 0 := by omega
  simp [item?, hn, hs, hi]

theorem item?_beyond (h : n.toInt < -items.length ∨ items.length ≤ n.toInt) :
    item? items n = none := by
  rcases h with h | h
  · have hn : n < 0 := by
      rw [toInt_neg_iff]
      omega
    have hs : (items.length : Int) + n.toInt < 0 := by omega
    simp [item?, hn, hs]
  · have hn : ¬ n < 0 := by
      rw [toInt_neg_iff]
      omega
    simp only [item?, if_neg hn]
    rw [if_neg (by omega), List.getElem?_eq_none (by omega)]

/-- The same item in arithmetic of 64 bits, where a sum might wrap around. -/
def wordItem? (items : List Value) (n : Int64) : Option Value :=
  let i := if n < 0 then Int64.ofNat items.length + n else n
  if i < 0 then none else items[i.toInt.toNat]?

/-- The sum of a length and a negative number does not leave the range. -/
theorem toInt_length_add (hl : items.length < 2 ^ 63) (hn : n < 0) :
    (Int64.ofNat items.length + n).toInt = items.length + n.toInt := by
  have hlow := n.le_toInt
  have hneg := toInt_neg_iff.1 hn
  rw [Int64.toInt_add, Int64.toInt_ofNat_of_lt hl]
  exact Int.bmod_eq_of_le (by omega) (by omega)

theorem wordItem?_eq (hl : items.length < 2 ^ 63) : wordItem? items n = item? items n := by
  have hi : (if n < 0 then Int64.ofNat items.length + n else n).toInt =
      if n < 0 then items.length + n.toInt else n.toInt := by
    split
    · next hn => exact toInt_length_add hl hn
    · rfl
  simp only [wordItem?, item?, toInt_neg_iff (n := ite _ _ _), hi]

theorem lookup?_decimal (v : Value) (n : Int64) :
    lookup? v (.key (Value.intText n)) = lookup? v (.index n) := by
  cases v with
  | seq items => rw [lookup?, lookup?, Value.intText, Value.integer?_toString, Option.bind_some]
  | map entries => rfl
  | _ => rfl

/-- A number and its decimal text lead to the same value or to none. -/
theorem resolve_decimal (env : Env) (path : Template.Path) (n : Int64) (u : Value) :
    resolve env (path.further [.key (Value.intText n)]) = .ok u ↔
      resolve env (path.further [.index n]) = .ok u := by
  have hstep (v : Value) : step v (.key (Value.intText n)) = step v (.index n) :=
    congrArg Except.ok (lookup?_decimal v n)
  have hl (v : Value) : Leads v [.key (Value.intText n)] u ↔ Leads v [.index n] u := by
    constructor <;> rintro (_ | ⟨hs, hr⟩)
    · exact .next ((hstep v).symm.trans hs) hr
    · exact .next ((hstep v).trans hs) hr
  rw [resolve_further, resolve_further]
  cases resolve env path with
  | error e => rfl
  | ok v => exact follow_ok.trans ((hl v).trans follow_ok.symm)

end Render

namespace Template

open Value (intText)

variable {p : String} {path : Path}

theorem spelling_int (n : Int64) : Spelling (.int n) (intText n).toList := by
  have hd (m : Nat) : AreDigits (Nat.toDigits 10 m) :=
    ⟨Nat.toDigits_ne_nil, fun _ => Value.isDigit_of_toDigits⟩
  rcases Value.toList_toString n.toInt with ⟨m, hn, hs⟩ | ⟨m, -, hn, hs⟩
  · have hs' : (intText n).toList = minus false ++ Nat.toDigits 10 m := hs
    rw [hs']
    exact .int (hd m) (Value.ofDigits?_toDigits hn)
  · have hs' : (intText n).toList = minus true ++ Nat.toDigits 10 m := hs
    rw [hs']
    exact .int (hd m) (Value.ofDigits?_toDigits hn)

theorem quoted_int (n : Int64) : Quoted '\'' (intText n).toList (intText n).toList := by
  have hq : ∀ c ∈ (intText n).toList, c ≠ '\'' ∧ c ≠ '\\' := by
    intro c hc
    have hd : c = '-' ∨ c.isDigit := by
      rcases Value.toList_toString n.toInt with ⟨m, -, hs⟩ | ⟨m, -, -, hs⟩
      · rw [intText, hs] at hc
        exact .inr (Value.isDigit_of_toDigits hc)
      · rw [intText, hs, List.mem_cons] at hc
        exact hc.imp_right Value.isDigit_of_toDigits
    constructor <;> rintro rfl <;> exact absurd hd (by decide)
  generalize (intText n).toList = cs at hq
  induction cs with
  | nil => exact .nil
  | cons c cs ih =>
    obtain ⟨hc, hr⟩ := List.forall_mem_cons.1 hq
    exact .char hc.1 hc.2 (ih hr)

theorem IsPath.number (h : IsPath p path) (n : Int64) :
    IsPath (p ++ "." ++ intText n) (path.further [.index n]) := by
  have hs : SpelledOut [.dot, .int n] ("." ++ intText n).toList := by
    have hs := SpelledOut.lexeme .dot (.lexeme (spelling_int n) spelledOut_nil)
    simpa using hs
  rw [String.append_assoc]
  exact h.append (.number n .done) hs

theorem IsPath.index (h : IsPath p path) (n : Int64) :
    IsPath (p ++ "[" ++ intText n ++ "]") (path.further [.index n]) := by
  have hs : SpelledOut [.leftBracket, .int n, .rightBracket] ("[" ++ intText n ++ "]").toList := by
    have hs := SpelledOut.lexeme .leftBracket
      (.lexeme (spelling_int n) (.lexeme .rightBracket spelledOut_nil))
    simpa using hs
  have he : p ++ "[" ++ intText n ++ "]" = p ++ ("[" ++ intText n ++ "]") := by
    simp only [String.append_assoc]
  rw [he]
  exact h.append (.index n .done) hs

end Template

namespace Render

open Template (Options IsPath ofSource outputTag)
open Value (intText)

/-- A number finds one and the same item in brackets, after a dot, and in quotes: of a sequence the
item that it counts to from the front or from the end, if there is one, of a map the entry under its
decimal text. Words of 64 bits hold every sum on the way. -/
theorem item_by_number (v : Value) (n : Int64) :
    lookup? v (.index n) = lookup? v (.key (intText n)) ∧
    (∀ items, v = .seq items →
      (∀ i (_ : i < items.length), n.toInt = i → lookup? v (.index n) = some items[i]) ∧
      (∀ i (_ : i < items.length), n.toInt = i - items.length →
        lookup? v (.index n) = some items[i]) ∧
      (n.toInt < -items.length ∨ items.length ≤ n.toInt → lookup? v (.index n) = none) ∧
      (items.length < 2 ^ 63 → lookup? v (.index n) = wordItem? items n ∧
        (n < 0 → (Int64.ofNat items.length + n).toInt = items.length + n.toInt))) ∧
    (∀ entries, v = .map entries → lookup? v (.index n) = Entries.get? entries (intText n)) ∧
    (v.kind ≠ .sequence → v.kind ≠ .mapping → lookup? v (.index n) = none) ∧
    ∀ (o : Options) (p : String) (path : Template.Path), IsPath p path →
      ofSource o (outputTag (p ++ "[" ++ intText n ++ "]")) =
        .ok ⟨[.output (.path (path.further [.index n]))]⟩ ∧
      ofSource o (outputTag (p ++ "." ++ intText n)) =
        .ok ⟨[.output (.path (path.further [.index n]))]⟩ ∧
      ofSource o (outputTag (p ++ "['" ++ intText n ++ "']")) =
        .ok ⟨[.output (.path (path.further [.key (intText n)]))]⟩ ∧
      ∀ env u, resolve env (path.further [.key (intText n)]) = .ok u ↔
        resolve env (path.further [.index n]) = .ok u := by
  refine ⟨(lookup?_decimal v n).symm, ?_, ?_, ?_, ?_⟩
  · rintro items rfl
    refine ⟨fun i hi h => ?_, fun i hi h => ?_, item?_beyond, fun hl => ?_⟩
    · exact (item?_front h).trans (List.getElem?_eq_getElem hi)
    · exact (item?_back h hi).trans (List.getElem?_eq_getElem hi)
    · exact ⟨(wordItem?_eq hl).symm, toInt_length_add hl⟩
  · rintro entries rfl
    rfl
  · intro hs hm
    cases v with
    | seq items => exact absurd rfl hs
    | map entries => exact absurd rfl hm
    | _ => rfl
  · intro o p path hp
    exact ⟨Template.ofSource_path o (hp.index n), Template.ofSource_path o (hp.number n),
      Template.ofSource_path o (hp.quoted (Template.quoted_int n)),
      fun env u => resolve_decimal env path n u⟩

theorem item_by_number_last :
    (-1 : Int64).toInt = (1 : Nat) - ([.int 5, .int 6] : List Value).length ∧ IsPath "a" ⟨"a", []⟩ ∧
    lookup? (.seq [.int 5, .int 6]) (.index (-1)) = some (.int 6) ∧
    lookup? (.seq [.int 5, .int 6]) (.key "-1") = some (.int 6) ∧
    lookup? (.seq [.int 5, .int 6]) (.index (-3)) = none ∧
    wordItem? [.int 5, .int 6] (-1) = some (.int 6) ∧
    ofSource ⟨true, true⟩ "\x7b\x7b a.-1 \x7d\x7d" =
      .ok ⟨[.output (.path ⟨"a", [.index (-1)]⟩)]⟩ := by
  have hp : IsPath "a" ⟨"a", []⟩ := Template.isPath_root "a" (by decide) (by decide)
  obtain ⟨hk, hs, -, -, hsource⟩ := item_by_number (.seq [.int 5, .int 6]) (-1)
  have hi : (-1 : Int64).toInt = (1 : Nat) - ([.int 5, .int 6] : List Value).length := by decide
  have hlast := (hs _ rfl).2.1 1 (by decide) hi
  have hfar := (item_by_number (.seq [.int 5, .int 6]) (-3)).2.1 _ rfl
  have hword := ((hs _ rfl).2.2.2 (by decide)).1
  exact ⟨hi, hp, hlast, hk.symm.trans hlast, hfar.2.2.1 (.inl (by decide)),
    hword.symm.trans hlast, (hsource ⟨true, true⟩ "a" _ hp).2.1⟩

end Render
end Stencil
