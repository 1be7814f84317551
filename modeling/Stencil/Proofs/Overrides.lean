import Mathlib
import Stencil.Proofs.CommandRuns
import Stencil.Proofs.Integers

/-! Parameters that override others for one rendering. To override is to merge, and to merge is
associative, with the order of the names included. -/
namespace Stencil.Command

def Gives (text name value : String) : Prop :=
  text = name ++ "=" ++ value ∧ '=' ∉ name.toList

instance (text name value : String) : Decidable (Gives text name value) :=
  inferInstanceAs (Decidable (_ ∧ _))

def LastGiven (texts : List String) (name value : String) : Prop :=
  ∃ before text after, texts = before ++ text :: after ∧ Gives text name value ∧
    ∀ later ∈ after, ∀ v, ¬ Gives later name v

/-- Under each name `env` has what the last of the texts that gives it says, as a string, and what
`base` has if no text gives it. -/
structure Sees (base : Entries Value) (texts : List String) (env : Entries Value) : Prop where
  given : ∀ name value, LastGiven texts name value → Entries.get? env name = some (.string value)
  others : ∀ name, (∀ text ∈ texts, ∀ value, ¬ Gives text name value) →
    Entries.get? env name = Entries.get? base name

theorem span_gives {text name value : String} (h : Gives text name value) :
    text.toList.takeWhile (· ≠ '=') = name.toList ∧
      text.toList.dropWhile (· ≠ '=') = '=' :: value.toList := by
  obtain ⟨rfl, hn⟩ := h
  have ht : (name ++ "=" ++ value).toList = name.toList ++ '=' :: value.toList := by simp
  have hp : ∀ c ∈ name.toList, decide (c ≠ '=') = true := by
    intro c hc
    rw [decide_eq_true_eq]
    rintro rfl
    exact hn hc
  rw [ht]
  exact span_stop hp (by simp)

theorem readOverride_gives {text name value : String} (h : Gives text name value) :
    readOverride text = .ok (name, .string value) := by
  obtain ⟨ht, hd⟩ := span_gives h
  rw [readOverride, hd]
  dsimp only
  rw [ht, String.ofList_toList, String.ofList_toList]

theorem Gives.unique {text name value name' value' : String} (h : Gives text name value)
    (h' : Gives text name' value') : name = name' := by
  obtain ⟨ht, -⟩ := span_gives h
  obtain ⟨ht', -⟩ := span_gives h'
  exact String.toList_injective (ht.symm.trans ht')

theorem Sees.nil (base : Entries Value) : Sees base [] base where
  given := by
    rintro name value ⟨before, text, after, ht, -⟩
    cases before <;> cases ht
  others _ _ := rfl

/-- The first text writes into the base what the others may override. -/
theorem Sees.cons {base env : Entries Value} {text name value : String} {texts : List String}
    (hg : Gives text name value) (h : Sees (base.insert name (.string value)) texts env) :
    Sees base (text :: texts) env where
  given := by
    rintro key v ⟨before, last, after, ht, hl, ha⟩
    cases before with
    | nil =>
      obtain ⟨rfl, rfl⟩ := List.cons.inj ht
      have hk : name = key := hg.unique hl
      subst hk
      have hv := (readOverride_gives hg).symm.trans (readOverride_gives hl)
      rw [h.others name ha, Entries.get?_insert, if_pos rfl]
      simpa using hv
    | cons first before =>
      obtain ⟨rfl, rfl⟩ := List.cons.inj ht
      exact h.given key v ⟨before, last, after, rfl, hl, ha⟩
  others := by
    intro key hk
    have hn : key ≠ name := by
      rintro rfl
      exact hk text List.mem_cons_self value hg
    rw [h.others key fun other ho => hk other (List.mem_cons_of_mem text ho),
      Entries.get?_insert, if_neg hn]

variable {d : Directory} {file : String} {s : Store}

end Stencil.Command
