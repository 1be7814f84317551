import Stencil.Proofs.Entries
import Stencil.Value

/-! What a value holds, at every depth. -/
namespace Stencil.Value

/-- To prove something of every value, it may be assumed of all that a collection holds. -/
@[elab_as_elim, induction_eliminator]
theorem byParts {motive : Value → Prop} (null : motive null) (bool : ∀ b, motive (bool b))
    (int : ∀ n, motive (int n)) (float : ∀ x, motive (float x)) (string : ∀ s, motive (string s))
    (seq : ∀ items, (∀ v ∈ items, motive v) → motive (seq items))
    (map : ∀ entries, (∀ e ∈ entries, motive e.2) → motive (map entries)) : ∀ v, motive v
  | .null => null
  | .bool b => bool b
  | .int n => int n
  | .float x => float x
  | .string s => string s
  | .seq items => seq items fun v _ => byParts null bool int float string seq map v
  | .map entries => map entries fun e _ => byParts null bool int float string seq map e.2
termination_by v => sizeOf v
decreasing_by
  · have := List.sizeOf_lt_of_mem ‹v ∈ items›
    simp only [Value.seq.sizeOf_spec]
    omega
  · obtain ⟨k, w⟩ := e
    have := List.sizeOf_lt_of_mem ‹(k, w) ∈ entries›
    simp only [Prod.mk.sizeOf_spec] at this
    simp only [Value.map.sizeOf_spec]
    omega

inductive PartOf (part : Value) : Value → Prop where
  | self : PartOf part part
  | item {v : Value} {items : List Value} : v ∈ items → PartOf part v → PartOf part (seq items)
  | entry {e : String × Value} {entries : List (String × Value)} :
      e ∈ entries → PartOf part e.2 → PartOf part (map entries)

def FloatFree (v : Value) : Prop := ∀ x, ¬ PartOf (float x) v

def Distinct (v : Value) : Prop := ∀ entries, PartOf (map entries) v → Entries.Distinct entries

def HasNaN (v : Value) : Prop := ∃ x : Float, x.isNaN ∧ PartOf (float x) v

variable {part v : Value} {items : List Value} {e : String × Value}
  {entries : List (String × Value)}

@[simp] theorem partOf_seq :
    PartOf part (seq items) ↔ part = seq items ∨ ∃ v ∈ items, PartOf part v := by
  constructor
  · rintro (_ | ⟨hv, hp⟩)
    · exact .inl rfl
    · exact .inr ⟨_, hv, hp⟩
  · rintro (rfl | ⟨v, hv, hp⟩)
    · exact .self
    · exact .item hv hp

@[simp] theorem partOf_map :
    PartOf part (map entries) ↔ part = map entries ∨ ∃ e ∈ entries, PartOf part e.2 := by
  constructor
  · rintro (_ | _ | ⟨he, hp⟩)
    · exact .inl rfl
    · exact .inr ⟨_, he, hp⟩
  · rintro (rfl | ⟨e, he, hp⟩)
    · exact .self
    · exact .entry he hp

@[simp] theorem partOf_null : PartOf part null ↔ part = null :=
  ⟨by rintro ⟨⟩; rfl, by rintro rfl; exact .self⟩

@[simp] theorem partOf_bool {b : Bool} : PartOf part (bool b) ↔ part = bool b :=
  ⟨by rintro ⟨⟩; rfl, by rintro rfl; exact .self⟩

@[simp] theorem partOf_int {n : Int64} : PartOf part (int n) ↔ part = int n :=
  ⟨by rintro ⟨⟩; rfl, by rintro rfl; exact .self⟩

@[simp] theorem partOf_float {x : Float} : PartOf part (float x) ↔ part = float x :=
  ⟨by rintro ⟨⟩; rfl, by rintro rfl; exact .self⟩

@[simp] theorem partOf_string {s : String} : PartOf part (string s) ↔ part = string s :=
  ⟨by rintro ⟨⟩; rfl, by rintro rfl; exact .self⟩

theorem FloatFree.item (h : (seq items).FloatFree) (hv : v ∈ items) : v.FloatFree :=
  fun x hx => h x (.item hv hx)

theorem FloatFree.entry (h : (map entries).FloatFree) (he : e ∈ entries) : e.2.FloatFree :=
  fun x hx => h x (.entry he hx)

theorem Distinct.item (h : (seq items).Distinct) (hv : v ∈ items) : v.Distinct :=
  fun es hp => h es (.item hv hp)

theorem Distinct.entry (h : (map entries).Distinct) (he : e ∈ entries) : e.2.Distinct :=
  fun es hp => h es (.entry he hp)

theorem Distinct.names (h : (map entries).Distinct) : Entries.Distinct entries := h _ .self

end Stencil.Value
