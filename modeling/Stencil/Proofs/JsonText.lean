import Stencil.Proofs.FloatText
import Stencil.Proofs.JsonRoundTrip
import Stencil.Proofs.ValueParts

/-! What the JSON text of a value tells of the value. Floats that are not finite are written as
`null`; but for these the text, and where it ends, belongs to one value only. -/
namespace Stencil

namespace Value

variable {onInt : Int64 → Value} {onFloat : Float → Value}

mutual

def mapNumbers (onInt : Int64 → Value) (onFloat : Float → Value) : Value → Value
  | null => null
  | bool b => bool b
  | int n => onInt n
  | float x => onFloat x
  | string s => string s
  | seq items => seq (mapItems onInt onFloat items)
  | map entries => map (mapEntries onInt onFloat entries)

def mapItems (onInt : Int64 → Value) (onFloat : Float → Value) : List Value → List Value
  | [] => []
  | v :: vs => mapNumbers onInt onFloat v :: mapItems onInt onFloat vs

def mapEntries (onInt : Int64 → Value) (onFloat : Float → Value) :
    List (String × Value) → List (String × Value)
  | [] => []
  | (k, v) :: es => (k, mapNumbers onInt onFloat v) :: mapEntries onInt onFloat es

end

theorem mapItems_eq (items : List Value) :
    mapItems onInt onFloat items = items.map (mapNumbers onInt onFloat) := by
  induction items with
  | nil => rfl
  | cons v vs ih => rw [mapItems, ih, List.map_cons]

theorem mapEntries_eq (entries : List (String × Value)) :
    mapEntries onInt onFloat entries =
      entries.map fun e => (e.1, mapNumbers onInt onFloat e.2) := by
  induction entries with
  | nil => rfl
  | cons e es ih => rw [mapEntries, ih, List.map_cons]

@[simp] theorem mapNumbers_seq (items : List Value) : mapNumbers onInt onFloat (seq items) =
    seq (items.map (mapNumbers onInt onFloat)) := by
  rw [mapNumbers, mapItems_eq]

@[simp] theorem mapNumbers_map (entries : List (String × Value)) :
    mapNumbers onInt onFloat (map entries) =
      map (entries.map fun e => (e.1, mapNumbers onInt onFloat e.2)) := by
  rw [mapNumbers, mapEntries_eq]

def nulled : Value → Value := mapNumbers int fun x => if x.isFinite then float x else null

def AllFinite (v : Value) : Prop := ∀ x, PartOf (float x) v → x.isFinite

variable {v : Value} {items : List Value} {e : String × Value} {entries : List (String × Value)}

theorem AllFinite.item (h : (seq items).AllFinite) (hv : v ∈ items) : v.AllFinite :=
  fun x hx => h x (.item hv hx)

theorem AllFinite.entry (h : (map entries).AllFinite) (he : e ∈ entries) : e.2.AllFinite :=
  fun x hx => h x (.entry he hx)

theorem nulled_of_allFinite (h : v.AllFinite) : v.nulled = v := by
  induction v with
  | null | bool b | int n | string s => rfl
  | float x => exact if_pos (h x .self)
  | seq items ih =>
    rw [nulled, mapNumbers_seq]
    exact congrArg seq (List.map_congr_left (fun v hv => ih v hv (h.item hv)) |>.trans items.map_id)
  | map entries ih =>
    rw [nulled, mapNumbers_map]
    have he (e : String × Value) (he : e ∈ entries) : (e.1, e.2.nulled) = e :=
      Prod.ext rfl (ih e he (h.entry he))
    exact congrArg map ((List.map_congr_left he).trans entries.map_id)

theorem nulled_allFinite (v : Value) : v.nulled.AllFinite := by
  induction v with
  | null | bool b | int n | string s => exact fun x hx => nomatch hx
  | float x =>
    intro y hy
    change PartOf _ (if x.isFinite then float x else null) at hy
    split at hy
    · next hx =>
      cases hy
      exact hx
    · cases hy
  | seq items ih =>
    intro x hx
    rw [nulled, mapNumbers_seq, partOf_seq] at hx
    obtain hx | ⟨_, hw, hx⟩ := hx
    · cases hx
    · obtain ⟨v, hv, rfl⟩ := List.mem_map.1 hw
      exact ih v hv x hx
  | map entries ih =>
    intro x hx
    rw [nulled, mapNumbers_map, partOf_map] at hx
    obtain hx | ⟨_, hw, hx⟩ := hx
    · cases hx
    · obtain ⟨e, he, rfl⟩ := List.mem_map.1 hw
      exact ih e he x hx

end Value

namespace Json

open Value (AllFinite nulled mapNumbers_seq mapNumbers_map)

variable {v w : Value} {r s : List Char}

theorem writeItems_map {f : Value → Value} {items : List Value}
    (h : ∀ v ∈ items, write (f v) = write v) : writeItems (items.map f) = writeItems items := by
  induction items with
  | nil => rfl
  | cons v vs ih =>
    obtain ⟨hv, hvs⟩ := List.forall_mem_cons.1 h
    rw [List.map_cons, writeItems, writeItems, hv, ih hvs]

theorem writeEntries_map {f : Value → Value} {entries : List (String × Value)}
    (h : ∀ e ∈ entries, write (f e.2) = write e.2) :
    writeEntries (entries.map fun e => (e.1, f e.2)) = writeEntries entries := by
  induction entries with
  | nil => rfl
  | cons e es ih =>
    obtain ⟨he, hes⟩ := List.forall_mem_cons.1 h
    rw [List.map_cons, writeEntries, writeEntries, he, ih hes]

theorem write_nulled (v : Value) : write v.nulled = write v := by
  induction v with
  | null | bool b | int n | string s => rfl
  | float x =>
    change write (if x.isFinite then .float x else .null) = _
    split
    · rfl
    · next hx =>
      have ht : floatLayout.text x = "null" := by
        rcases floatLayout.text_of_not_finite hx with ⟨-, ht⟩ | ⟨-, ht⟩ | ⟨-, ht⟩ <;> exact ht
      rw [write, write, ht]
      rfl
  | seq items ih =>
    rw [nulled, mapNumbers_seq]
    cases items with
    | nil => rfl
    | cons v vs =>
      obtain ⟨hv, hvs⟩ := List.forall_mem_cons.1 ih
      have hvs := writeItems_map hvs
      rw [List.map_cons, write, write]
      exact congrArg₂ (fun a b => '[' :: a ++ b) hv hvs
  | map entries ih =>
    rw [nulled, mapNumbers_map]
    cases entries with
    | nil => rfl
    | cons e es =>
      obtain ⟨he, hes⟩ := List.forall_mem_cons.1 ih
      have hes := writeEntries_map hes
      rw [List.map_cons, write, write]
      exact congrArg₂ (fun a b => '{' :: quote e.1 ++ ':' :: a ++ b) he hes

def kind? (c : Char) : Option Kind :=
  if c = 'n' then some .none
  else if c = 't' ∨ c = 'f' then some .bool
  else if c = '"' then some .string
  else if c = '[' then some .sequence
  else if c = '{' then some .mapping
  else none

theorem kind?_number {c : Char} (h : c = '-' ∨ c.isDigit) : kind? c = none := by
  have hne : c ∉ ['n', 't', 'f', '"', '[', '{'] := by
    intro hm
    simp only [List.mem_cons, List.not_mem_nil, or_false] at hm
    rcases hm with rfl | rfl | rfl | rfl | rfl | rfl <;> exact absurd h (by decide)
  simp only [List.mem_cons, List.not_mem_nil, or_false, not_or] at hne
  simp [kind?, hne]

theorem write_kind (h : v.AllFinite) : ∃ c cs, write v = c :: cs ∧ c ≠ ']' ∧
    kind? c = if v.isNumber then none else some v.kind := by
  cases v with
  | null => exact ⟨_, _, rfl, by decide, rfl⟩
  | bool b => cases b <;> exact ⟨_, _, rfl, by decide, rfl⟩
  | int n =>
    obtain ⟨c, cs, hs, hc⟩ := intText_starts n
    exact ⟨c, cs, hs, (number_starts hc).2, kind?_number hc⟩
  | float x =>
    obtain ⟨c, cs, hs, hc⟩ := (floatLayout.text_numeral (h x .self)).starts
    exact ⟨c, cs, hs, (number_starts hc).2, kind?_number hc⟩
  | string s => exact ⟨_, _, rfl, by decide, rfl⟩
  | seq items => cases items <;> exact ⟨_, _, rfl, by decide, rfl⟩
  | map entries => cases entries <;> exact ⟨_, _, rfl, by decide, rfl⟩

theorem quote_append_inj {k l : String} (h : quote k ++ r = quote l ++ s) : k = l ∧ r = s := by
  rw [quote_append, quote_append] at h
  have hk := readString_escaped k.toList r
  rw [(List.cons.inj h).2] at hk
  obtain ⟨hk, hr⟩ := hk.unique (readString_escaped l.toList s)
  exact ⟨String.toList_injective hk, hr⟩

/-- Of the values whose floats are all finite no other one has the same text, not even as the
beginning of a longer one. -/
def Told (v : Value) : Prop := ∀ ⦃w⦄, w.AllFinite → ∀ ⦃r s⦄, Follows r → Follows s →
  write v ++ r = write w ++ s → v = w ∧ r = s

theorem writeItems_append_inj {vs ws : List Value} (hv : ∀ v ∈ vs, Told v)
    (hw : ∀ w ∈ ws, w.AllFinite) (h : writeItems vs ++ r = writeItems ws ++ s) :
    vs = ws ∧ r = s := by
  induction vs generalizing ws with
  | nil =>
    cases ws with
    | nil => exact ⟨rfl, (List.cons.inj h).2⟩
    | cons w ws => cases (List.cons.inj h).1
  | cons v vs ih =>
    cases ws with
    | nil => cases (List.cons.inj h).1
    | cons w ws =>
      obtain ⟨hv, hvs⟩ := List.forall_mem_cons.1 hv
      obtain ⟨hw, hws⟩ := List.forall_mem_cons.1 hw
      simp only [writeItems, List.cons_append, List.append_assoc] at h
      obtain ⟨rfl, hrest⟩ := hv hw (follows_writeItems vs r) (follows_writeItems ws s)
        (List.cons.inj h).2
      obtain ⟨rfl, hrs⟩ := ih hvs hws hrest
      exact ⟨rfl, hrs⟩

theorem entry_append_inj {k l : String} (hv : Told v) (hw : w.AllFinite) (hr : Follows r)
    (hs : Follows s) (h : quote k ++ ':' :: (write v ++ r) = quote l ++ ':' :: (write w ++ s)) :
    (k, v) = (l, w) ∧ r = s := by
  obtain ⟨rfl, hrest⟩ := quote_append_inj h
  obtain ⟨rfl, hrs⟩ := hv hw hr hs (List.cons.inj hrest).2
  exact ⟨rfl, hrs⟩

theorem writeEntries_append_inj {es fs : List (String × Value)} (hv : ∀ e ∈ es, Told e.2)
    (hw : ∀ f ∈ fs, f.2.AllFinite) (h : writeEntries es ++ r = writeEntries fs ++ s) :
    es = fs ∧ r = s := by
  induction es generalizing fs with
  | nil =>
    cases fs with
    | nil => exact ⟨rfl, (List.cons.inj h).2⟩
    | cons f fs => cases (List.cons.inj h).1
  | cons e es ih =>
    cases fs with
    | nil => cases (List.cons.inj h).1
    | cons f fs =>
      obtain ⟨hv, hvs⟩ := List.forall_mem_cons.1 hv
      obtain ⟨hw, hws⟩ := List.forall_mem_cons.1 hw
      simp only [writeEntries, List.cons_append, List.append_assoc] at h
      obtain ⟨he, hrest⟩ := entry_append_inj hv hw (follows_writeEntries es r)
        (follows_writeEntries fs s) (List.cons.inj h).2
      obtain ⟨rfl, hrs⟩ := ih hvs hws hrest
      exact ⟨congrArg (· :: es) he, hrs⟩

theorem kind_eq (hv : v.AllFinite) (hw : w.AllFinite) (h : write v ++ r = write w ++ s) :
    v.kind = w.kind ∨ v.isNumber ∧ w.isNumber := by
  obtain ⟨c, cs, hc, -, hk⟩ := write_kind hv
  obtain ⟨d, ds, hd, -, hl⟩ := write_kind hw
  rw [hc, hd] at h
  have hkl := hk.symm.trans ((congrArg kind? (List.cons.inj h).1).trans hl)
  split at hkl
  · next hn =>
    split at hkl
    · next hm => exact .inr ⟨hn, hm⟩
    · cases hkl
  · split at hkl
    · cases hkl
    · exact .inl (Option.some.inj hkl)

theorem write_ne_close (hw : w.AllFinite) : write w ++ s ≠ ']' :: r := by
  obtain ⟨c, cs, hc, hne, -⟩ := write_kind hw
  rw [hc]
  exact fun h => hne (List.cons.inj h).1

theorem told_seq {items : List Value} (hi : ∀ v ∈ items, Told v)
    (hv : (Value.seq items).AllFinite) : Told (.seq items) := by
  intro w hw r s hr hs h
  have hk := kind_eq hv hw h
  cases w with
  | seq ws =>
    cases items with
    | nil =>
      cases ws with
      | nil => exact ⟨rfl, (List.cons.inj (List.cons.inj h).2).2⟩
      | cons w ws =>
        simp only [write, List.cons_append, List.append_assoc] at h
        exact absurd (List.cons.inj h).2.symm (write_ne_close (hw.item List.mem_cons_self))
    | cons v vs =>
      cases ws with
      | nil =>
        simp only [write, List.cons_append, List.append_assoc] at h
        exact absurd (List.cons.inj h).2 (write_ne_close (hv.item List.mem_cons_self))
      | cons w ws =>
        have h : writeItems (v :: vs) ++ r = writeItems (w :: ws) ++ s :=
          congrArg (',' :: ·) (List.cons.inj h).2
        obtain ⟨heq, hrs⟩ := writeItems_append_inj hi (fun w => hw.item) h
        exact ⟨congrArg Value.seq heq, hrs⟩
  | _ => simp [Value.kind, Value.isNumber] at hk

theorem told_map {entries : List (String × Value)} (he : ∀ e ∈ entries, Told e.2)
    (hv : (Value.map entries).AllFinite) : Told (.map entries) := by
  intro w hw r s hr hs h
  have hk := kind_eq hv hw h
  cases w with
  | map fs =>
    cases entries with
    | nil =>
      cases fs with
      | nil => exact ⟨rfl, (List.cons.inj (List.cons.inj h).2).2⟩
      | cons f fs => cases (List.cons.inj (List.cons.inj h).2).1
    | cons e es =>
      cases fs with
      | nil => cases (List.cons.inj (List.cons.inj h).2).1
      | cons f fs =>
        have h : writeEntries (e :: es) ++ r = writeEntries (f :: fs) ++ s :=
          congrArg (',' :: ·) (List.cons.inj h).2
        obtain ⟨heq, hrs⟩ := writeEntries_append_inj he (fun f => hw.entry) h
        exact ⟨congrArg Value.map heq, hrs⟩
  | _ => simp [Value.kind, Value.isNumber] at hk

theorem told (hv : v.AllFinite) : Told v := by
  induction v with
  | null =>
    intro w hw r s hr hs h
    have hk := kind_eq hv hw h
    cases w with
    | null => exact ⟨rfl, List.append_cancel_left h⟩
    | _ => simp [Value.kind, Value.isNumber] at hk
  | bool b =>
    intro w hw r s hr hs h
    have hk := kind_eq hv hw h
    cases w with
    | bool c => cases b <;> cases c <;> simp_all [write]
    | _ => simp [Value.kind, Value.isNumber] at hk
  | int n =>
    intro w hw r s hr hs h
    have hk := kind_eq hv hw h
    cases w with
    | int k =>
      obtain ⟨rfl, hrs⟩ := intText_append_inj hr hs h
      exact ⟨rfl, hrs⟩
    | float y => exact absurd h.symm (floatLayout.text_append_ne_intText (hw y .self) n hs hr)
    | _ => simp [Value.kind, Value.isNumber] at hk
  | float x =>
    intro w hw r s hr hs h
    have hk := kind_eq hv hw h
    cases w with
    | int k => exact absurd h (floatLayout.text_append_ne_intText (hv x .self) k hr hs)
    | float y =>
      obtain ⟨rfl, hrs⟩ := floatLayout.text_append_inj (hv x .self) (hw y .self) hr hs h
      exact ⟨rfl, hrs⟩
    | _ => simp [Value.kind, Value.isNumber] at hk
  | string k =>
    intro w hw r s hr hs h
    have hk := kind_eq hv hw h
    cases w with
    | string l =>
      obtain ⟨rfl, hrs⟩ := quote_append_inj h
      exact ⟨rfl, hrs⟩
    | _ => simp [Value.kind, Value.isNumber] at hk
  | seq items ih => exact told_seq (fun v hv' => ih v hv' (hv.item hv')) hv
  | map entries ih => exact told_map (fun e he => ih e he (hv.entry he)) hv

/-- Values have the same text exactly if they are the same once null stands for every float that
is not finite. -/
theorem write_eq_iff : write v = write w ↔ v.nulled = w.nulled := by
  constructor
  · intro h
    rw [← write_nulled v, ← write_nulled w] at h
    exact (told v.nulled_allFinite w.nulled_allFinite follows_nil follows_nil
      (congrArg (· ++ []) h)).1
  · intro h
    rw [← write_nulled v, h, write_nulled]

end Json
end Stencil
