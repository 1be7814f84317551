import Stencil.Proofs.Equality
import Stencil.Proofs.FirstOccurrences

/-! What the filter that drops repeated items does to items that are equal. Its texts tell more
apart than equality does: integers from floats, the zeros, and the orders of entries. And they tell
less apart where floats are not finite. -/
namespace Stencil

namespace Value

variable {v w : Value} {vs ws items : List Value} {entries : List (String × Value)}

def HasInfinity (v : Value) : Prop := ∃ x : Float, x.isInf ∧ PartOf (float x) v

theorem allFinite_of_numbers (hn : ¬ v.HasNaN) (hi : ¬ v.HasInfinity) : v.AllFinite :=
  fun x hx => isFinite_of_number (fun h => hn ⟨x, h, hx⟩) fun h => hi ⟨x, h, hx⟩

/-- The value with nothing left of its numbers but their kinds and signs. Minus zero is negative. -/
def shape : Value → Value :=
  mapNumbers (fun _ => int 0) fun x => float (if isNegative x then -0.0 else 0.0)

theorem zeros_differ : (-0.0 : Float) ≠ 0.0 := by decide

theorem eq_of_shape_seq
    (ih : ∀ v ∈ vs, ∀ w : Value, w.Distinct → equal v w → v.shape = w.shape → v = w)
    (hd : (seq ws).Distinct) (h : equal (seq vs) (seq ws)) (hs : (seq vs).shape = (seq ws).shape) :
    vs = ws := by
  rw [shape, mapNumbers_seq, mapNumbers_seq] at hs
  rw [equal_seq] at h
  replace hs := Value.seq.inj hs
  induction h with
  | nil => rfl
  | @cons v w vs ws h _ ihs =>
    obtain ⟨hv, hvs⟩ := List.forall_mem_cons.1 ih
    obtain ⟨hw, hws⟩ := List.forall_mem_cons.1 (distinct_seq.1 hd)
    obtain ⟨hs, hss⟩ := List.cons.inj hs
    rw [hv w hw h hs, ihs hvs (distinct_seq.2 hws) hss]

theorem eq_of_shape_map {m m' : List (String × Value)}
    (ih : ∀ e ∈ m, ∀ w : Value, w.Distinct → equal e.2 w → e.2.shape = w.shape → e.2 = w)
    (hd : (map m').Distinct) (h : equal (map m) (map m')) (hs : (map m).shape = (map m').shape) :
    m = m' := by
  rw [shape, mapNumbers_map, mapNumbers_map] at hs
  obtain ⟨hlen, h⟩ := (equal_map_of_distinct hd.names).1 h
  have hs := Value.map.inj hs
  refine List.ext_getElem hlen fun i hi hi' => ?_
  have hm : m[i] ∈ m := List.getElem_mem hi
  have hm' : m'[i] ∈ m' := List.getElem_mem hi'
  have hi := (List.ext_getElem_iff.1 hs).2 i (by simpa using hi) (by simpa using hi')
  rw [List.getElem_map, List.getElem_map] at hi
  obtain ⟨hname, hshape⟩ := Prod.mk.inj hi
  -- the entry of the same name is the one at the same place
  obtain ⟨w, hw, heq⟩ := h m[i] hm
  have hw : w = m'[i].2 := by
    rw [hname] at hw
    exact Option.some.inj ((hd.names.get?_eq_some.2 hw).symm.trans (hd.names.get?_eq_some.2 hm'))
  subst hw
  exact Prod.ext hname (ih m[i] hm _ (hd.entry hm') heq hshape)

/-- Equal values that differ in neither the kinds nor the signs of their numbers, nor in the order
of entries, are the same value. -/
theorem eq_of_shape (hd : w.Distinct) (h : equal v w) (hs : v.shape = w.shape) : v = w := by
  induction v generalizing w with
  | null => cases w <;> first | rfl | cases h
  | bool b =>
    cases w with
    | bool c => exact congrArg bool (beq_iff_eq.1 h)
    | _ => cases h
  | int n =>
    cases w with
    | int k => exact congrArg int (beq_iff_eq.1 h)
    | float y => cases hs
    | _ => cases h
  | float x =>
    cases w with
    | int k => cases hs
    | float y =>
      have hs := Value.float.inj hs
      refine congrArg float (eq_of_beq h ?_)
      by_cases hx : isNegative x <;> by_cases hy : isNegative y <;>
        simp only [hx, hy, if_true, if_false, Bool.false_eq_true] at hs ⊢
      · exact absurd hs zeros_differ
      · exact absurd hs.symm zeros_differ
    | _ => cases h
  | string s =>
    cases w with
    | string t => exact congrArg string (beq_iff_eq.1 h)
    | _ => cases h
  | seq items ih =>
    cases w with
    | seq ws => exact congrArg seq (eq_of_shape_seq (fun v hv w => ih v hv) hd h hs)
    | _ => cases h
  | map entries ih =>
    cases w with
    | map m' => exact congrArg map (eq_of_shape_map (fun e he w => ih e he) hd h hs)
    | _ => cases h

end Value

namespace Render

open Value

variable {items : List Value} {v : Value}

theorem distinctItems_sublist (seen : List (List Char)) (items : List Value) :
    (distinctItems seen items).Sublist items := by
  induction items generalizing seen with
  | nil => exact .slnil
  | cons v items ih =>
    rw [distinctItems]
    split
    · exact (ih seen).cons v
    · exact (ih _).cons_cons v

/-- An item is dropped only if its text was seen before. -/
theorem distinctItems_covers (seen : List (List Char)) (hv : v ∈ items) : Json.write v ∈ seen ∨
    ∃ w ∈ distinctItems seen items, Json.write w = Json.write v := by
  induction items generalizing seen with
  | nil => cases hv
  | cons u items ih =>
    rw [distinctItems]
    rcases List.mem_cons.1 hv with rfl | hv
    · split
      · next hs => exact .inl hs
      · exact .inr ⟨v, List.mem_cons_self, rfl⟩
    · split
      · exact ih seen hv
      · rcases ih (Json.write u :: seen) hv with hs | ⟨w, hw, he⟩
        · rcases List.mem_cons.1 hs with he | hs
          · exact .inr ⟨u, List.mem_cons_self, he.symm⟩
          · exact .inl hs
        · exact .inr ⟨w, List.mem_cons_of_mem u hw, he⟩

/-- For every item one is kept that is the same once null stands for every infinite float. So an
item is lost only beside such a float, its own or that of the one kept in its place. -/
theorem unique_covers (hd : (Value.seq items).Distinct) (hn : ¬ (Value.seq items).HasNaN) :
    ∃ kept, applyCall ⟨"unique", []⟩ (.seq items) = .ok (.seq kept) ∧
      (∀ v ∈ items, ∃ w ∈ kept, w.nulled = v.nulled ∧
        (equal v w ∨ v.HasInfinity ∨ w.HasInfinity)) ∧
      ∀ v ∈ items, (∀ w ∈ items, w.nulled = v.nulled → ¬ w.HasInfinity) → v ∈ kept := by
  have hsub := (distinctItems_sublist [] items).subset
  have hfinite {v : Value} (hv : v ∈ items) (hi : ¬ v.HasInfinity) : v.nulled = v :=
    nulled_of_allFinite (allFinite_of_numbers (fun h => hn (hasNaN_seq.2 ⟨v, hv, h⟩)) hi)
  have hcover (v : Value) (hv : v ∈ items) :
      ∃ w ∈ distinctItems [] items, w.nulled = v.nulled := by
    rcases distinctItems_covers [] hv with hs | ⟨w, hw, he⟩
    · cases hs
    · exact ⟨w, hw, Json.write_eq_iff.1 he⟩
  refine ⟨distinctItems [] items, applyCall_unique items, fun v hv => ?_, fun v hv hi => ?_⟩
  · obtain ⟨w, hw, he⟩ := hcover v hv
    refine ⟨w, hw, he, or_iff_not_imp_right.2 fun hinf => ?_⟩
    obtain ⟨hvi, hwi⟩ := not_or.1 hinf
    have heq : w = v := (hfinite (hsub hw) hwi).symm.trans (he.trans (hfinite hv hvi))
    rw [heq]
    exact (equal_self (hd.item hv)).2 fun h => hn (hasNaN_seq.2 ⟨v, hv, h⟩)
  · obtain ⟨w, hw, he⟩ := hcover v hv
    have heq : w = v :=
      (hfinite (hsub hw) (hi w (hsub hw) he)).symm.trans (he.trans (hfinite hv (hi v hv rfl)))
    exact heq ▸ hw

/-- Infinity is dropped after null, which it does not equal. -/
theorem unique_loses_infinity :
    let infinity := Value.float (1.0 / 0.0)
    (Value.seq [.null, infinity]).Distinct ∧ ¬ (Value.seq [.null, infinity]).HasNaN ∧
      applyCall ⟨"unique", []⟩ (.seq [.null, infinity]) = .ok (.seq [.null]) ∧
      ¬ ∃ w ∈ [Value.null], equal infinity w := by
  intro infinity
  have hd : (Value.seq [.null, infinity]).Distinct := by simp [infinity, Distinct]
  have hn : ¬ (Value.seq [.null, infinity]).HasNaN := by
    rintro ⟨x, hx, hp⟩
    obtain rfl : x = 1.0 / 0.0 := by simpa [infinity] using hp
    exact absurd hx (by decide)
  have ht : Json.write infinity ∈ [Json.write .null] := by decide
  refine ⟨hd, hn, ?_, ?_⟩
  · rw [applyCall_unique, distinctItems, if_neg List.not_mem_nil, distinctItems, if_pos ht]
    rfl
  · rintro ⟨w, hw, he⟩
    rw [List.mem_singleton.1 hw] at he
    cases he

theorem unique_covers_assorted :
    let items := [Value.int 1, .float (1.0 / 0.0), .string "a", .float 2.5, .int 1]
    (Value.seq items).Distinct ∧ ¬ (Value.seq items).HasNaN ∧
      ∃ kept, applyCall ⟨"unique", []⟩ (.seq items) = .ok (.seq kept) ∧ .int 1 ∈ kept ∧
        .float 2.5 ∈ kept ∧ ∃ w ∈ kept, w.nulled = .null := by
  intro items
  have hinf : (1.0 / 0.0 : Float).isFinite = false := rfl
  have hfin : (2.5 : Float).isFinite = true := by decide
  have hd : (Value.seq items).Distinct := by simp [items, Distinct]
  have hn : ¬ (Value.seq items).HasNaN := by
    rintro ⟨x, hx, hp⟩
    have hp : x = 1.0 / 0.0 ∨ x = 2.5 := by simpa [items] using hp
    rcases hp with rfl | rfl <;> exact absurd hx (by decide)
  have hnumber : ¬ (Value.float 2.5).HasInfinity := by
    rintro ⟨x, hx, hp⟩
    obtain rfl : x = 2.5 := by simpa using hp
    exact absurd hx (by decide)
  obtain ⟨kept, hk, hcover, hkept⟩ := unique_covers hd hn
  refine ⟨hd, hn, kept, hk, hkept _ (by simp [items]) ?_, hkept _ (by simp [items]) ?_, ?_⟩
  · simp [items, nulled, mapNumbers, hinf, hfin, HasInfinity]
  · simp [items, nulled, mapNumbers, hinf, hfin, hnumber]
  · obtain ⟨w, hw, he, -⟩ := hcover (.float (1.0 / 0.0)) (by simp [items])
    exact ⟨w, hw, he.trans (by simp [nulled, mapNumbers, hinf])⟩

/-- Of the items that are kept, two that are equal differ in the kinds or the signs of numbers or in
the order of entries. -/
theorem unique_separates (hd : (Value.seq items).Distinct) :
    ∃ kept, applyCall ⟨"unique", []⟩ (.seq items) = .ok (.seq kept) ∧
      kept.Pairwise fun v w => equal v w → v.shape ≠ w.shape := by
  have hsub := (distinctItems_sublist [] items).subset
  obtain ⟨hn, -⟩ := distinctItems_texts [] items
  refine ⟨distinctItems [] items, applyCall_unique items, ?_⟩
  rw [List.nodup_iff_pairwise_ne, List.pairwise_map] at hn
  refine hn.imp_of_mem fun hv hw hne heq hs => hne ?_
  rw [eq_of_shape (hd.item (hsub hw)) heq hs]

/-- An integer and the float that equals it are both kept, and so are two orders of entries. -/
theorem unique_keeps_equal :
    let items := [Value.int 1, .float 1.0, .map [("a", .int 1), ("b", .int 2)],
      .map [("b", .int 2), ("a", .int 1)]]
    applyCall ⟨"unique", []⟩ (.seq items) = .ok (.seq items) ∧ (Value.seq items).Distinct ∧
      equal (.int 1) (.float 1.0) ∧ equal (.map [("a", .int 1), ("b", .int 2)])
        (.map [("b", .int 2), ("a", .int 1)]) := by
  intro items
  have ht : (items.map Json.write).Nodup := by decide
  refine ⟨?_, ?_, rfl, rfl⟩
  · rw [applyCall_unique, distinctItems_of_nodup ht fun v _ => List.not_mem_nil]
  · simp [items, Distinct, Entries.Distinct, Entries.keys]

theorem unique_separates_zeros :
    let items := [Value.float 0.0, .float (-0.0), .float 0.0]
    (Value.seq items).Distinct ∧
      applyCall ⟨"unique", []⟩ (.seq items) = .ok (.seq [.float 0.0, .float (-0.0)]) ∧
      (equal (.float 0.0) (.float (-0.0)) →
        (Value.float 0.0).shape ≠ (Value.float (-0.0)).shape) := by
  intro items
  have hd : (Value.seq items).Distinct := by simp [items, Distinct]
  have hk : distinctItems [] items = [.float 0.0, .float (-0.0)] := by
    have h₁ : Json.write (.float (-0.0)) ∉ [Json.write (.float 0.0)] := by decide
    have h₂ : Json.write (.float 0.0) ∈
        [Json.write (.float (-0.0)), Json.write (.float 0.0)] := by decide
    rw [distinctItems, if_neg List.not_mem_nil, distinctItems, if_neg h₁, distinctItems, if_pos h₂]
    rfl
  obtain ⟨kept, hok, hp⟩ := unique_separates hd
  rw [applyCall_unique, hk] at hok
  cases hok
  refine ⟨hd, ?_, (List.pairwise_cons.1 hp).1 _ List.mem_cons_self⟩
  rw [applyCall_unique, hk]

end Render
end Stencil
