import Stencil.Proofs.JsonText
import Stencil.Render.Expr

/-! The filter that drops repeated items. It knows an item by its JSON text, and without floats
different values have different texts. -/
namespace Stencil

theorem Value.FloatFree.allFinite {v : Value} (h : v.FloatFree) : v.AllFinite :=
  fun x hx => absurd hx (h x)

namespace Json

theorem write_injective {v w : Value} (hv : v.FloatFree ∧ v.Distinct)
    (hw : w.FloatFree ∧ w.Distinct) (h : write v = write w) : v = w := by
  have h := write_eq_iff.1 h
  rwa [Value.nulled_of_allFinite hv.1.allFinite, Value.nulled_of_allFinite hw.1.allFinite] at h

end Json

namespace Render

open Template (Call)

open Classical in
noncomputable def firstOccurrences (items : List Value) : List Value :=
  (items.zipIdx.filter fun (v, i) => v ∉ items.take i).map Prod.fst

variable {seen : List (List Char)} {before items : List Value}

open Classical in
/-- What the filter has seen are the texts of the items before. -/
theorem distinctItems_eq (hi : ∀ v ∈ before ++ items, v.FloatFree ∧ v.Distinct)
    (hs : ∀ t, t ∈ seen ↔ t ∈ before.map Json.write) :
    distinctItems seen items =
      ((items.zipIdx before.length).filter fun (v, i) => v ∉ (before ++ items).take i).map
        Prod.fst := by
  induction items generalizing seen before with
  | nil => rfl
  | cons v items ih =>
    have hv : Json.write v ∈ seen ↔ v ∈ before := by
      rw [hs]
      constructor
      · intro hm
        obtain ⟨w, hw, he⟩ := List.mem_map.1 hm
        have hw' := hi w (List.mem_append_left _ hw)
        have hv' := hi v (List.mem_append_right _ List.mem_cons_self)
        exact Json.write_injective hw' hv' he ▸ hw
      · exact fun hm => List.mem_map_of_mem hm
    have ha : before ++ v :: items = (before ++ [v]) ++ items := by simp
    have hl : (before ++ [v]).length = before.length + 1 := by simp
    have ht : (before ++ v :: items).take before.length = before := by simp
    rw [List.zipIdx_cons, List.filter_cons, distinctItems]
    by_cases hm : v ∈ before
    · have hn : ∀ t, t ∈ seen ↔ t ∈ (before ++ [v]).map Json.write := by
        intro t
        rw [hs, List.map_append, List.mem_append, or_iff_left_of_imp]
        intro h
        rw [List.mem_singleton.1 h]
        exact List.mem_map_of_mem hm
      have := ih (ha ▸ hi) hn
      simpa [hv, ht, hm] using this
    · have hn : ∀ t, t ∈ Json.write v :: seen ↔ t ∈ (before ++ [v]).map Json.write := by
        intro t
        simp [hs, or_comm]
      have := ih (ha ▸ hi) hn
      simpa [hv, ht, hm] using this

/-- What the filter keeps has texts of its own, none of them seen before. -/
theorem distinctItems_texts (seen : List (List Char)) (items : List Value) :
    ((distinctItems seen items).map Json.write).Nodup ∧
      ∀ v ∈ distinctItems seen items, Json.write v ∉ seen := by
  induction items generalizing seen with
  | nil => exact ⟨List.nodup_nil, nofun⟩
  | cons v items ih =>
    rw [distinctItems]
    split
    · exact ih seen
    · rename_i hv
      obtain ⟨hn, hs⟩ := ih (Json.write v :: seen)
      have hv' : Json.write v ∉ (distinctItems (Json.write v :: seen) items).map Json.write := by
        intro hm
        obtain ⟨w, hw, he⟩ := List.mem_map.1 hm
        exact hs w hw (he ▸ List.mem_cons_self)
      refine ⟨List.nodup_cons.2 ⟨hv', hn⟩, List.forall_mem_cons.2 ⟨hv, fun w hw => ?_⟩⟩
      exact fun hm => hs w hw (List.mem_cons_of_mem _ hm)

/-- Items with texts of their own are all kept. -/
theorem distinctItems_of_nodup (hn : (items.map Json.write).Nodup)
    (hs : ∀ v ∈ items, Json.write v ∉ seen) : distinctItems seen items = items := by
  induction items generalizing seen with
  | nil => rfl
  | cons v items ih =>
    obtain ⟨hv, hn⟩ := List.nodup_cons.1 hn
    rw [distinctItems, if_neg (hs v List.mem_cons_self), ih hn]
    intro w hw hm
    rcases List.mem_cons.1 hm with he | hm
    · exact hv (he ▸ List.mem_map_of_mem hw)
    · exact hs w (List.mem_cons_of_mem v hw) hm

theorem applyCall_unique (items : List Value) :
    applyCall ⟨"unique", []⟩ (.seq items) = .ok (.seq (distinctItems [] items)) := rfl

/-- Without floats different items have different texts, so that the filter keeps the first
occurrence of each item and drops nothing else. A second time it changes nothing. -/
theorem unique_keeps_firsts (items : List Value) (h : ∀ v ∈ items, v.FloatFree ∧ v.Distinct) :
    applyCall ⟨"unique", []⟩ (.seq items) = .ok (.seq (firstOccurrences items)) ∧
      applyCall ⟨"unique", []⟩ (.seq (firstOccurrences items)) =
        .ok (.seq (firstOccurrences items)) ∧
      ∀ v ∈ items, ∀ w ∈ items, Json.text v = Json.text w → v = w := by
  have hd : distinctItems [] items = firstOccurrences items :=
    distinctItems_eq (show ∀ v ∈ [] ++ items, v.FloatFree ∧ v.Distinct from h) (by simp)
  obtain ⟨hn, hs⟩ := distinctItems_texts [] items
  rw [hd] at hn hs
  refine ⟨?_, ?_, fun v hv w hw ht => ?_⟩
  · rw [applyCall_unique, hd]
  · rw [applyCall_unique, distinctItems_of_nodup hn hs]
  · exact Json.write_injective (h v hv) (h w hw) (String.ofList_injective ht)

/-- A string that looks like a number, and two maps that differ in their order alone, are kept. -/
theorem unique_keeps_firsts_assorted :
    (∀ v ∈ [Value.int 1, .string "1", .int 1, .map [("a", .null), ("b", .seq [])],
        .map [("b", .seq []), ("a", .null)], .string "1"], v.FloatFree ∧ v.Distinct) ∧
      applyCall ⟨"unique", []⟩ (.seq [.int 1, .string "1", .int 1,
          .map [("a", .null), ("b", .seq [])], .map [("b", .seq []), ("a", .null)],
          .string "1"]) =
        .ok (.seq [.int 1, .string "1", .map [("a", .null), ("b", .seq [])],
          .map [("b", .seq []), ("a", .null)]]) := by
  have h : ∀ v ∈ [Value.int 1, .string "1", .int 1, .map [("a", .null), ("b", .seq [])],
      .map [("b", .seq []), ("a", .null)], .string "1"], v.FloatFree ∧ v.Distinct := by
    simp [Value.FloatFree, Value.Distinct, Entries.Distinct, Entries.keys]
  refine ⟨h, (unique_keeps_firsts _ h).1.trans ?_⟩
  simp [firstOccurrences]

end Render
end Stencil
