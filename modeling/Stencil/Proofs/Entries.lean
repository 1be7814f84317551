import Stencil.Value

/-! Reading entries after writing and erasing them, and what a merge makes of names and values. -/
namespace Stencil.Entries

variable {α : Type}

instance (m : Entries α) : Decidable m.Distinct := inferInstanceAs (Decidable m.keys.Nodup)

theorem get?_insert (m : Entries α) (key name : String) (v : α) :
    get? (insert m key v) name = if name = key then some v else get? m name := by
  induction m with
  | nil => simp only [insert, get?, eq_comm]
  | cons e m ih =>
    obtain ⟨k, w⟩ := e
    by_cases hk : k = key
    · subst k
      by_cases hn : key = name
      · simp [insert, get?, hn]
      · simp [insert, get?, hn, Ne.symm hn]
    · by_cases hn : k = name
      · subst k
        simp [insert, get?, hk]
      · simp [insert, get?, hk, hn, ih]

theorem insert_new {m : Entries α} {key : String} (h : key ∉ m.keys) (v : α) :
    insert m key v = m ++ [(key, v)] := by
  induction m with
  | nil => rfl
  | cons e m ih =>
    obtain ⟨k, w⟩ := e
    simp only [keys, List.map_cons, List.mem_cons, not_or] at h
    rw [insert, if_neg (Ne.symm h.1), ih h.2]
    rfl

theorem contains_insert (m : Entries α) (key name : String) (v : α) :
    contains (insert m key v) name = (name = key || contains m name) := by
  rw [contains, contains, get?_insert]
  by_cases hn : name = key <;> simp [hn]

theorem contains_iff (m : Entries α) (name : String) : contains m name = true ↔ name ∈ m.keys := by
  induction m with
  | nil => simp [contains, get?, keys]
  | cons e m ih =>
    obtain ⟨k, w⟩ := e
    by_cases hk : k = name
    · simp [contains, get?, keys, hk]
    · simp only [contains, get?, if_neg hk, keys, List.map_cons, List.mem_cons, Ne.symm hk,
        false_or]
      exact ih

theorem erase_of_not_contains {m : Entries α} {key : String} (h : contains m key = false) :
    erase m key = m := by
  induction m with
  | nil => rfl
  | cons e m ih =>
    obtain ⟨k, w⟩ := e
    by_cases hk : k = key
    · simp [contains, get?, hk] at h
    · rw [contains, get?, if_neg hk] at h
      rw [erase, if_neg hk, ih h]

/-- A name that is there keeps its place, and a new one comes last. -/
theorem keys_insert (m : Entries α) (key : String) (v : α) :
    (insert m key v).keys = if contains m key then m.keys else m.keys ++ [key] := by
  induction m with
  | nil => rfl
  | cons e m ih =>
    obtain ⟨k, w⟩ := e
    by_cases hk : k = key
    · simp [insert, contains, get?, keys, hk]
    · have hc : contains ((k, w) :: m) key = contains m key := by
        rw [contains, get?, if_neg hk]
        rfl
      have hi : (insert ((k, w) :: m) key v).keys = k :: (insert m key v).keys := by
        rw [insert, if_neg hk]
        rfl
      rw [hi, ih, hc]
      cases contains m key <;> rfl

theorem distinct_nil : Distinct ([] : Entries α) := List.nodup_nil

theorem Distinct.insert {m : Entries α} (h : m.Distinct) (key : String) (v : α) :
    (m.insert key v).Distinct := by
  rw [Distinct, keys_insert]
  by_cases hc : contains m key
  · rwa [if_pos hc]
  · rw [if_neg hc, List.nodup_append]
    refine ⟨h, List.pairwise_singleton _ key, ?_⟩
    rintro name hn _ hk rfl
    rw [List.mem_singleton.1 hk, ← contains_iff] at hn
    exact hc hn

theorem get?_of_not_mem {m : Entries α} {name : String} (h : name ∉ m.keys) :
    get? m name = none := by
  rw [← contains_iff] at h
  simpa [contains] using h

/-- Where no name is written twice, to read a name is to find its entry. -/
theorem Distinct.get?_eq_some {m : Entries α} (h : m.Distinct) {name : String} {v : α} :
    get? m name = some v ↔ (name, v) ∈ m := by
  induction m with
  | nil => simp [get?]
  | cons e m ih =>
    obtain ⟨k, w⟩ := e
    obtain ⟨hk, hm⟩ := List.nodup_cons.1 h
    by_cases hn : k = name
    · subst k
      have hnew : (name, v) ∉ m := fun hv => hk (List.mem_map.2 ⟨_, hv, rfl⟩)
      simp [get?, hnew, eq_comm]
    · simp [get?, hn, ih hm, Ne.symm hn]

theorem keys_erase {m : Entries α} (h : m.Distinct) (key : String) :
    (erase m key).keys = m.keys.filter (· ≠ key) := by
  induction m with
  | nil => rfl
  | cons e m ih =>
    obtain ⟨k, v⟩ := e
    obtain ⟨hk, hd⟩ := List.nodup_cons.1 h
    have hc : keys ((k, v) :: m) = k :: keys m := rfl
    by_cases hn : k = key
    · subst hn
      have hf : (keys m).filter (· ≠ k) = keys m := by
        apply List.filter_eq_self.2
        intro name hm
        simp only [ne_eq, decide_eq_true_eq]
        rintro rfl
        exact hk hm
      rw [erase, if_pos rfl, hc, List.filter_cons_of_neg (by simp), hf]
    · have he : keys ((k, v) :: erase m key) = k :: keys (erase m key) := rfl
      rw [erase, if_neg hn, he, ih hd, hc, List.filter_cons_of_pos (by simpa using hn)]

theorem get?_erase {m : Entries α} (h : m.Distinct) (key name : String) :
    get? (erase m key) name = if name = key then none else get? m name := by
  induction m with
  | nil => simp [erase, get?]
  | cons e m ih =>
    obtain ⟨k, v⟩ := e
    obtain ⟨hk, hd⟩ := List.nodup_cons.1 h
    by_cases hn : k = key
    · subst hn
      by_cases hm : name = k
      · subst hm
        rw [erase, if_pos rfl, if_pos rfl, get?_of_not_mem hk]
      · rw [erase, if_pos rfl, if_neg hm, get?, if_neg (Ne.symm hm)]
    · rw [erase, if_neg hn, get?, get?, ih hd]
      by_cases hm : k = name
      · subst hm
        rw [if_pos rfl, if_pos rfl, if_neg hn]
      · rw [if_neg hm, if_neg hm]

theorem Distinct.erase {m : Entries α} (h : m.Distinct) (key : String) :
    (m.erase key).Distinct := by
  rw [Distinct, keys_erase h]
  exact List.Nodup.sublist List.filter_sublist h

theorem Distinct.merge {m : Entries α} (h : m.Distinct) (others : Entries α) :
    (m.merge others).Distinct := by
  induction others generalizing m with
  | nil => exact h
  | cons e others ih => exact ih (h.insert e.1 e.2)

/-- A merge leaves the names that are there in their places, and its new ones follow in order. -/
theorem keys_merge {others : Entries α} (h : others.Distinct) (m : Entries α) :
    (merge m others).keys = m.keys ++ others.keys.filter fun name => !contains m name := by
  induction others generalizing m with
  | nil => exact (List.append_nil _).symm
  | cons e others ih =>
    obtain ⟨k, v⟩ := e
    obtain ⟨hk, hd⟩ := List.nodup_cons.1 h
    -- The names after the first are other names, so that writing it makes none of them present.
    have hf : ((keys others).filter fun name => !contains (insert m k v) name) =
        (keys others).filter fun name => !contains m name := by
      apply List.filter_congr
      intro name hn
      have hne : name ≠ k := by
        rintro rfl
        exact hk hn
      simp [contains_insert, hne]
    have hs : merge m ((k, v) :: others) = merge (insert m k v) others := rfl
    have hc : keys ((k, v) :: others) = k :: keys others := rfl
    rw [hs, ih hd, hf, hc, keys_insert, List.filter_cons]
    cases contains m k <;> simp

/-- A merge adds as many names as others has that were not there. -/
theorem length_merge {others : Entries α} (h : others.Distinct) (m : Entries α) :
    (merge m others).length =
      m.length + (others.keys.filter fun name => !contains m name).length := by
  have hk := congrArg List.length (keys_merge h m)
  rwa [List.length_append, keys, keys, List.length_map, List.length_map] at hk

/-- Where both have a name, the value that is merged counts. -/
theorem get?_merge {others : Entries α} (h : others.Distinct) (m : Entries α) (name : String) :
    get? (merge m others) name = (get? others name).or (get? m name) := by
  induction others generalizing m with
  | nil => rfl
  | cons e others ih =>
    obtain ⟨k, v⟩ := e
    obtain ⟨hk, hd⟩ := List.nodup_cons.1 h
    have hs : merge m ((k, v) :: others) = merge (insert m k v) others := rfl
    rw [hs, ih hd, get?_insert, get?]
    by_cases hn : k = name
    · subst hn
      simp [get?_of_not_mem hk]
    · simp [hn, Ne.symm hn]

theorem Distinct.not_mem {m others : Entries α} {key : String} {v : α}
    (h : (m ++ (key, v) :: others).Distinct) : key ∉ m.keys := by
  intro hm
  rw [Distinct, keys, List.map_append, List.nodup_append] at h
  exact h.2.2 key hm key List.mem_cons_self rfl

/-- Entries whose names are all new are appended. -/
theorem merge_new {m others : Entries α} (h : (m ++ others).Distinct) :
    merge m others = m ++ others := by
  induction others generalizing m with
  | nil => exact (List.append_nil m).symm
  | cons e others ih =>
    obtain ⟨k, v⟩ := e
    have he : (m ++ [(k, v)]) ++ others = m ++ (k, v) :: others := by simp
    have hk : k ∉ m.keys := h.not_mem
    rw [← he] at h ⊢
    rw [← ih h, ← insert_new hk]
    rfl

end Stencil.Entries
