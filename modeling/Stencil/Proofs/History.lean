import Mathlib.Data.List.Induction
import Mathlib.Data.List.Nodup
import Stencil.Proofs.Entries
import Stencil.Store.Render

/-! What a store holds after any changes of an empty one. The last write of a name gives its value,
unless the name was removed since, and the names stand in the order in which the changes last
inserted them. -/
namespace Stencil.Store

/-- No name stands twice in what is merged. -/
inductive Change where
  | set (key : String) (v : Value)
  | remove (key : String)
  | merge (others : Entries Value) (distinct : others.Distinct)

namespace Change

def apply (s : Store) : Change → Store
  | set key v => s.set key v
  | remove key => (s.remove key).2
  | merge others _ => (s.merge others).2

def written : Change → Entries Value
  | set key v => [(key, v)]
  | remove _ => []
  | merge others _ => others

def removes : Change → String → Bool
  | remove key, name => name = key
  | _, _ => false

theorem written_distinct (c : Change) : c.written.Distinct := by
  cases c with
  | set key v => exact List.nodup_singleton key
  | remove key => exact Entries.distinct_nil
  | merge others distinct => exact distinct

variable {s : Store}

theorem apply_distinct (h : s.params.Distinct) (c : Change) : (c.apply s).params.Distinct := by
  cases c with
  | set key v => exact h.insert key v
  | remove key => exact h.erase key
  | merge others _ => exact h.merge others

theorem get?_apply (h : s.params.Distinct) (c : Change) (key : String) :
    (c.apply s).get? key =
      if c.removes key then none else (Entries.get? c.written key).or (s.get? key) := by
  cases c with
  | set name v => exact Entries.get?_merge (set name v).written_distinct s.params key
  | remove name =>
    refine (Entries.get?_erase h name key).trans ?_
    simp [removes, written, Entries.get?, Store.get?]
  | merge others distinct => exact Entries.get?_merge distinct s.params key

/-- A change takes out what it removes and appends what it writes and what was not there. -/
theorem keys_apply (h : s.params.Distinct) (c : Change) :
    (c.apply s).params.keys = (s.params.keys.filter fun key => !c.removes key) ++
      c.written.keys.filter fun key => !s.contains key := by
  have hk : (s.params.keys.filter fun _ => !false) = s.params.keys :=
    List.filter_eq_self.2 fun _ _ => rfl
  cases c with
  | set name v =>
    have hm := Entries.keys_merge (set name v).written_distinct s.params
    exact hm.trans (congrArg (· ++ _) hk.symm)
  | remove name =>
    refine (Entries.keys_erase h name).trans ?_
    simp [removes, written, Entries.keys]
  | merge others distinct =>
    exact (Entries.keys_merge distinct s.params).trans (congrArg (· ++ _) hk.symm)

end Change

def after (history : List Change) : Store := history.foldl Change.apply .empty

theorem after_concat (history : List Change) (c : Change) :
    after (history ++ [c]) = c.apply (after history) := by
  rw [after, List.foldl_append]
  rfl

theorem after_distinct (history : List Change) : (after history).params.Distinct := by
  induction history using List.reverseRecOn with
  | nil => exact Entries.distinct_nil
  | append_singleton history c ih =>
    rw [after_concat]
    exact c.apply_distinct ih

theorem contains_iff_mem (s : Store) (key : String) : s.contains key ↔ key ∈ s.params.keys :=
  Entries.contains_iff s.params key

theorem merge_added {others : Entries Value} (h : others.Distinct) (s : Store) :
    (s.merge others).1 = (others.keys.filter fun name => !s.contains name).length := by
  have hl := Entries.length_merge h s.params
  have hm : (s.merge others).1 = (Entries.merge s.params others).length - s.params.length := rfl
  rw [hm, hl, Nat.add_sub_cancel_left]
  rfl

/-- Changes that do not write a name can only remove it. -/
theorem get?_unwritten {s : Store} {key : String} {later : List Change} (h : s.params.Distinct)
    (hw : ∀ c ∈ later, key ∉ c.written.keys) :
    (later.foldl Change.apply s).get? key =
      if later.any (·.removes key) then none else s.get? key := by
  induction later generalizing s with
  | nil => rfl
  | cons c later ih =>
    have hc : Entries.get? c.written key = none :=
      Entries.get?_of_not_mem (hw c List.mem_cons_self)
    rw [List.foldl_cons, ih (c.apply_distinct h) fun d hd => hw d (List.mem_cons_of_mem c hd),
      c.get?_apply h, hc, Option.none_or, List.any_cons]
    cases c.removes key <;> simp

/-- `v` is what the last change that writes the name wrote, and `later` are the changes after it. -/
def LastWrite (history : List Change) (key : String) (v : Value) (later : List Change) : Prop :=
  (∃ before c, history = before ++ c :: later ∧ Entries.get? c.written key = some v) ∧
    ∀ c ∈ later, key ∉ c.written.keys

theorem get?_lastWrite {history later : List Change} {key : String} {v : Value}
    (h : LastWrite history key v later) :
    (after history).get? key = if later.any (·.removes key) then none else some v := by
  obtain ⟨⟨before, c, rfl, hc⟩, hl⟩ := h
  have ha : after (before ++ c :: later) = later.foldl Change.apply (after (before ++ [c])) := by
    rw [after, after, ← List.foldl_append, List.append_assoc]
    rfl
  have hr : c.removes key = false := by
    cases c with
    | remove name => cases hc
    | _ => rfl
  have hv : (after (before ++ [c])).get? key = some v := by
    rw [after_concat, c.get?_apply (after_distinct before), hr, hc]
    rfl
  rw [ha, get?_unwritten (after_distinct _) hl, hv]

/-- Where a history inserts a name: the number of a change, and of an entry that it writes. -/
structure Place where
  change : Nat
  entry : Nat

def Place.before (p q : Place) : Prop :=
  p.change < q.change ∨ p.change = q.change ∧ p.entry < q.entry

def InsertedAt (history : List Change) (key : String) (p : Place) : Prop :=
  (∃ c, history[p.change]? = some c ∧ c.written.keys[p.entry]? = some key) ∧
    (after (history.take p.change)).contains key = false

def LastInsertedAt (history : List Change) (key : String) (p : Place) : Prop :=
  InsertedAt history key p ∧ ∀ q, InsertedAt history key q → q.change ≤ p.change

variable {history : List Change} {key : String} {p : Place} {c : Change}

theorem InsertedAt.change_lt (h : InsertedAt history key p) : p.change < history.length := by
  obtain ⟨⟨c, hc, -⟩, -⟩ := h
  exact (List.getElem?_eq_some_iff.1 hc).1

/-- One more change inserts the names that it writes and that are absent. -/
theorem insertedAt_concat : InsertedAt (history ++ [c]) key p ↔
    InsertedAt history key p ∨ p.change = history.length ∧
      c.written.keys[p.entry]? = some key ∧ (after history).contains key = false := by
  rcases Nat.lt_trichotomy p.change history.length with hp | hp | hp
  · have hle := Nat.le_of_lt hp
    rw [InsertedAt, InsertedAt, List.getElem?_append_left hp, List.take_append_of_le_length hle]
    simp [Nat.ne_of_lt hp]
  · have hn : ¬ InsertedAt history key p := fun h => absurd h.change_lt (by omega)
    rw [InsertedAt, hp]
    simp [hn]
  · have hn : ¬ InsertedAt history key p := fun h => absurd h.change_lt (by omega)
    have hn' : ¬ InsertedAt (history ++ [c]) key p := fun h => by
      have hl := h.change_lt
      rw [List.length_append, List.length_singleton] at hl
      omega
    simp [hn, hn', Nat.ne_of_gt hp]

/-- A name that was there before the last change was inserted where it was before. -/
theorem lastInsertedAt_present (h : (after history).contains key) :
    LastInsertedAt (history ++ [c]) key p ↔ LastInsertedAt history key p := by
  simp only [LastInsertedAt, insertedAt_concat, h, Bool.true_eq_false, and_false, or_false]

/-- A name that the last change inserts was last inserted there. -/
theorem lastInsertedAt_absent (h : (after history).contains key = false)
    (hk : key ∈ c.written.keys) : LastInsertedAt (history ++ [c]) key p ↔
      p.change = history.length ∧ c.written.keys[p.entry]? = some key := by
  constructor
  · rintro ⟨hp, hl⟩
    rw [insertedAt_concat] at hp
    rcases hp with hp | ⟨hp, he, -⟩
    · obtain ⟨j, hj⟩ := List.mem_iff_getElem?.1 hk
      have hn := hl ⟨history.length, j⟩ (insertedAt_concat.2 (.inr ⟨rfl, hj, h⟩))
      exact absurd hp.change_lt (by simpa using hn)
    · exact ⟨hp, he⟩
  · rintro ⟨hp, he⟩
    refine ⟨insertedAt_concat.2 (.inr ⟨hp, he, h⟩), fun q hq => ?_⟩
    have hl := hq.change_lt
    rw [List.length_append, List.length_singleton] at hl
    omega

theorem lastInsertedAt_exists (h : (after history).contains key) :
    ∃ p, LastInsertedAt history key p := by
  induction history using List.reverseRecOn with
  | nil => cases h
  | append_singleton history c ih =>
    by_cases hs : (after history).contains key
    · obtain ⟨p, hp⟩ := ih hs
      exact ⟨p, (lastInsertedAt_present hs).2 hp⟩
    · rw [Bool.not_eq_true] at hs
      rw [contains_iff_mem, after_concat, c.keys_apply (after_distinct history), List.mem_append,
        List.mem_filter, List.mem_filter, ← contains_iff_mem, hs] at h
      have hk : key ∈ c.written.keys := by simpa using h
      obtain ⟨j, hj⟩ := List.mem_iff_getElem?.1 hk
      exact ⟨⟨history.length, j⟩, (lastInsertedAt_absent hs hk).2 ⟨rfl, hj⟩⟩

def InsertedBefore (history : List Change) (key later : String) : Prop :=
  ∀ p q, LastInsertedAt history key p → LastInsertedAt history later q → p.before q

theorem written_ordered (c : Change) : c.written.keys.Pairwise fun key later =>
    ∀ i j : Nat, c.written.keys[i]? = some key → c.written.keys[j]? = some later → i < j := by
  rw [List.pairwise_iff_getElem]
  intro i j hi hj hij i' j' hi' hj'
  have hn : c.written.keys.Nodup := c.written_distinct
  have he : i = i' := by
    rw [← List.getElem?_eq_getElem hi] at hi'
    exact (List.getElem?_inj hi hn).1 hi'.symm
  have he' : j = j' := by
    rw [← List.getElem?_eq_getElem hj] at hj'
    exact (List.getElem?_inj hj hn).1 hj'.symm
  omega

/-- The names stand in the order of their last insertions. -/
theorem keys_ordered (history : List Change) :
    (after history).params.keys.Pairwise (InsertedBefore history) := by
  induction history using List.reverseRecOn with
  | nil => exact List.Pairwise.nil
  | append_singleton history c ih =>
    rw [after_concat, c.keys_apply (after_distinct history), List.pairwise_append]
    refine ⟨?_, ?_, ?_⟩
    · -- two names that stay
      refine (List.Pairwise.and_mem.1 ih).sublist List.filter_sublist |>.imp ?_
      rintro key later ⟨hk, hl, hb⟩ p q hp hq
      rw [← contains_iff_mem] at hk hl
      exact hb p q ((lastInsertedAt_present hk).1 hp) ((lastInsertedAt_present hl).1 hq)
    · -- two names that the last change inserts
      refine List.Pairwise.imp_of_mem ?_ ((written_ordered c).sublist List.filter_sublist)
      intro key later hk hl hb p q hp hq
      obtain ⟨hk, hka⟩ := List.mem_filter.1 hk
      obtain ⟨hl, hla⟩ := List.mem_filter.1 hl
      obtain ⟨hpc, hpe⟩ := (lastInsertedAt_absent (by simpa using hka) hk).1 hp
      obtain ⟨hqc, hqe⟩ := (lastInsertedAt_absent (by simpa using hla) hl).1 hq
      exact .inr ⟨hpc.trans hqc.symm, hb _ _ hpe hqe⟩
    · -- a name that stays and one that the last change inserts
      intro key hk later hl p q hp hq
      have hk := (contains_iff_mem _ _).2 (List.mem_filter.1 hk).1
      obtain ⟨hl, hla⟩ := List.mem_filter.1 hl
      have hlt := ((lastInsertedAt_present hk).1 hp).1.change_lt
      obtain ⟨hqc, -⟩ := (lastInsertedAt_absent (by simpa using hla) hl).1 hq
      exact .inl (by omega)

structure Reflects (history : List Change) (s : Store) : Prop where
  distinct : s.params.Distinct
  lastWrite : ∀ key v later, LastWrite history key v later →
    s.get? key = if later.any (·.removes key) then none else some v
  unwritten : ∀ key, (∀ c ∈ history, key ∉ c.written.keys) → s.get? key = none
  contains : ∀ key, s.contains key ↔ ∃ v, s.get? key = some v
  inserted : ∀ key ∈ s.params.keys, ∃ p, LastInsertedAt history key p
  ordered : s.params.keys.Pairwise (InsertedBefore history)
  overwrites : ∀ key v, s.contains key → (s.set key v).params.keys = s.params.keys
  removes : ∀ key, (s.remove key).2.params.keys = s.params.keys.filter (· ≠ key)
  removed : ∀ key, (s.remove key).1 = s.get? key
  merged : ∀ others : Entries Value, others.Distinct →
    (s.merge others).1 = (others.keys.filter fun key => !s.contains key).length
  names : ∀ key, key ∈ s.params.keys ↔ s.contains key
  size : s.size = s.params.keys.length

/-- Whatever the changes, the store reflects them. -/
theorem after_reflects (history : List Change) : Reflects history (after history) where
  distinct := after_distinct history
  lastWrite _ _ _ h := get?_lastWrite h
  unwritten key h := by
    have he : Store.empty.params.Distinct := Entries.distinct_nil
    exact (get?_unwritten he h).trans (ite_self none)
  contains _ := Option.isSome_iff_exists
  inserted key h := lastInsertedAt_exists ((contains_iff_mem _ key).2 h)
  ordered := keys_ordered history
  overwrites key v h := (Entries.keys_insert _ key v).trans (if_pos h)
  removes key := Entries.keys_erase (after_distinct history) key
  removed _ := rfl
  merged _ h := merge_added h (after history)
  names key := (contains_iff_mem _ key).symm
  size := (List.length_map _).symm

/-- A name that was removed stands last when it is written again. -/
example : (after [.set "a" .null, .set "b" .null, .remove "a", .set "a" (.bool true)]).params =
    [("b", .null), ("a", .bool true)] := rfl

end Stencil.Store
