import Stencil.Proofs.FloatOrder
import Stencil.Proofs.ValueParts
import Stencil.Render.Expr

/-! Equality of values. It is checked in one direction only, for the names of a map too, and is
symmetric all the same; a value fails to equal itself exactly if it holds a NaN; and the order of
entries does not count. -/
namespace Stencil

/-- As many names on the right as on the left, and each on the left with a match on the right: then
each on the right has its match on the left. -/
theorem Entries.Distinct.matched {α β : Type} {R : α → β → Prop} {m : Entries α} {m' : Entries β}
    (h : m.Distinct) (h' : m'.Distinct) (hlen : m.length = m'.length)
    (hmatch : ∀ e ∈ m, ∃ w, (e.1, w) ∈ m' ∧ R e.2 w) :
    ∀ e ∈ m', ∃ v, (e.1, v) ∈ m ∧ R v e.2 := by
  have hsub : m.keys ⊆ m'.keys := by
    intro k hk
    obtain ⟨e, he, rfl⟩ := List.mem_map.1 hk
    obtain ⟨w, hw, -⟩ := hmatch e he
    exact List.mem_map_of_mem hw
  have hperm : m.keys.Perm m'.keys :=
    (List.subperm_of_subset h hsub).perm_of_length_le (by simp [keys, hlen])
  rintro ⟨k, w⟩ he
  obtain ⟨⟨_, v⟩, hv, rfl⟩ := List.mem_map.1 (hperm.mem_iff.2 (List.mem_map_of_mem he))
  obtain ⟨w', hw', hR⟩ := hmatch _ hv
  have heq : w' = w := Option.some.inj ((h'.get?_eq_some.2 hw').symm.trans (h'.get?_eq_some.2 he))
  exact ⟨v, hv, heq ▸ hR⟩

theorem beq_float_self (x : Float) : x == x ↔ ¬ x.isNaN := by
  rw [beq_iff_numbers, ← number?_eq_none]
  cases number? x <;> simp

theorem beq_float_eq (x y : Float) : (x == y) = (compareFloats x y == some .eq) := by
  rw [Bool.eq_iff_iff, beq_iff_numbers, compareFloats_eq, beq_iff_eq]
  cases number? x <;> cases number? y <;> simp [@eq_comm Int]

theorem compareFloats_swap (x y : Float) :
    compareFloats y x = (compareFloats x y).map Ordering.swap := by
  rw [compareFloats_eq, compareFloats_eq]
  cases number? x <;> cases number? y <;> try rfl
  exact congrArg some Std.OrientedOrd.eq_swap

namespace Value

variable {a b c v w : Value} {xs ys : List Value} {m m' : List (String × Value)}

@[simp] theorem equal_seq : equal (seq xs) (seq ys) ↔ List.Forall₂ (equal · ·) xs ys := by
  rw [equal]
  induction xs generalizing ys with
  | nil => cases ys <;> simp [equalItems]
  | cons x xs ih => cases ys <;> simp [equalItems, ih]

@[simp] theorem equalEntries_iff :
    equalEntries m m' ↔ ∀ e ∈ m, ∃ w, Entries.get? m' e.1 = some w ∧ equal e.2 w := by
  induction m with
  | nil => simp [equalEntries]
  | cons e m ih =>
    obtain ⟨k, v⟩ := e
    cases h : Entries.get? m' k <;> simp [equalEntries, h, ih]

@[simp] theorem equal_map : equal (map m) (map m') ↔
    m.length = m'.length ∧ ∀ e ∈ m, ∃ w, Entries.get? m' e.1 = some w ∧ equal e.2 w := by
  rw [equal, Bool.and_eq_true, beq_iff_eq, equalEntries_iff]

theorem equal_map_of_distinct (hm : Entries.Distinct m') : equal (map m) (map m') ↔
    m.length = m'.length ∧ ∀ e ∈ m, ∃ w, (e.1, w) ∈ m' ∧ equal e.2 w := by
  simp only [equal_map, hm.get?_eq_some]

theorem equalItems_comm (h : ∀ x ∈ xs, ∀ y ∈ ys, equal x y = equal y x) :
    equalItems xs ys = equalItems ys xs := by
  induction xs generalizing ys with
  | nil => cases ys <;> rfl
  | cons x xs ih =>
    cases ys with
    | nil => rfl
    | cons y ys =>
      rw [equalItems, equalItems, h x (by simp) y (by simp), ih fun x' hx y' hy =>
        h x' (List.mem_cons_of_mem _ hx) y' (List.mem_cons_of_mem _ hy)]

theorem equal_comm (ha : a.Distinct) (hb : b.Distinct) : equal a b = equal b a := by
  induction a generalizing b with
  | null => cases b <;> rfl
  | bool p => cases b <;> first | rfl | exact Bool.beq_comm
  | int n => cases b <;> first | rfl | exact BEq.comm
  | float x => cases b <;> first | rfl | exact BEq.comm
  | string s => cases b <;> first | rfl | exact BEq.comm
  | seq xs ih =>
    cases b with
    | seq ys => exact equalItems_comm fun x hx y hy => ih x hx (ha.item hx) (hb.item hy)
    | _ => rfl
  | map m ih =>
    cases b with
    | map m' =>
      have hcomm {e e' : String × Value} (he : e ∈ m) (he' : e' ∈ m') :
          equal e.2 e'.2 = equal e'.2 e.2 := ih e he (ha.entry he) (hb.entry he')
      rw [Bool.eq_iff_iff, equal_map_of_distinct hb.names, equal_map_of_distinct ha.names]
      constructor
      · rintro ⟨hlen, h⟩
        refine ⟨hlen.symm, ha.names.matched (R := fun v w => equal w v) hb.names hlen ?_⟩
        intro e he
        obtain ⟨w, hw, heq⟩ := h e he
        exact ⟨w, hw, (hcomm he hw).symm.trans heq⟩
      · rintro ⟨hlen, h⟩
        refine ⟨hlen.symm, fun e he => ?_⟩
        obtain ⟨w, hw, heq⟩ := hb.names.matched (R := (equal · ·)) ha.names hlen h e he
        exact ⟨w, hw, (hcomm he hw).trans heq⟩
    | _ => rfl

theorem hasNaN_seq : HasNaN (seq xs) ↔ ∃ x ∈ xs, HasNaN x := by
  simp only [HasNaN, partOf_seq, reduceCtorEq, false_or]
  constructor
  · rintro ⟨x, hx, v, hv, hp⟩
    exact ⟨v, hv, x, hx, hp⟩
  · rintro ⟨v, hv, x, hx, hp⟩
    exact ⟨x, hx, v, hv, hp⟩

theorem hasNaN_map : HasNaN (map m) ↔ ∃ e ∈ m, HasNaN e.2 := by
  simp only [HasNaN, partOf_map, reduceCtorEq, false_or]
  constructor
  · rintro ⟨x, hx, e, he, hp⟩
    exact ⟨e, he, x, hx, hp⟩
  · rintro ⟨e, he, x, hx, hp⟩
    exact ⟨x, hx, e, he, hp⟩

/-- A value that holds no NaN equals itself, and no other does. -/
theorem equal_self (ha : a.Distinct) : equal a a ↔ ¬ a.HasNaN := by
  induction a with
  | null | bool p | int n | string s => simp [equal, HasNaN]
  | float x =>
    simp only [HasNaN, partOf_float, float.injEq, exists_eq_right]
    exact beq_float_self x
  | seq xs ih =>
    rw [equal_seq, List.forall₂_same, hasNaN_seq]
    simp only [not_exists, not_and]
    exact forall₂_congr fun x hx => ih x hx (ha.item hx)
  | map m ih =>
    rw [equal_map_of_distinct ha.names, hasNaN_map]
    simp only [true_and, not_exists, not_and]
    refine forall₂_congr fun e he => ?_
    rw [← ih e he (ha.entry he)]
    constructor
    · rintro ⟨w, hw, heq⟩
      have : w = e.2 := Option.some.inj
        ((ha.names.get?_eq_some.2 hw).symm.trans (ha.names.get?_eq_some.2 he))
      exact this ▸ heq
    · exact fun heq => ⟨e.2, he, heq⟩

inductive Reordered : Value → Value → Prop where
  | refl (v : Value) : Reordered v v
  | trans {u v w : Value} : Reordered u v → Reordered v w → Reordered u w
  | entries {m m' : List (String × Value)} : m.Perm m' → Reordered (map m) (map m')
  | item {v w : Value} (before after : List Value) : Reordered v w →
      Reordered (seq (before ++ v :: after)) (seq (before ++ w :: after))
  | entry {v w : Value} (name : String) (before after : List (String × Value)) : Reordered v w →
      Reordered (map (before ++ (name, v) :: after)) (map (before ++ (name, w) :: after))

theorem distinct_seq : (seq xs).Distinct ↔ ∀ x ∈ xs, x.Distinct := by
  simp only [Distinct, partOf_seq, reduceCtorEq, false_or]
  constructor
  · intro h x hx m hp
    exact h m ⟨x, hx, hp⟩
  · rintro h m ⟨x, hx, hp⟩
    exact h x hx m hp

theorem distinct_map : (map m).Distinct ↔ Entries.Distinct m ∧ ∀ e ∈ m, e.2.Distinct := by
  constructor
  · exact fun h => ⟨h.names, fun e he => h.entry he⟩
  · rintro ⟨hm, h⟩ m' hp
    rcases partOf_map.1 hp with heq | ⟨e, he, hp⟩
    · exact Value.map.inj heq ▸ hm
    · exact h e he m' hp

theorem Reordered.distinct (h : Reordered v w) (hv : v.Distinct) : w.Distinct := by
  induction h with
  | refl => exact hv
  | trans _ _ ihu ihv => exact ihv (ihu hv)
  | entries hperm =>
    rw [distinct_map] at hv ⊢
    exact ⟨(hperm.map _).nodup_iff.1 hv.1, fun e he => hv.2 e (hperm.mem_iff.2 he)⟩
  | item before after _ ih =>
    simp only [distinct_seq, List.forall_mem_append, List.forall_mem_cons] at hv ⊢
    exact ⟨hv.1, ih hv.2.1, hv.2.2⟩
  | entry name before after _ ih =>
    simp only [distinct_map, List.forall_mem_append, List.forall_mem_cons] at hv ⊢
    refine ⟨?_, hv.2.1, ih hv.2.2.1, hv.2.2.2⟩
    simpa [Entries.Distinct, Entries.keys] using hv.1

theorem Reordered.equal_left (h : Reordered v w) (b : Value) : equal v b = equal w b := by
  induction h generalizing b with
  | refl => rfl
  | trans _ _ ihu ihv => exact (ihu b).trans (ihv b)
  | entries hperm =>
    cases b with
    | map m' =>
      rw [Bool.eq_iff_iff, equal_map, equal_map, hperm.length_eq]
      simp only [hperm.mem_iff]
    | _ => rfl
  | item before after _ ih =>
    cases b with
    | seq ys =>
      rw [equal, equal]
      induction before generalizing ys with
      | nil => cases ys <;> simp [equalItems, ih]
      | cons x before ihb => cases ys <;> simp [equalItems, ihb]
    | _ => rfl
  | entry name before after _ ih =>
    cases b with
    | map m' =>
      rw [Bool.eq_iff_iff]
      simp only [equal_map, List.length_append, List.length_cons, List.forall_mem_append,
        List.forall_mem_cons, ih]
    | _ => rfl

theorem equal_reordered {a' b' : Value} (ha : a.Distinct) (hb : b.Distinct)
    (haa : Reordered a a') (hbb : Reordered b b') : equal a' b' = equal a b := by
  calc equal a' b' = equal a b' := (haa.equal_left b').symm
    _ = equal b' a := equal_comm ha (hbb.distinct hb)
    _ = equal b a := (hbb.equal_left a).symm
    _ = equal a b := (equal_comm ha hb).symm

/-- Where an order applies, to be equal is to be of equal order. -/
theorem equal_of_order? {o : Option Ordering} (h : order? a b = some o) :
    equal a b = (o == some .eq) := by
  cases a <;> cases b <;> simp only [order?, toFloat?, Option.some.injEq, reduceCtorEq] at h <;>
    subst h
  case int.int m n =>
    rw [Bool.eq_iff_iff]
    simp [equal]
  case string.string s t =>
    rw [Bool.eq_iff_iff]
    simp [equal]
  all_goals exact beq_float_eq _ _

theorem order?_swap : order? b a = (order? a b).map (Option.map Ordering.swap) := by
  cases a <;> cases b <;> simp only [order?, toFloat?, Option.map_some, Option.map_none]
  case int.int m n => exact congrArg (some ∘ some) Std.OrientedOrd.eq_swap
  case string.string s t => exact congrArg (some ∘ some) Std.OrientedOrd.eq_swap
  all_goals rw [compareFloats_swap]

end Value

def Comparison.converse : Comparison → Comparison
  | eq => eq
  | ne => ne
  | lt => gt
  | le => ge
  | gt => lt
  | ge => le

namespace Render

open Value

variable {a b : Value}

def answer (op : Comparison) : Option Ordering → Bool
  | some o => op.holds o
  | none => op == .ne

theorem compare_of_order? (op : Comparison) {o : Option Ordering} (h : order? a b = some o) :
    compare op a b = .ok (answer op o) := by
  cases o <;> simp only [compare, compare?, h, answer]

theorem answer_swap (op : Comparison) (o : Option Ordering) :
    answer op.converse (o.map Ordering.swap) = answer op o := by
  rcases o with _ | o
  · cases op <;> rfl
  · cases op <;> cases o <;> rfl

/-- Beside numbers and strings only values of one kind compare, and only for being equal. -/
theorem compare_of_no_order (op : Comparison) (h : order? a b = none) : compare op a b =
    if a.kind = b.kind ∧ op = .eq then .ok (equal a b)
    else if a.kind = b.kind ∧ op = .ne then .ok (!equal a b)
    else .error (.typeError (.comparison op) (.pair a.kind b.kind)) := by
  by_cases hk : a.kind = b.kind
  · cases op <;> simp [compare, compare?, h, hk]
  · simp [compare, compare?, h, hk]

theorem compare_eq_equal {r : Bool} (h : compare .eq a b = .ok r) :
    r = equal a b ∧ compare .ne a b = .ok (!r) := by
  cases ho : order? a b with
  | some o =>
    rw [compare_of_order? _ ho, Except.ok.injEq] at h
    rw [compare_of_order? _ ho, equal_of_order? ho, ← h]
    rcases o with _ | o
    · exact ⟨rfl, rfl⟩
    · cases o <;> exact ⟨rfl, rfl⟩
  | none =>
    rw [compare_of_no_order _ ho] at h ⊢
    by_cases hk : a.kind = b.kind <;> simp [hk] at h ⊢
    simp [h]

theorem compare_converse (op : Comparison) (ha : a.Distinct) (hb : b.Distinct) :
    (∃ r, compare op a b = .ok r ∧ compare op.converse b a = .ok r) ∨
      (compare op a b = .error (.typeError (.comparison op) (.pair a.kind b.kind)) ∧
        compare op.converse b a =
          .error (.typeError (.comparison op.converse) (.pair b.kind a.kind))) := by
  have hswap : order? b a = (order? a b).map (Option.map Ordering.swap) := order?_swap
  cases ho : order? a b with
  | some o =>
    rw [ho] at hswap
    exact .inl ⟨answer op o, compare_of_order? op ho,
      (compare_of_order? op.converse hswap).trans (congrArg _ (answer_swap op o))⟩
  | none =>
    rw [ho] at hswap
    rw [compare_of_no_order op ho, compare_of_no_order op.converse hswap, equal_comm hb ha]
    by_cases hk : a.kind = b.kind
    · cases op <;> simp [hk, Comparison.converse]
    · simp [hk, Ne.symm hk]

theorem contains_seq (items : List Value) : ∃ r, contains b (.seq items) = .ok r ∧
    (r ↔ ∃ e ∈ items, equal e b) :=
  ⟨items.any (equal · b), rfl, by simp⟩

/-- Equality agrees with itself in either order, with the comparisons and with membership, and only
a NaN stands in its way. -/
theorem equality_coherent (ha : a.Distinct) (hb : b.Distinct) :
    equal a b = equal b a ∧ (equal a a ↔ ¬ a.HasNaN) ∧
    (∀ a' b', Reordered a a' → Reordered b b' → equal a' b' = equal a b) ∧
    (∀ r, compare .eq a b = .ok r → r = equal a b ∧ compare .ne a b = .ok (!r)) ∧
    (∀ op, (∃ r, compare op a b = .ok r ∧ compare op.converse b a = .ok r) ∨
      (compare op a b = .error (.typeError (.comparison op) (.pair a.kind b.kind)) ∧
        compare op.converse b a =
          .error (.typeError (.comparison op.converse) (.pair b.kind a.kind)))) ∧
    ∀ items, ∃ r, contains b (.seq items) = .ok r ∧ (r ↔ ∃ e ∈ items, equal e b) :=
  ⟨equal_comm ha hb, equal_self ha, fun _ _ => equal_reordered ha hb, fun _ => compare_eq_equal,
    fun op => compare_converse op ha hb, contains_seq⟩

theorem equality_coherent_swapped :
    let a := Value.map [("x", .int 1), ("y", .seq [.float 2.5, .string "s"])]
    let a' := Value.map [("y", .seq [.float 2.5, .string "s"]), ("x", .int 1)]
    let b := Value.map [("y", .seq [.float 2.5, .string "s"]), ("x", .float 1.0)]
    a.Distinct ∧ b.Distinct ∧ Reordered a a' ∧ equal a b = equal b a ∧ (equal a a ↔ ¬ a.HasNaN) ∧
      equal a' b = equal a b ∧ compare .ne a b = .ok (!true) := by
  intro a a' b
  have ha : a.Distinct := by
    simp [a, Distinct, Entries.Distinct, Entries.keys]
  have hb : b.Distinct := by
    simp [b, Distinct, Entries.Distinct, Entries.keys]
  have haa : Reordered a a' := .entries (.swap _ _ _)
  obtain ⟨hcomm, hself, hreordered, heq, -⟩ := equality_coherent ha hb
  have hok : compare .eq a b = .ok true := rfl
  exact ⟨ha, hb, haa, hcomm, hself, hreordered a' b haa (.refl b), (heq true hok).2⟩

end Render
end Stencil
