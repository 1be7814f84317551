import Stencil.Yaml.Document

/-! No mapping of a document has two equal keys. A reader refuses the second of them, and what it
has built of the other nodes it only puts together. -/
namespace Stencil.Yaml.Document

mutual

def KeysDiffer : Document → Prop
  | sequence items => ItemsDiffer items
  | mapping entries =>
    entries.Pairwise (fun e later => equal later.1 e.1 = false) ∧ EntriesDiffer entries
  | tagged _ contents => KeysDiffer contents
  | null | bool _ | int _ | float _ | string _ => True

def ItemsDiffer : List Document → Prop
  | [] => True
  | d :: ds => KeysDiffer d ∧ ItemsDiffer ds

def EntriesDiffer : List (Document × Document) → Prop
  | [] => True
  | (k, d) :: es => KeysDiffer k ∧ KeysDiffer d ∧ EntriesDiffer es

end

theorem entriesDiffer_append (es fs : List (Document × Document)) :
    EntriesDiffer (es ++ fs) ↔ EntriesDiffer es ∧ EntriesDiffer fs := by
  induction es with
  | nil => simp [EntriesDiffer]
  | cons e es ih => simp [EntriesDiffer, ih, and_assoc]

theorem KeysDiffer.withTag {d : Document} (h : d.KeysDiffer) (tag : Option Tag) :
    (withTag tag d).KeysDiffer := by
  rw [Document.withTag]
  split
  · exact h
  · exact h

/-! What is known of everything that a reader returns. -/

variable {α β : Type} {P : α → Prop} {Q : β → Prop}

structure Gives (P : α → Prop) (x : StateT Nat Option α) : Prop where
  holds : ∀ n a m, x n = some (a, m) → P a

theorem Gives.pure {a : α} (h : P a) : Gives P (Pure.pure a) := by
  constructor
  intro n b m hb
  cases hb
  exact h

theorem gives_failure : Gives P failure := by
  constructor
  intro n a m h
  cases h

theorem gives_lift {x : Option α} (h : ∀ a, x = some a → P a) :
    Gives P (liftM x : StateT Nat Option α) := by
  constructor
  intro n a m ha
  cases x with
  | none => cases ha
  | some b =>
    cases ha
    exact h a rfl

theorem Gives.bind {x : StateT Nat Option α} {f : α → StateT Nat Option β} (hx : Gives P x)
    (hf : ∀ a, P a → Gives Q (f a)) : Gives Q (x >>= f) := by
  constructor
  intro n b m hb
  obtain ⟨⟨a, k⟩, ha, hb⟩ := Option.bind_eq_some_iff.1 hb
  exact (hf a (hx.holds n a k ha)).holds k b m hb

theorem gives_mapM {f : α → StateT Nat Option Document} (hf : ∀ a, Gives KeysDiffer (f a))
    (items : List α) : Gives ItemsDiffer (items.mapM f) := by
  induction items with
  | nil => exact Gives.pure trivial
  | cons a items ih =>
    rw [List.mapM_cons]
    apply (hf a).bind
    intro d hd
    apply ih.bind
    intro ds hds
    exact Gives.pure ⟨hd, hds⟩

theorem ofText_keysDiffer {tag : Option Tag} {plain : Bool} {text : String} {d : Document}
    (h : ofText tag plain text = some d) : d.KeysDiffer := by
  have hs : ∀ s : Scalar, ofScalar text s = some d → d.KeysDiffer := by
    intro s hs
    cases s <;> cases hs <;> trivial
  have ht : ∀ c : CoreType, ofTyped text c = some d → d.KeysDiffer := by
    intro c hc
    cases c with
    | bool =>
      obtain ⟨b, -, rfl⟩ := Option.map_eq_some_iff.1 hc
      trivial
    | int =>
      rw [ofTyped] at hc
      split at hc
      · cases hc
        trivial
      · cases hc
    | float =>
      obtain ⟨x, -, rfl⟩ := Option.map_eq_some_iff.1 hc
      trivial
    | null =>
      rw [ofTyped] at hc
      split at hc
      · cases hc
        trivial
      · cases hc
  rw [ofText] at h
  split at h
  · exact ht _ h
  · split at h
    · exact hs _ h
    · cases h
      trivial

theorem buildScalar_gives (props : Props) (text : String) (plain : Bool) :
    Gives KeysDiffer (buildScalar props text plain) := by
  apply (gives_lift fun d hd => ofText_keysDiffer hd).bind
  intro d hd
  exact Gives.pure (hd.withTag props.tag)

/-- The invariant of a mapping that is being built: no new key equals one that is done. -/
theorem buildEntries_gives {read : Node Nat → StateT Nat Option Document}
    (hr : ∀ node, Gives KeysDiffer (read node)) (es : List (Node Nat × Node Nat))
    (done : List (Document × Document)) (hd : (mapping done.reverse).KeysDiffer) :
    Gives (fun entries => (mapping entries).KeysDiffer) (buildEntries read done es) := by
  induction es generalizing done with
  | nil => exact Gives.pure hd
  | cons e es ih =>
    rw [buildEntries]
    apply (hr e.1).bind
    intro k hk
    by_cases hn : done.any (equal k ·.1)
    · rw [if_pos hn]
      exact gives_failure
    · rw [if_neg hn]
      apply (hr e.2).bind
      intro v hv
      apply ih
      obtain ⟨hp, he⟩ := hd
      rw [List.reverse_cons]
      constructor
      · rw [List.pairwise_append]
        refine ⟨hp, List.pairwise_singleton _ _, ?_⟩
        intro e he f hf
        simp at hf hn he
        subst f
        exact hn _ _ he
      · rw [entriesDiffer_append]
        exact ⟨he, hk, hv, trivial⟩

theorem build_gives (find : Nat → Option (Node Nat)) (limit depth : Nat) (node : Node Nat) :
    Gives KeysDiffer (build find limit depth node) := by
  induction depth generalizing node with
  | zero =>
    rw [build]
    apply Gives.bind (P := fun _ => True) ⟨fun _ _ _ _ => trivial⟩
    intro node _
    cases node with
    | scalar props text plain => exact buildScalar_gives props text plain
    | aliasTo | sequence | mapping => exact gives_failure
  | succ depth ih =>
    rw [build]
    apply Gives.bind (P := fun _ => True) ⟨fun _ _ _ _ => trivial⟩
    intro node _
    cases node with
    | aliasTo => exact gives_failure
    | scalar props text plain => exact buildScalar_gives props text plain
    | sequence props items =>
      apply (gives_mapM ih items).bind
      intro ds hds
      have hs : (sequence ds).KeysDiffer := hds
      exact Gives.pure (hs.withTag props.tag)
    | mapping props entries =>
      apply (buildEntries_gives ih entries [] ⟨List.Pairwise.nil, trivial⟩).bind
      intro es hes
      exact Gives.pure (hes.withTag props.tag)

theorem ofNode_keysDiffer {node : Node String} {d : Document} (h : ofNode node = some d) :
    d.KeysDiffer := by
  obtain ⟨⟨linked, anchors⟩, -, h⟩ := Option.bind_eq_some_iff.1 h
  obtain ⟨⟨e, m⟩, he, h⟩ := Option.bind_eq_some_iff.1 h
  cases h
  exact (build_gives anchors.find? _ _ linked).holds _ _ _ he

/-- In a document that was read, no mapping has two equal keys. -/
theorem ofSource?_keysDiffer {s : String} {d : Document} (h : ofSource? s = some d) :
    d.KeysDiffer := by
  obtain ⟨ts, -, h⟩ := Option.bind_eq_some_iff.1 h
  split at h
  · cases h
    trivial
  · obtain ⟨node, -, h⟩ := Option.bind_eq_some_iff.1 h
    exact ofNode_keysDiffer h

end Stencil.Yaml.Document
