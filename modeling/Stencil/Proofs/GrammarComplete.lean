import Stencil.Proofs.GrammarSound

/-! What the grammar derives is accepted. An expression must not be followed by a symbol that goes
on with it, so each kind of expression is read up to its own loop first. -/
namespace Stencil.Template

variable {α : Type} {ts : List Token}

def Yields (x : Except ParseError (Parsed α ts)) (v : α) (u : List Symbol) : Prop :=
  ∃ r, x = .ok r ∧ r.value = v ∧ symbols r.rest = u

theorem symbols_eq_cons {s : Symbol} {u : List Symbol} (h : symbols ts = s :: u) :
    ∃ p rest, ts = ⟨s, p⟩ :: rest ∧ symbols rest = u := by
  obtain ⟨⟨_, p⟩, rest, rfl, rfl, hu⟩ := List.map_eq_cons_iff.1 h
  exact ⟨p, rest, rfl, hu⟩

theorem expect_yields {s : Symbol} (last : Pos) {u : List Symbol} (h : symbols ts = s :: u) :
    Yields (expect s last ts) () u := by
  obtain ⟨p, rest, rfl, hu⟩ := symbols_eq_cons h
  exact ⟨⟨(), p, rest, Nat.lt_succ_self _⟩, by simp [expect], rfl, hu⟩

theorem close_yields {s : Symbol} {r : Parsed α ts} {u : List Symbol}
    (h : symbols r.rest = s :: u) : Yields (r.close s) r.value u := by
  obtain ⟨c, hc, _, hu⟩ := expect_yields r.last h
  exact ⟨⟨r.value, c.last, c.rest, _⟩, by rw [Parsed.close, hc], rfl, hu⟩

theorem IsLiteral.literal? {l : Symbol} {v : Value} (h : IsLiteral l v) : literal? l = some v := by
  cases h <;> rfl

theorem readArgs_yields {s : List Symbol} {vs : List Value} (h : Literals s vs) :
    ∀ (last : Pos) {ts : List Token} {u : List Symbol}, symbols ts = s ++ .rightParen :: u →
      Yields (readArgs last ts) vs u := by
  induction h with
  | one hl =>
    intro last ts u hs
    obtain ⟨p, rest, rfl, hrest⟩ := symbols_eq_cons hs
    obtain ⟨q, more, rfl, hmore⟩ := symbols_eq_cons hrest
    rw [readArgs]
    simp only [hl.literal?]
    exact close_yields hrest
  | more hl _ ih =>
    intro last ts u hs
    obtain ⟨p, rest, rfl, hrest⟩ := symbols_eq_cons hs
    obtain ⟨q, more, rfl, hmore⟩ := symbols_eq_cons hrest
    obtain ⟨r, hr, hv, hu⟩ := ih q hmore
    refine ⟨(r.map _).within (by simp only [List.length_cons]; omega), ?_, congrArg _ hv, hu⟩
    rw [readArgs]
    simp only [hl.literal?, hr]

theorem Literals.not_close {s : List Symbol} {vs : List Value} (h : Literals s vs)
    {u v : List Symbol} : .rightParen :: u ≠ s ++ v := by
  rintro hu
  cases h with
  | one hl => cases hu; cases hl
  | more hl => cases hu; cases hl

/-- How loosely a symbol goes on with the expression before it. -/
def Symbol.looseness : Symbol → Nat
  | .dot | .leftBracket | .leftParen => 0
  | .pipe => 1
  | .compare _ | .keyword .in_ | .keyword .not => 2
  | .keyword .and => 3
  | .keyword .or => 4
  | _ => 5

/-- No symbol in front goes on with an expression as tightly as that. -/
def EndsAt (n : Nat) (u : List Symbol) : Prop := ∀ a ∈ u.head?, n < a.looseness

theorem EndsAt.cons {n : Nat} {a : Symbol} {u : List Symbol} :
    EndsAt n (a :: u) ↔ n < a.looseness := by
  simp [EndsAt]

theorem EndsAt.mono {m n : Nat} {u : List Symbol} (h : EndsAt n u) (hm : m ≤ n) : EndsAt m u :=
  fun a ha => Nat.lt_of_le_of_lt hm (h a ha)

theorem EndsAt.head {n : Nat} {u : List Symbol} {a : Symbol} {p : Pos} {rest : List Token}
    (h : EndsAt n u) (hu : symbols ts = u) (ht : ts = ⟨a, p⟩ :: rest) : n < a.looseness := by
  subst hu ht
  exact EndsAt.cons.1 h

theorem readCall_yields {s : List Symbol} {c : Call} (h : CallPhrase s c) (last : Pos)
    {u : List Symbol} (hs : symbols ts = s ++ u) (hu : EndsAt 0 u) :
    Yields (readCall last ts) c u := by
  cases h with
  | @bare name hf =>
    obtain ⟨p, rest, rfl, hrest⟩ := symbols_eq_cons hs
    have hc : Call.refusal? ⟨name, []⟩ = none := refusal?_eq_none.2 hf
    have ha : @readArgList (⟨.word name, p⟩ :: rest) ⟨name, p, rest, Nat.lt_succ_self _⟩ =
        .ok ⟨[], p, rest, Nat.lt_succ_self _⟩ := by
      unfold readArgList
      split
      · rename_i hr
        exact absurd (hu.head hrest hr) (by decide)
      · rename_i hr
        exact absurd (hu.head hrest hr) (by decide)
      · rfl
    rw [readCall, ha]
    simp only [hc]
    exact ⟨_, rfl, rfl, hrest⟩
  | @empty name hf =>
    obtain ⟨p, rest, rfl, hrest⟩ := symbols_eq_cons hs
    obtain ⟨q, more, rfl, hmore⟩ := symbols_eq_cons hrest
    obtain ⟨q', more', rfl, hmore'⟩ := symbols_eq_cons hmore
    have hc : Call.refusal? ⟨name, []⟩ = none := refusal?_eq_none.2 hf
    rw [readCall]
    simp only [readArgList, hc]
    exact ⟨_, rfl, rfl, hmore'⟩
  | @args name s vs hl hf =>
    obtain ⟨p, rest, rfl, hrest⟩ := symbols_eq_cons hs
    obtain ⟨q, more, rfl, hmore⟩ := symbols_eq_cons hrest
    have hc : Call.refusal? ⟨name, vs⟩ = none := refusal?_eq_none.2 hf
    obtain ⟨r, hr, hv, hu⟩ := readArgs_yields hl q (u := u) (by simpa using hmore)
    have ha : @readArgList (⟨.word name, p⟩ :: ⟨.leftParen, q⟩ :: more)
        ⟨name, p, ⟨.leftParen, q⟩ :: more, Nat.lt_succ_self _⟩ =
        .ok (r.within (by simp only [List.length_cons]; omega)) := by
      unfold readArgList
      split
      · rename_i hr
        cases hr
        exact absurd (by simpa using hmore) hl.not_close
      · rename_i hr'
        cases hr'
        rw [hr]
      · rename_i hne
        exact absurd rfl (hne q more)
    rw [readCall, ha]
    simp only [Parsed.within_value, hv, hc]
    exact ⟨_, rfl, by simp [hv], hu⟩

theorem ofName?_methodName (m : Method) : Method.ofName? m.name = some m := by
  cases m <;> decide

theorem Steps.noCall {s : List Symbol} {l : List Segment} (h : Steps s l) {u : List Symbol}
    (hu : EndsAt 0 u) : ∀ t, s ++ u ≠ .leftParen :: t := by
  rintro t ht
  cases h with
  | done =>
    rw [List.nil_append] at ht
    subst ht
    exact absurd (EndsAt.cons.1 hu) (by decide)
  | _ => cases ht

/-- A step after a dot is taken, then the others. -/
theorem extendPath_attribute {path : Parsed Path ts} {p : Pos} {rest : List Token}
    {seg : Segment} {v : Path} {w u : List Symbol} (hr : path.rest = ⟨.dot, p⟩ :: rest)
    (hseg : Yields (readAttribute p rest) seg w)
    (ih : ∀ next : Parsed Path ts, symbols next.rest = w →
      next.value = ⟨path.value.root, path.value.segments ++ [seg]⟩ →
      Yields (extendPath next) v u) : Yields (extendPath path) v u := by
  obtain ⟨r, hseg, rfl, hw⟩ := hseg
  rw [extendPath]
  split
  · rename_i hr'
    cases hr.symm.trans hr'
    rw [hseg]
    exact ih _ hw rfl
  · rename_i hr'
    cases hr.symm.trans hr'
  · rename_i hne _
    exact absurd hr (hne p rest)

/-- A step in brackets is taken, then the others. -/
theorem extendPath_index {path : Parsed Path ts} {p : Pos} {rest : List Token}
    {seg : Segment} {v : Path} {w u : List Symbol} (hr : path.rest = ⟨.leftBracket, p⟩ :: rest)
    (hseg : Yields (readIndex p rest) seg w)
    (ih : ∀ next : Parsed Path ts, symbols next.rest = w →
      next.value = ⟨path.value.root, path.value.segments ++ [seg]⟩ →
      Yields (extendPath next) v u) : Yields (extendPath path) v u := by
  obtain ⟨r, hseg, rfl, hw⟩ := hseg
  rw [extendPath]
  split
  · rename_i hr'
    cases hr.symm.trans hr'
  · rename_i hr'
    cases hr.symm.trans hr'
    rw [hseg]
    exact ih _ hw rfl
  · rename_i _ hne
    exact absurd hr (hne p rest)

theorem extendPath_yields {s : List Symbol} {l : List Segment} (h : Steps s l) :
    ∀ {ts : List Token} {path : Parsed Path ts} {u : List Symbol}, symbols path.rest = s ++ u →
      EndsAt 0 u →
      Yields (extendPath path) ⟨path.value.root, path.value.segments ++ l⟩ u := by
  induction h with
  | done =>
    intro ts path u hs hu
    refine ⟨path, ?_, by simp, hs⟩
    rw [extendPath]
    split
    · rename_i hr
      exact absurd (hu.head hs hr) (by decide)
    · rename_i hr
      exact absurd (hu.head hs hr) (by decide)
    · rfl
  | @name s l name h ih =>
    intro ts path u hs hu
    obtain ⟨p, rest, hr, hrest⟩ := symbols_eq_cons hs
    obtain ⟨q, more, rfl, hmore⟩ := symbols_eq_cons hrest
    have hseg : readAttribute p (⟨.word name, q⟩ :: more) =
        .ok ⟨.key name, q, more, Nat.lt_succ_self _⟩ := by
      refine readAttribute.eq_2 p name q more fun q' rest hm => ?_
      rw [hm] at hmore
      exact h.noCall hu _ hmore.symm
    refine extendPath_attribute hr ⟨_, hseg, rfl, hmore⟩ fun next hw hv => ?_
    simpa [hv] using ih hw hu
  | @method s l m h ih =>
    intro ts path u hs hu
    obtain ⟨p, rest, hr, hrest⟩ := symbols_eq_cons hs
    obtain ⟨q, more, rfl, hmore⟩ := symbols_eq_cons hrest
    obtain ⟨q', more', rfl, hmore'⟩ := symbols_eq_cons hmore
    have hseg : Yields (readAttribute p (⟨.word m.name, q⟩ :: ⟨.leftParen, q'⟩ :: more'))
        (.method m) (s ++ u) := by
      obtain ⟨c, hc, _, hw⟩ := expect_yields q' hmore'
      rw [readAttribute]
      simp only [hc, ofName?_methodName]
      exact ⟨_, rfl, rfl, hw⟩
    refine extendPath_attribute hr hseg fun next hw hv => ?_
    simpa [hv] using ih hw hu
  | @keyword s l k h ih =>
    intro ts path u hs hu
    obtain ⟨p, rest, hr, hrest⟩ := symbols_eq_cons hs
    obtain ⟨q, more, rfl, hmore⟩ := symbols_eq_cons hrest
    refine extendPath_attribute (w := s ++ u) hr ⟨_, rfl, rfl, hmore⟩ fun next hw hv => ?_
    simpa [hv] using ih hw hu
  | @number s l n h ih =>
    intro ts path u hs hu
    obtain ⟨p, rest, hr, hrest⟩ := symbols_eq_cons hs
    obtain ⟨q, more, rfl, hmore⟩ := symbols_eq_cons hrest
    refine extendPath_attribute (w := s ++ u) hr ⟨_, rfl, rfl, hmore⟩ fun next hw hv => ?_
    simpa [hv] using ih hw hu
  | @index s l n h ih =>
    intro ts path u hs hu
    obtain ⟨p, rest, hr, hrest⟩ := symbols_eq_cons hs
    obtain ⟨q, more, rfl, hmore⟩ := symbols_eq_cons hrest
    refine extendPath_index (w := s ++ u) hr (close_yields hmore) fun next hw hv => ?_
    simpa [hv] using ih hw hu
  | @key s l name h ih =>
    intro ts path u hs hu
    obtain ⟨p, rest, hr, hrest⟩ := symbols_eq_cons hs
    obtain ⟨q, more, rfl, hmore⟩ := symbols_eq_cons hrest
    refine extendPath_index (w := s ++ u) hr (close_yields hmore) fun next hw hv => ?_
    simpa [hv] using ih hw hu

def readAt : Level → (last : Pos) → (ts : List Token) → Except ParseError (Parsed Expr ts)
  | .disjunction => readExpr
  | .conjunction => readAnd
  | .negation => readNot
  | .comparison => readComparison
  | .filtered => readFiltered
  | .primary => readPrimary

def extendAt : Level → Parsed Expr ts → Except ParseError (Parsed Expr ts)
  | .disjunction => extendOr
  | .conjunction => extendAnd
  | .filtered => extendFilters
  | _ => .ok

def Level.inner : Level → Nat
  | .disjunction => 3
  | .conjunction | .negation | .comparison => 2
  | .filtered | .primary => 0

def Level.outer : Level → Nat
  | .disjunction => 4
  | .conjunction => 3
  | .negation | .comparison => 2
  | .filtered => 1
  | .primary => 0

theorem extendAt_ends {k : Level} {left : Parsed Expr ts} {u : List Symbol}
    (hs : symbols left.rest = u) (hu : EndsAt k.outer u) : extendAt k left = .ok left := by
  cases k with
  | disjunction =>
    rw [extendAt, extendOr]
    split
    · rename_i hr
      exact absurd (hu.head hs hr) (by decide)
    · rfl
  | conjunction =>
    rw [extendAt, extendAnd]
    split
    · rename_i hr
      exact absurd (hu.head hs hr) (by decide)
    · rfl
  | filtered =>
    rw [extendAt, extendFilters]
    split
    · rename_i hr
      exact absurd (hu.head hs hr) (by decide)
    · rfl
  | _ => rfl

theorem extendOr_step {left : Parsed Expr ts} {p : Pos} {rest : List Token} {f : Expr}
    {u : List Symbol} (hr : left.rest = ⟨.keyword .or, p⟩ :: rest)
    (hf : Yields (readAnd p rest) f u) :
    ∃ next : Parsed Expr ts, extendOr left = extendOr next ∧ next.value = .or left.value f ∧
      symbols next.rest = u := by
  obtain ⟨right, hf, rfl, hu⟩ := hf
  rw [extendOr.eq_def left]
  split
  · rename_i hr'
    cases hr.symm.trans hr'
    rw [hf]
    exact ⟨_, rfl, rfl, hu⟩
  · rename_i hne
    exact absurd hr (hne p rest)

theorem extendAnd_step {left : Parsed Expr ts} {p : Pos} {rest : List Token} {f : Expr}
    {u : List Symbol} (hr : left.rest = ⟨.keyword .and, p⟩ :: rest)
    (hf : Yields (readNot p rest) f u) :
    ∃ next : Parsed Expr ts, extendAnd left = extendAnd next ∧ next.value = .and left.value f ∧
      symbols next.rest = u := by
  obtain ⟨right, hf, rfl, hu⟩ := hf
  rw [extendAnd.eq_def left]
  split
  · rename_i hr'
    cases hr.symm.trans hr'
    rw [hf]
    exact ⟨_, rfl, rfl, hu⟩
  · rename_i hne
    exact absurd hr (hne p rest)

theorem extendFilters_step {target : Parsed Expr ts} {p : Pos} {rest : List Token} {c : Call}
    {u : List Symbol} (hr : target.rest = ⟨.pipe, p⟩ :: rest)
    (hc : Yields (readCall p rest) c u) :
    ∃ next : Parsed Expr ts, extendFilters target = extendFilters next ∧
      next.value = .filter target.value c ∧ symbols next.rest = u := by
  obtain ⟨call, hc, rfl, hu⟩ := hc
  rw [extendFilters.eq_def target]
  split
  · rename_i hr'
    cases hr.symm.trans hr'
    rw [hc]
    exact ⟨_, rfl, rfl, hu⟩
  · rename_i hne
    exact absurd hr (hne p rest)

/-- No comparison starts with `not`. -/
theorem Phrase.noNot {k : Level} {s : List Symbol} {e : Expr} (h : Phrase k s e) :
    k = .comparison ∨ k = .filtered ∨ k = .primary → ∀ u t, s ++ u ≠ .keyword .not :: t := by
  induction h with
  | filtered _ ih => exact fun _ => ih (by simp)
  | compare _ _ _ ih =>
    intro _ u t
    simpa using ih (by simp) _ t
  | contains _ _ ih =>
    intro _ u t
    simpa using ih (by simp) _ t
  | lacks _ _ ih =>
    intro _ u t
    simpa using ih (by simp) _ t
  | primary _ ih => exact fun _ => ih (by simp)
  | filter _ _ ih =>
    intro _ u t
    simpa using ih (by simp) _ t
  | literal hl =>
    rintro _ u t ⟨⟩
    cases hl
  | _ => simp

/-- The reading of a kind comes to its loop with this tree and these symbols left. -/
def Reaches (k : Level) (last : Pos) (ts : List Token) (e : Expr) (u : List Symbol) : Prop :=
  ∃ left : Parsed Expr ts, readAt k last ts = extendAt k left ∧ left.value = e ∧
    symbols left.rest = u

theorem Reaches.yields {k : Level} {last : Pos} {e : Expr} {u : List Symbol}
    (h : Reaches k last ts e u) (hu : EndsAt k.outer u) : Yields (readAt k last ts) e u := by
  obtain ⟨left, hl, hv, hw⟩ := h
  exact ⟨left, hl.trans (extendAt_ends hw hu), hv, hw⟩

theorem readComparison_alone {last : Pos} {left : Parsed Expr ts} {u : List Symbol}
    (hl : readFiltered last ts = .ok left) (hw : symbols left.rest = u) (hu : EndsAt 2 u) :
    readComparison last ts = .ok left := by
  rw [readComparison, hl]
  simp only
  split
  · rename_i hr
    exact absurd (hu.head hw hr) (Nat.lt_irrefl 2)
  · rename_i hr
    exact absurd (hu.head hw hr) (Nat.lt_irrefl 2)
  · rename_i hr
    exact absurd (hu.head hw hr) (Nat.lt_irrefl 2)
  · rfl

section

variable {last p : Pos} {left : Parsed Expr ts} {rest : List Token} {f : Expr} {u : List Symbol}

theorem readComparison_compare {op : Comparison} (hl : readFiltered last ts = .ok left)
    (hr : left.rest = ⟨.compare op, p⟩ :: rest) (hf : Yields (readFiltered p rest) f u) :
    Yields (readComparison last ts) (.compare op left.value f) u := by
  obtain ⟨right, hf, rfl, hu⟩ := hf
  rw [readComparison.eq_def, hl]
  simp only
  split
  · rename_i hr'
    cases hr.symm.trans hr'
    rw [hf]
    exact ⟨_, rfl, rfl, hu⟩
  · rename_i hr'
    cases hr.symm.trans hr'
  · rename_i hr'
    cases hr.symm.trans hr'
  · rename_i hne _ _
    exact absurd hr (hne op p rest)

theorem readComparison_contains (hl : readFiltered last ts = .ok left)
    (hr : left.rest = ⟨.keyword .in_, p⟩ :: rest) (hf : Yields (readFiltered p rest) f u) :
    Yields (readComparison last ts) (.contains left.value f false) u := by
  obtain ⟨right, hf, rfl, hu⟩ := hf
  rw [readComparison.eq_def, hl]
  simp only
  split
  · rename_i hr'
    cases hr.symm.trans hr'
  · rename_i hr'
    cases hr.symm.trans hr'
    rw [hf]
    exact ⟨_, rfl, rfl, hu⟩
  · rename_i hr'
    cases hr.symm.trans hr'
  · rename_i _ hne _
    exact absurd hr (hne p rest)

theorem readComparison_lacks {q : Pos} (hl : readFiltered last ts = .ok left)
    (hr : left.rest = ⟨.keyword .not, p⟩ :: ⟨.keyword .in_, q⟩ :: rest)
    (hf : Yields (readFiltered q rest) f u) :
    Yields (readComparison last ts) (.contains left.value f true) u := by
  obtain ⟨right, hf, rfl, hu⟩ := hf
  rw [readComparison.eq_def, hl]
  simp only
  split
  · rename_i hr'
    cases hr.symm.trans hr'
  · rename_i hr'
    cases hr.symm.trans hr'
  · rename_i hr'
    cases hr.symm.trans hr'
    simp only [expect, ↓reduceIte, hf]
    exact ⟨_, rfl, rfl, hu⟩
  · rename_i _ _ hne
    exact absurd hr (hne p _)

end

/-- A kind without a loop of its own is done where it is reached. -/
theorem Yields.reaches {k : Level} {last : Pos} {e : Expr} {u : List Symbol}
    (h : Yields (readAt k last ts) e u) (hk : ∀ left : Parsed Expr ts, extendAt k left = .ok left) :
    Reaches k last ts e u := by
  obtain ⟨left, hl, hv, hw⟩ := h
  exact ⟨left, hl.trans (hk left).symm, hv, hw⟩

theorem Phrase.reaches {k : Level} {s : List Symbol} {e : Expr} (h : Phrase k s e) :
    ∀ (last : Pos) {ts : List Token} {u : List Symbol}, symbols ts = s ++ u → EndsAt k.inner u →
      Reaches k last ts e u := by
  -- a left operand is read up to the loop of its own kind, which then takes the sign
  induction h with
  | conjunction h ih =>
    intro last ts u hs hu
    obtain ⟨left, hl, hv, hw⟩ := (ih last hs (hu.mono (by decide))).yields hu
    change readAnd last ts = .ok left at hl
    refine ⟨left, ?_, hv, hw⟩
    rw [readAt, readExpr, hl]
    rfl
  | or h k ih ik =>
    intro last ts u hs hu
    rw [List.append_assoc] at hs
    obtain ⟨left, hl, hv, hw⟩ := ih last hs (EndsAt.cons.2 (by decide))
    obtain ⟨p, rest, hr, hrest⟩ := symbols_eq_cons hw
    have hf := (ik p hrest (hu.mono (by decide))).yields hu
    obtain ⟨next, hn, hv', hw'⟩ := extendOr_step hr hf
    exact ⟨next, hl.trans hn, by rw [hv', hv], hw'⟩
  | negation h ih =>
    intro last ts u hs hu
    obtain ⟨left, hl, hv, hw⟩ := (ih last hs hu).yields hu
    change readNot last ts = .ok left at hl
    refine ⟨left, ?_, hv, hw⟩
    rw [readAt, readAnd, hl]
    rfl
  | and h k ih ik =>
    intro last ts u hs hu
    rw [List.append_assoc] at hs
    obtain ⟨left, hl, hv, hw⟩ := ih last hs (EndsAt.cons.2 (by decide))
    obtain ⟨p, rest, hr, hrest⟩ := symbols_eq_cons hw
    have hf := (ik p hrest hu).yields hu
    obtain ⟨next, hn, hv', hw'⟩ := extendAnd_step hr hf
    exact ⟨next, hl.trans hn, by rw [hv', hv], hw'⟩
  | comparison h ih =>
    intro last ts u hs hu
    obtain ⟨left, hl, hv, hw⟩ := (ih last hs hu).yields hu
    refine ⟨left, ?_, hv, hw⟩
    change readNot last ts = .ok left
    rw [readNot.eq_2]
    · exact hl
    · intro p rest ht
      subst ht
      exact h.noNot (by simp) u _ hs.symm
  | not h ih =>
    intro last ts u hs hu
    obtain ⟨p, rest, rfl, hrest⟩ := symbols_eq_cons hs
    obtain ⟨left, hl, hv, hw⟩ := (ih p hrest hu).yields hu
    change readNot p rest = .ok left at hl
    refine ⟨(left.map .not).within (Nat.le_succ _), ?_, congrArg _ hv, hw⟩
    rw [readAt, readNot, hl]
    rfl
  | filtered h ih =>
    intro last ts u hs hu
    obtain ⟨left, hl, hv, hw⟩ := (ih last hs (hu.mono (by decide))).yields
      (hu.mono (by decide))
    change readFiltered last ts = .ok left at hl
    exact ⟨left, readComparison_alone hl hw hu, hv, hw⟩
  | compare op h k ih ik =>
    intro last ts u hs hu
    rw [List.append_assoc] at hs
    obtain ⟨left, hl, rfl, hw⟩ := (ih last hs (EndsAt.cons.2 (Nat.zero_lt_succ 1))).yields
      (EndsAt.cons.2 (Nat.lt_succ_self 1))
    obtain ⟨p, rest, hr, hrest⟩ := symbols_eq_cons hw
    have hf := (ik p hrest (hu.mono (by decide))).yields (hu.mono (by decide))
    exact Yields.reaches (k := .comparison) (readComparison_compare hl hr hf) fun _ => rfl
  | contains h k ih ik =>
    intro last ts u hs hu
    rw [List.append_assoc] at hs
    obtain ⟨left, hl, rfl, hw⟩ := (ih last hs (EndsAt.cons.2 (by decide))).yields
      (EndsAt.cons.2 (by decide))
    obtain ⟨p, rest, hr, hrest⟩ := symbols_eq_cons hw
    have hf := (ik p hrest (hu.mono (by decide))).yields (hu.mono (by decide))
    exact Yields.reaches (k := .comparison) (readComparison_contains hl hr hf) fun _ => rfl
  | lacks h k ih ik =>
    intro last ts u hs hu
    rw [List.append_assoc] at hs
    obtain ⟨left, hl, rfl, hw⟩ := (ih last hs (EndsAt.cons.2 (by decide))).yields
      (EndsAt.cons.2 (by decide))
    obtain ⟨p, _, hr, hnot⟩ := symbols_eq_cons hw
    obtain ⟨q, rest, rfl, hrest⟩ := symbols_eq_cons hnot
    have hf := (ik q hrest (hu.mono (by decide))).yields (hu.mono (by decide))
    exact Yields.reaches (k := .comparison) (readComparison_lacks hl hr hf) fun _ => rfl
  | primary h ih =>
    intro last ts u hs hu
    obtain ⟨left, hl, hv, hw⟩ := (ih last hs hu).yields hu
    change readPrimary last ts = .ok left at hl
    refine ⟨left, ?_, hv, hw⟩
    rw [readAt, readFiltered, hl]
    rfl
  | filter h hc ih =>
    intro last ts u hs hu
    rw [List.append_assoc] at hs
    obtain ⟨left, hl, hv, hw⟩ := ih last hs (EndsAt.cons.2 (by decide))
    obtain ⟨p, rest, hr, hrest⟩ := symbols_eq_cons hw
    have hcall := readCall_yields hc p hrest hu
    obtain ⟨next, hn, hv', hw'⟩ := extendFilters_step hr hcall
    exact ⟨next, hl.trans hn, by rw [hv', hv], hw'⟩
  | parens h ih =>
    intro last ts u hs hu
    obtain ⟨p, rest, rfl, hrest⟩ := symbols_eq_cons hs
    obtain ⟨inner, hl, hv, hw⟩ := (ih p (u := .rightParen :: u) (by simpa using hrest)
      (EndsAt.cons.2 (by decide))).yields (EndsAt.cons.2 (by decide))
    change readExpr p rest = .ok inner at hl
    let whole : Parsed Expr (⟨.leftParen, p⟩ :: rest) := inner.within (Nat.le_succ _)
    obtain ⟨r, hc, hv', hw'⟩ := close_yields (r := whole) hw
    refine ⟨r, ?_, hv'.trans hv, hw'⟩
    rw [readAt, readPrimary, hl]
    exact hc
  | literal hl =>
    intro last ts u hs hu
    obtain ⟨p, rest, rfl, hrest⟩ := symbols_eq_cons hs
    rw [Reaches, readAt, readPrimary.eq_4]
    · simp only [hl.literal?]
      exact ⟨_, rfl, rfl, hrest⟩
    · rintro _ ⟨⟩
      cases hl
    · rintro _ _ ⟨⟩
      cases hl
  | path root hl =>
    intro last ts u hs hu
    obtain ⟨p, rest, rfl, hrest⟩ := symbols_eq_cons hs
    obtain ⟨r, hr, hv, hw⟩ := @extendPath_yields _ _ hl (⟨.word root, p⟩ :: rest)
      ⟨⟨root, []⟩, p, rest, Nat.lt_succ_self _⟩ u hrest hu
    refine ⟨r.map .path, ?_, congrArg _ hv, hw⟩
    rw [readAt, readPrimary, hr]
    rfl

theorem Phrase.yields {s : List Symbol} {e : Expr} (h : Phrase .disjunction s e) (last : Pos)
    {u : List Symbol} (hs : symbols ts = s ++ u) (hu : EndsAt 4 u) :
    Yields (readExpr last ts) e u :=
  (h.reaches last hs (hu.mono (by decide))).yields hu

theorem Names.yields {s : List Symbol} {names : List String} (h : Names s names) :
    ∀ (last : Pos) {ts : List Token} {u : List Symbol}, symbols ts = s ++ .keyword .in_ :: u →
      Yields (readNames last ts) names (.keyword .in_ :: u) := by
  induction h with
  | one name =>
    intro last ts u hs
    obtain ⟨p, rest, rfl, hrest⟩ := symbols_eq_cons hs
    obtain ⟨q, more, rfl, hmore⟩ := symbols_eq_cons hrest
    exact ⟨⟨[name], p, ⟨.keyword .in_, q⟩ :: more, Nat.lt_succ_self _⟩, by simp [readNames], rfl,
      hrest⟩
  | more name h ih =>
    intro last ts u hs
    obtain ⟨p, rest, rfl, hrest⟩ := symbols_eq_cons hs
    obtain ⟨q, more, rfl, hmore⟩ := symbols_eq_cons hrest
    obtain ⟨r, hr, hv, hu⟩ := ih q hmore
    refine ⟨(r.map _).within (by simp only [List.length_cons]; omega), ?_, congrArg _ hv, hu⟩
    simp only [readNames, hr]

theorem TargetPhrase.names {s : List Symbol} {target : Target} (h : TargetPhrase s target) :
    ∃ names, Names s names ∧ Target.ofNames names = target := by
  cases h with
  | single name => exact ⟨[name], .one name, rfl⟩
  | @unpack s names name h =>
    refine ⟨name :: names, .more name h, ?_⟩
    cases h <;> rfl

theorem readCondition_yields {s : List Symbol} {e : Expr} (h : Phrase .disjunction s e)
    (last : Pos) {u : List Symbol} (hs : symbols ts = s ++ .closing .block :: u) :
    Yields (readCondition last ts) e u := by
  obtain ⟨r, hr, rfl, hw⟩ := h.yields last hs (EndsAt.cons.2 (by decide))
  rw [readCondition, hr]
  exact close_yields hw

theorem readLoop_yields {s t : List Symbol} {target : Target} {e : Expr}
    (h : TargetPhrase s target) (he : Phrase .disjunction t e) (last : Pos) {u : List Symbol}
    (hs : symbols ts = s ++ .keyword .in_ :: (t ++ .closing .block :: u)) :
    Yields (readLoop last ts) (target, e) u := by
  obtain ⟨names, hn, rfl⟩ := h.names
  obtain ⟨r, hr, rfl, hw⟩ := hn.yields last hs
  obtain ⟨c, hc, hv, hw'⟩ := close_yields hw
  obtain ⟨q, hq, rfl, hw''⟩ := readCondition_yields he c.last hw'
  rw [readLoop, hr]
  simp only [hc, hq]
  exact ⟨_, rfl, by simp [hv], hw''⟩

theorem readOutput_yields {s : List Symbol} {e : Expr} (h : Phrase .disjunction s e)
    (last : Pos) {u : List Symbol} (hs : symbols ts = s ++ .closing .output :: u) :
    Yields (readOutput last ts) e u := by
  obtain ⟨r, hr, rfl, hw⟩ := h.yields last hs (EndsAt.cons.2 (by decide))
  obtain ⟨p, rest, hr', hrest⟩ := symbols_eq_cons hw
  rw [readOutput, hr]
  simp only
  split
  · rename_i hr''
    cases hr'.symm.trans hr''
  · exact close_yields hw

theorem readOutput_thousands {s : List Symbol} {e : Expr} (h : Phrase .disjunction s e)
    (last : Pos) {u : List Symbol} (hs : symbols ts = s ++ .thousands :: .closing .output :: u) :
    Yields (readOutput last ts) (.filter e ⟨"thousands", []⟩) u := by
  obtain ⟨r, hr, rfl, hw⟩ := h.yields last hs (EndsAt.cons.2 (by decide))
  obtain ⟨p, rest, hr', hrest⟩ := symbols_eq_cons hw
  rw [readOutput, hr]
  simp only
  split
  · rename_i hr''
    cases hr'.symm.trans hr''
    exact close_yields hrest
  · rename_i hne
    exact absurd hr' (hne p rest)

theorem endTag_yields (progress : Progress) (last : Pos) {u : List Symbol}
    (hs : symbols ts = .closing .block :: u) : Yields (endTag progress last ts) progress u := by
  obtain ⟨c, hc, _, hw⟩ := expect_yields last hs
  rw [endTag, hc]
  exact ⟨_, rfl, rfl, hw⟩

def Leads (stack : Stack) (done : List Node) (ts : List Token) (next : Progress)
    (u : List Symbol) : Prop :=
  ∃ rest, symbols rest = u ∧ readNodes stack done ts = readNodes next.1 next.2 rest

theorem Leads.trans {stack : Stack} {done : List Node} {next last : Progress} {u v : List Symbol}
    (h : Leads stack done ts next u)
    (hn : ∀ rest, symbols rest = u → Leads next.1 next.2 rest last v) :
    Leads stack done ts last v := by
  obtain ⟨rest, hu, hr⟩ := h
  obtain ⟨more, hv, hm⟩ := hn rest hu
  exact ⟨more, hv, hr.trans hm⟩

theorem leads_block {stack : Stack} {done : List Node} {k : Keyword} {v u : List Symbol}
    {next : Pos → Progress} (hs : symbols ts = .opening .block :: .keyword k :: v)
    (hb : ∀ p rest, symbols rest = v → Yields (readBlock stack done k p rest) (next p) u) :
    ∃ p, Leads stack done ts (next p) u := by
  obtain ⟨_, rest, rfl, hrest⟩ := symbols_eq_cons hs
  obtain ⟨p, more, rfl, hmore⟩ := symbols_eq_cons hrest
  obtain ⟨r, hr, hv, hw⟩ := hb p more hmore
  refine ⟨p, r.rest, hw, ?_⟩
  rw [readNodes, hr, ← hv]

theorem leads_for {stack : Stack} {done : List Node} {s t : List Symbol} {target : Target}
    {e : Expr} (h : TargetPhrase s target) (he : Phrase .disjunction t e) {u : List Symbol}
    (hs : symbols ts = blockTag (.keyword .for_ :: s ++ .keyword .in_ :: t) ++ u) :
    ∃ p, Leads stack done ts ((.loopBody p target e, done) :: stack, []) u := by
  refine leads_block (k := .for_) (by simpa [blockTag] using hs) fun p rest hrest => ?_
  obtain ⟨r, hr, hv, hw⟩ := readLoop_yields h he p hrest
  rw [readBlock, hr]
  exact ⟨_, rfl, by simp [hv], hw⟩

theorem leads_if {stack : Stack} {done : List Node} {s : List Symbol} {e : Expr}
    (he : Phrase .disjunction s e) {u : List Symbol}
    (hs : symbols ts = blockTag (.keyword .if_ :: s) ++ u) :
    ∃ p, Leads stack done ts ((.condBody p [] e, done) :: stack, []) u := by
  refine leads_block (k := .if_) (by simpa [blockTag] using hs) fun p rest hrest => ?_
  obtain ⟨r, hr, hv, hw⟩ := readCondition_yields he p hrest
  rw [readBlock, hr]
  exact ⟨_, rfl, by simp [hv], hw⟩

theorem leads_elif {outer : Stack} {before done : List Node} {at_ : Pos}
    {branches : List (Expr × List Node)} {e f : Expr} {s : List Symbol}
    (hf : Phrase .disjunction s f) {u : List Symbol}
    (hs : symbols ts = blockTag (.keyword .elif :: s) ++ u) :
    Leads ((.condBody at_ branches e, before) :: outer) done ts
      ((.condBody at_ (branches ++ [(e, done.reverse)]) f, before) :: outer, []) u := by
  let next : Progress :=
    ((.condBody at_ (branches ++ [(e, done.reverse)]) f, before) :: outer, [])
  have hb : ∀ p rest, symbols rest = s ++ .closing .block :: u →
      Yields (readBlock ((.condBody at_ branches e, before) :: outer) done .elif p rest) next
        u := by
    intro p rest hrest
    obtain ⟨r, hr, rfl, hw⟩ := readCondition_yields hf p hrest
    rw [readBlock, hr]
    exact ⟨_, rfl, rfl, hw⟩
  exact (leads_block (by simpa [blockTag] using hs) hb).choose_spec

/-- A tag that holds nothing but its keyword. -/
theorem leads_plain {stack : Stack} {done : List Node} {k : Keyword} {next : Progress}
    {u : List Symbol} (hs : symbols ts = blockTag [.keyword k] ++ u)
    (hb : ∀ p (rest : List Token), readBlock stack done k p rest = endTag next p rest) :
    Leads stack done ts next u := by
  have hy : ∀ p rest, symbols rest = .closing .block :: u →
      Yields (readBlock stack done k p rest) next u := by
    intro p rest hrest
    rw [hb]
    exact endTag_yields next p hrest
  exact (leads_block hs hy).choose_spec

mutual

theorem NodesPhrase.leads : ∀ {s ns}, NodesPhrase s ns → ∀ (stack : Stack) (done : List Node)
    {ts : List Token} {u : List Symbol}, symbols ts = s ++ u →
      Leads stack done ts (stack, ns.reverse ++ done) u
  | _, _, .nil => fun stack done ts u hs => ⟨ts, hs, rfl⟩
  | _, _, .cons hn h => fun stack done ts u hs => by
    rw [List.append_assoc] at hs
    refine (hn.leads stack done hs).trans fun rest hrest => ?_
    simpa using h.leads stack _ hrest

theorem NodePhrase.leads : ∀ {s n}, NodePhrase s n → ∀ (stack : Stack) (done : List Node)
    {ts : List Token} {u : List Symbol}, symbols ts = s ++ u →
      Leads stack done ts (stack, n :: done) u
  | _, _, .text s => fun stack done ts u hs => by
    obtain ⟨p, rest, rfl, hrest⟩ := symbols_eq_cons hs
    exact ⟨rest, hrest, by rw [readNodes]⟩
  | _, _, .output he => fun stack done ts u hs => by
    obtain ⟨p, rest, rfl, hrest⟩ := symbols_eq_cons hs
    obtain ⟨r, hr, hv, hw⟩ := readOutput_yields he p (by simpa using hrest)
    exact ⟨r.rest, hw, by rw [readNodes, hr, ← hv]⟩
  | _, _, .thousands he => fun stack done ts u hs => by
    obtain ⟨p, rest, rfl, hrest⟩ := symbols_eq_cons hs
    obtain ⟨r, hr, hv, hw⟩ := readOutput_thousands he p (by simpa using hrest)
    exact ⟨r.rest, hw, by rw [readNodes, hr, ← hv]⟩
  | _, _, .loop ht he hb => fun stack done ts u hs => by
    simp only [List.append_assoc] at hs
    obtain ⟨p, h⟩ := leads_for ht he hs
    refine h.trans fun rest hrest => ?_
    refine (hb.leads _ _ hrest).trans fun rest hrest => ?_
    exact leads_plain hrest fun p rest => by simp [readBlock]
  | _, _, .loopElse ht he hb hb' => fun stack done ts u hs => by
    simp only [List.append_assoc] at hs
    obtain ⟨p, h⟩ := leads_for ht he hs
    refine h.trans fun rest hrest => ?_
    refine (hb.leads _ _ hrest).trans fun rest hrest => ?_
    refine (leads_plain hrest fun p rest => by rw [readBlock]).trans fun rest hrest => ?_
    refine (hb'.leads _ _ hrest).trans fun rest hrest => ?_
    exact leads_plain hrest fun p rest => by simp [readBlock]
  | _, _, .cond hb => fun stack done ts u hs => by
    rw [List.append_assoc] at hs
    obtain ⟨p, before, e, body, rfl, h⟩ := hb.leads stack done hs
    refine h.trans fun rest hrest => ?_
    exact leads_plain hrest fun p rest => by simp [readBlock]
  | _, _, .condElse hb ho => fun stack done ts u hs => by
    simp only [List.append_assoc] at hs
    obtain ⟨p, before, e, body, rfl, h⟩ := hb.leads stack done hs
    refine h.trans fun rest hrest => ?_
    refine (leads_plain hrest fun p rest => by rw [readBlock]).trans fun rest hrest => ?_
    refine (ho.leads _ _ hrest).trans fun rest hrest => ?_
    exact leads_plain hrest fun p rest => by simp [readBlock]

/-- The last branch stays open after the branches of a condition. -/
theorem BranchesPhrase.leads : ∀ {s branches}, BranchesPhrase s branches →
    ∀ (stack : Stack) (done : List Node) {ts : List Token} {u : List Symbol},
      symbols ts = s ++ u → ∃ p before e body, branches = before ++ [(e, body)] ∧
        Leads stack done ts ((.condBody p before e, done) :: stack, body.reverse) u
  | _, _, .first he hb => fun stack done ts u hs => by
    rw [List.append_assoc] at hs
    obtain ⟨p, h⟩ := leads_if he hs
    refine ⟨p, [], _, _, rfl, h.trans fun rest hrest => ?_⟩
    simpa using hb.leads _ [] hrest
  | _, _, .elif hbs he hb => fun stack done ts u hs => by
    simp only [List.append_assoc] at hs
    obtain ⟨p, before, e, body, rfl, h⟩ := hbs.leads stack done hs
    refine ⟨p, _, _, _, rfl, h.trans fun rest hrest => ?_⟩
    refine (leads_elif he hrest).trans fun rest hrest => ?_
    simpa using hb.leads _ [] hrest

end

theorem parse_complete {ts : List Token} {ns : List Node} (h : NodesPhrase (symbols ts) ns) :
    parse ts = .ok ns := by
  obtain ⟨rest, hrest, hr⟩ := h.leads [] [] (List.append_nil (symbols ts)).symm
  obtain rfl := List.map_eq_nil_iff.1 hrest
  rw [parse, hr, readNodes]
  simp

/-- A list of tokens parses to a list of nodes exactly if the grammar derives them from it. -/
theorem parse_iff_derived (ts : List Token) (ns : List Node) :
    parse ts = .ok ns ↔ NodesPhrase (symbols ts) ns :=
  ⟨parse_sound, parse_complete⟩

end Stencil.Template
