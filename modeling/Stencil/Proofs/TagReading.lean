import Stencil.Proofs.Stream
import Stencil.Template.Parse

/-! Reading inside a tag. No reading goes past the tag's closing delimiter, so what follows the tag
changes neither what is read nor the error, and the tokens never end where one is expected. -/
namespace Stencil.Template

inductive TagRest : List Token → Prop where
  | closing (tag p) : TagRest [⟨.closing tag, p⟩]
  | cons {s p ts} : s.inTag → TagRest ts → TagRest (⟨s, p⟩ :: ts)

/-- Whether a cause can come up in a run of texts and whole tags: not that the tokens end too
early, nor that a symbol stands outside all tags. -/
def Cause.inStream : Cause → Bool
  | expected _ none | unexpected _ => false
  | _ => true

def Parsed.before {α : Type} {ts : List Token} (r : Parsed α ts) (rest : List Token) :
    Parsed α (ts ++ rest) :=
  ⟨r.value, r.last, r.rest ++ rest, by simpa using r.shorter⟩

section

variable {α : Type} {ts : List Token} (r : Parsed α ts) (rest : List Token)

@[simp] theorem Parsed.before_value : (r.before rest).value = r.value := rfl

@[simp] theorem Parsed.before_last : (r.before rest).last = r.last := rfl

@[simp] theorem Parsed.before_rest : (r.before rest).rest = r.rest ++ rest := rfl

end

/-- A reading of the tokens `ts`, and one that finds `rest` after them, have the same outcome; what
the first leaves satisfies `P`. -/
def Agrees {α : Type} (P : List Token → Prop) (rest : List Token) {ts : List Token}
    (x : Except ParseError (Parsed α ts)) (y : Except ParseError (Parsed α (ts ++ rest))) : Prop :=
  (∃ e, x = .error e ∧ y = .error e ∧ e.cause.inStream) ∨
    ∃ r, x = .ok r ∧ y = .ok (r.before rest) ∧ P r.rest

def After : Symbol → List Token → Prop
  | .closing _ => (· = [])
  | _ => TagRest

variable {α β : Type} {ts rest : List Token}

theorem after_of_inTag {s : Symbol} (hs : s.inTag) (h : TagRest ts) : After s ts := by
  cases s with
  | text | opening | closing => cases hs
  | _ => exact h

theorem Agrees.error {P : List Token → Prop} {e : ParseError} (h : e.cause.inStream) :
    Agrees P rest (.error e : Except ParseError (Parsed α ts)) (.error e) :=
  .inl ⟨e, rfl, rfl, h⟩

theorem Agrees.ok {P : List Token → Prop} (r : Parsed α ts) (h : P r.rest) :
    Agrees P rest (.ok r) (.ok (r.before rest)) :=
  .inr ⟨r, rfl, rfl, h⟩

theorem Agrees.of_error {P : List Token → Prop} {e : ParseError}
    {y : Except ParseError (Parsed α (ts ++ rest))}
    (h : Agrees P rest (.error e : Except ParseError (Parsed α ts)) y) :
    e.cause.inStream ∧ y = .error e := by
  rcases h with ⟨e', he, hy, hc⟩ | ⟨r, hr, _⟩
  · cases he
    exact ⟨hc, hy⟩
  · cases hr

theorem Agrees.of_ok {P : List Token → Prop} {r : Parsed α ts}
    {y : Except ParseError (Parsed α (ts ++ rest))} (h : Agrees P rest (.ok r) y) :
    P r.rest ∧ y = .ok (r.before rest) := by
  rcases h with ⟨e, he, _⟩ | ⟨r', hr, hy, hp⟩
  · cases he
  · cases hr
    exact ⟨hp, hy⟩

/-- To go on after a reading it is enough to go on from what it left. -/
@[elab_as_elim]
theorem Agrees.elim {P : List Token → Prop} {x : Except ParseError (Parsed α ts)}
    {y : Except ParseError (Parsed α (ts ++ rest))}
    {motive : Except ParseError (Parsed α ts) → Except ParseError (Parsed α (ts ++ rest)) → Prop}
    (h : Agrees P rest x y) (he : ∀ e, e.cause.inStream → motive (.error e) (.error e))
    (hr : ∀ r, P r.rest → motive (.ok r) (.ok (r.before rest))) : motive x y := by
  rcases h with ⟨e, rfl, rfl, hc⟩ | ⟨r, rfl, rfl, hp⟩
  · exact he e hc
  · exact hr r hp

theorem expect_agrees (s : Symbol) (last : Pos) (h : TagRest ts) (rest : List Token) :
    Agrees (After s) rest (expect s last ts) (expect s last (ts ++ rest)) := by
  cases h with
  | closing tag p =>
    simp only [expect, List.cons_append, List.nil_append]
    split
    · rename_i hs
      subst hs
      exact .ok _ rfl
    · exact .error rfl
  | @cons a p us ha h =>
    simp only [expect, List.cons_append]
    split
    · rename_i hs
      subst hs
      exact .ok _ (after_of_inTag ha h)
    · exact .error rfl

theorem close_agrees (s : Symbol) (r : Parsed α ts) (h : TagRest r.rest) (rest : List Token) :
    Agrees (After s) rest (r.close s) ((r.before rest).close s) := by
  have he : Agrees (After s) rest (expect s r.last r.rest)
      (expect s (r.before rest).last (r.before rest).rest) := expect_agrees s r.last h rest
  rw [Parsed.close, Parsed.close]
  exact Agrees.elim he (fun _ => .error) fun c hc => .ok _ hc

theorem readArgs_agrees (last : Pos) {ts : List Token} (h : TagRest ts) (rest : List Token) :
    Agrees TagRest rest (readArgs last ts) (readArgs last (ts ++ rest)) := by
  cases h with
  | closing tag p => exact .error rfl
  | @cons s p us hs h =>
    simp only [readArgs, List.cons_append]
    cases literal? s with
    | none => exact .error rfl
    | some v =>
      let one : Parsed (List Value) (⟨s, p⟩ :: us) := ⟨[v], p, us, Nat.lt_succ_self _⟩
      have hc := close_agrees .rightParen one h rest
      cases h with
      | closing tag q => exact hc
      | @cons a q vs ha h =>
        cases a with
        | comma =>
          dsimp only [List.cons_append]
          refine Agrees.elim (readArgs_agrees q h rest) (fun _ => .error) fun r hr => ?_
          exact .ok _ hr
        | _ => exact hc

theorem readArgList_agrees (name : Parsed String ts) (h : TagRest name.rest) (rest : List Token) :
    Agrees TagRest rest (readArgList name) (readArgList (name.before rest)) := by
  obtain ⟨v, last, us, hlt⟩ := name
  cases h with
  | closing tag p => exact .ok _ (.closing tag p)
  | @cons s p us hs h =>
    cases s with
    | leftParen =>
      have ha := readArgs_agrees p h rest
      cases h with
      | closing tag q => exact .error rfl
      | @cons a q vs hb h =>
        cases a with
        | rightParen => exact .ok _ h
        | _ =>
          simp only [readArgList, Parsed.before, List.cons_append] at ha ⊢
          exact Agrees.elim ha (fun _ => .error) fun r hr => .ok _ hr
    | _ => exact .ok _ (.cons hs h)

theorem refusal?_inStream {c : Call} {cause : Cause} (h : c.refusal? = some cause) :
    cause.inStream := by
  unfold Call.refusal? at h
  split at h
  · cases h
    rfl
  · split at h <;> cases h
    rfl

theorem readCall_agrees (last : Pos) (h : TagRest ts) (rest : List Token) :
    Agrees TagRest rest (readCall last ts) (readCall last (ts ++ rest)) := by
  cases h with
  | closing tag p => exact .error rfl
  | @cons s p us hs h =>
    cases s with
    | word name =>
      let word : Parsed String (⟨.word name, p⟩ :: us) := ⟨name, p, us, Nat.lt_succ_self _⟩
      have ha := readArgList_agrees word h rest
      simp only [readCall, List.cons_append]
      refine Agrees.elim ha (fun _ => .error) fun r hr => ?_
      dsimp only [Parsed.before_value]
      split
      · rename_i hf
        exact .error (refusal?_inStream hf)
      · exact .ok _ hr
    | _ => exact .error rfl

theorem readAttribute_agrees (last : Pos) (h : TagRest ts) (rest : List Token) :
    Agrees TagRest rest (readAttribute last ts) (readAttribute last (ts ++ rest)) := by
  cases h with
  | closing tag p => exact .error rfl
  | @cons s p us hs h =>
    cases s with
    | word name =>
      cases h with
      | closing tag q => exact .ok _ (.closing tag q)
      | @cons a q vs ha h =>
        cases a with
        | leftParen =>
          simp only [readAttribute, List.cons_append]
          refine Agrees.elim (expect_agrees .rightParen q h rest) (fun _ => .error)
            fun c hc => ?_
          cases Method.ofName? name with
          | none => exact .error rfl
          | some m => exact .ok _ hc
        | _ => exact .ok _ (.cons ha h)
    | keyword k => exact .ok _ h
    | int n => exact .ok _ h
    | _ => exact .error rfl

theorem readIndex_agrees (last : Pos) (h : TagRest ts) (rest : List Token) :
    Agrees TagRest rest (readIndex last ts) (readIndex last (ts ++ rest)) := by
  cases h with
  | closing tag p => exact .error rfl
  | @cons s p us hs h =>
    have close (seg : Segment) := close_agrees .rightBracket
      (⟨seg, p, us, Nat.lt_succ_self _⟩ : Parsed Segment (⟨s, p⟩ :: us)) h rest
    cases s with
    | int n => exact close (.index n)
    | string key => exact close (.key key)
    | _ => exact .error rfl

theorem extendPath_agrees {ts us : List Token} (v : Path) (last : Pos)
    (hlt : us.length < ts.length) (h : TagRest us) (rest : List Token) :
    Agrees TagRest rest (extendPath ⟨v, last, us, hlt⟩)
      (extendPath (Parsed.before ⟨v, last, us, hlt⟩ rest)) := by
  rw [extendPath, Parsed.before, extendPath]
  cases h with
  | closing tag p => exact .ok _ (.closing tag p)
  | @cons s p us hs h =>
    cases s with
    | dot =>
      dsimp only [List.cons_append]
      refine Agrees.elim (readAttribute_agrees p h rest) (fun _ => .error) fun c hc => ?_
      have := c.shorter
      exact extendPath_agrees _ c.last _ hc rest
    | leftBracket =>
      dsimp only [List.cons_append]
      refine Agrees.elim (readIndex_agrees p h rest) (fun _ => .error) fun c hc => ?_
      have := c.shorter
      exact extendPath_agrees _ c.last _ hc rest
    | _ => exact .ok _ (.cons hs h)
termination_by us.length
decreasing_by all_goals subst_vars; simp only [List.length_cons]; omega

theorem extendFilters_agrees {ts us : List Token} (v : Expr) (last : Pos)
    (hlt : us.length < ts.length) (h : TagRest us) (rest : List Token) :
    Agrees TagRest rest (extendFilters ⟨v, last, us, hlt⟩)
      (extendFilters (Parsed.before ⟨v, last, us, hlt⟩ rest)) := by
  rw [extendFilters, Parsed.before, extendFilters]
  cases h with
  | closing tag p => exact .ok _ (.closing tag p)
  | @cons s p us hs h =>
    cases s with
    | pipe =>
      dsimp only [List.cons_append]
      refine Agrees.elim (readCall_agrees p h rest) (fun _ => .error) fun c hc => ?_
      have := c.shorter
      exact extendFilters_agrees _ c.last _ hc rest
    | _ => exact .ok _ (.cons hs h)
termination_by us.length
decreasing_by all_goals subst_vars; simp only [List.length_cons]; omega

-- By recursion on the tokens that are left; on the same tokens each level calls the next one down.
mutual

theorem readExpr_agrees (last : Pos) {ts : List Token} (h : TagRest ts) (rest : List Token) :
    Agrees TagRest rest (readExpr last ts) (readExpr last (ts ++ rest)) := by
  rw [readExpr, readExpr]
  refine Agrees.elim (readAnd_agrees last h rest) (fun _ => .error) fun left hl => ?_
  have := left.shorter
  exact extendOr_agrees left.value left.last left.shorter hl rest
termination_by (ts.length, 7)

theorem extendOr_agrees {ts us : List Token} (v : Expr) (last : Pos)
    (hlt : us.length < ts.length) (h : TagRest us) (rest : List Token) :
    Agrees TagRest rest (extendOr ⟨v, last, us, hlt⟩)
      (extendOr (Parsed.before ⟨v, last, us, hlt⟩ rest)) := by
  rw [extendOr, Parsed.before, extendOr]
  cases h with
  | closing tag p => exact .ok _ (.closing tag p)
  | @cons s p us hs h =>
    cases s with
    | keyword k =>
      cases k with
      | or =>
        dsimp only [List.cons_append]
        refine Agrees.elim (readAnd_agrees p h rest) (fun _ => .error) fun right hr => ?_
        have := right.shorter
        exact extendOr_agrees _ right.last _ hr rest
      | _ => exact .ok _ (.cons hs h)
    | _ => exact .ok _ (.cons hs h)
termination_by (us.length, 6)
decreasing_by all_goals subst_vars; decreasing_tactic

theorem readAnd_agrees (last : Pos) {ts : List Token} (h : TagRest ts) (rest : List Token) :
    Agrees TagRest rest (readAnd last ts) (readAnd last (ts ++ rest)) := by
  rw [readAnd, readAnd]
  refine Agrees.elim (readNot_agrees last h rest) (fun _ => .error) fun left hl => ?_
  have := left.shorter
  exact extendAnd_agrees left.value left.last left.shorter hl rest
termination_by (ts.length, 5)

theorem extendAnd_agrees {ts us : List Token} (v : Expr) (last : Pos)
    (hlt : us.length < ts.length) (h : TagRest us) (rest : List Token) :
    Agrees TagRest rest (extendAnd ⟨v, last, us, hlt⟩)
      (extendAnd (Parsed.before ⟨v, last, us, hlt⟩ rest)) := by
  rw [extendAnd, Parsed.before, extendAnd]
  cases h with
  | closing tag p => exact .ok _ (.closing tag p)
  | @cons s p us hs h =>
    cases s with
    | keyword k =>
      cases k with
      | and =>
        dsimp only [List.cons_append]
        refine Agrees.elim (readNot_agrees p h rest) (fun _ => .error) fun right hr => ?_
        have := right.shorter
        exact extendAnd_agrees _ right.last _ hr rest
      | _ => exact .ok _ (.cons hs h)
    | _ => exact .ok _ (.cons hs h)
termination_by (us.length, 4)
decreasing_by all_goals subst_vars; decreasing_tactic

theorem readNot_agrees (last : Pos) {ts : List Token} (h : TagRest ts) (rest : List Token) :
    Agrees TagRest rest (readNot last ts) (readNot last (ts ++ rest)) := by
  have hc := readComparison_agrees last h rest
  rw [readNot.eq_def, readNot.eq_def]
  cases h with
  | closing tag p => exact hc
  | @cons s p us hs h =>
    cases s with
    | keyword k =>
      cases k with
      | not =>
        dsimp only [List.cons_append]
        exact Agrees.elim (readNot_agrees p h rest) (fun _ => .error) fun e he => .ok _ he
      | _ => exact hc
    | _ => exact hc
termination_by (ts.length, 3)

theorem readComparison_agrees (last : Pos) {ts : List Token} (h : TagRest ts)
    (rest : List Token) :
    Agrees TagRest rest (readComparison last ts) (readComparison last (ts ++ rest)) := by
  rw [readComparison, readComparison]
  refine Agrees.elim (readFiltered_agrees last h rest) (fun _ => .error) fun left hl => ?_
  obtain ⟨v, end_, us, hlt⟩ := left
  dsimp only [Parsed.before] at hl ⊢
  cases hl with
  | closing tag p => exact .ok _ (.closing tag p)
  | @cons s p us hs h =>
    have hr : us.length < ts.length := Nat.lt_of_succ_lt hlt
    cases s with
    | compare op =>
      dsimp only [List.cons_append]
      exact Agrees.elim (readFiltered_agrees p h rest) (fun _ => .error) fun r hr => .ok _ hr
    | keyword k =>
      cases k with
      | in_ =>
        dsimp only [List.cons_append]
        exact Agrees.elim (readFiltered_agrees p h rest) (fun _ => .error)
          fun r hr => .ok _ hr
      | not =>
        dsimp only [List.cons_append]
        refine Agrees.elim (expect_agrees (.keyword .in_) p h rest) (fun _ => .error)
          fun c hc => ?_
        have := c.shorter
        dsimp only [Parsed.before_last, Parsed.before_rest]
        exact Agrees.elim (readFiltered_agrees c.last hc rest) (fun _ => .error)
          fun r hr => .ok _ hr
      | _ => exact .ok _ (.cons hs h)
    | _ => exact .ok _ (.cons hs h)
termination_by (ts.length, 2)

theorem readFiltered_agrees (last : Pos) {ts : List Token} (h : TagRest ts)
    (rest : List Token) :
    Agrees TagRest rest (readFiltered last ts) (readFiltered last (ts ++ rest)) := by
  rw [readFiltered, readFiltered]
  refine Agrees.elim (readPrimary_agrees last h rest) (fun _ => .error) fun left hl => ?_
  exact extendFilters_agrees left.value left.last left.shorter hl rest
termination_by (ts.length, 1)

theorem readPrimary_agrees (last : Pos) {ts : List Token} (h : TagRest ts) (rest : List Token) :
    Agrees TagRest rest (readPrimary last ts) (readPrimary last (ts ++ rest)) := by
  rw [readPrimary.eq_def, readPrimary.eq_def]
  cases h with
  | closing tag p => exact .error rfl
  | @cons s p us hs h =>
    cases s with
    | leftParen =>
      dsimp only [List.cons_append]
      refine Agrees.elim (readExpr_agrees p h rest) (fun _ => .error) fun e he => ?_
      let inner : Parsed Expr (⟨.leftParen, p⟩ :: us) := e.within (Nat.le_succ _)
      exact close_agrees .rightParen inner he rest
    | word name =>
      have hp := @extendPath_agrees (⟨.word name, p⟩ :: us) us ⟨name, []⟩ p (Nat.lt_succ_self _) h
        rest
      dsimp only [List.cons_append]
      exact Agrees.elim hp (fun _ => .error) fun path hr => .ok _ hr
    | _ =>
      dsimp only [List.cons_append]
      generalize literal? _ = v
      cases v with
      | none => exact .error rfl
      | some v => exact .ok _ h
termination_by (ts.length, 0)

end

theorem readNames_agrees (last : Pos) {ts : List Token} (h : TagRest ts) (rest : List Token) :
    Agrees TagRest rest (readNames last ts) (readNames last (ts ++ rest)) := by
  cases h with
  | closing tag p => exact .error rfl
  | @cons s p us hs h =>
    cases s with
    | word name =>
      cases h with
      | closing tag q => exact .ok _ (.closing tag q)
      | @cons a q vs ha h =>
        cases a with
        | comma =>
          simp only [readNames, List.cons_append]
          exact Agrees.elim (readNames_agrees q h rest) (fun _ => .error) fun r hr => .ok _ hr
        | _ => exact .ok _ (.cons ha h)
    | _ => exact .error rfl

theorem readCondition_agrees (last : Pos) (h : TagRest ts) (rest : List Token) :
    Agrees (· = []) rest (readCondition last ts) (readCondition last (ts ++ rest)) := by
  rw [readCondition, readCondition]
  refine Agrees.elim (readExpr_agrees last h rest) (fun _ => .error) fun e he => ?_
  exact close_agrees (.closing .block) e he rest

theorem readLoop_agrees (last : Pos) (h : TagRest ts) (rest : List Token) :
    Agrees (· = []) rest (readLoop last ts) (readLoop last (ts ++ rest)) := by
  rw [readLoop, readLoop]
  refine Agrees.elim (readNames_agrees last h rest) (fun _ => .error) fun names hn => ?_
  dsimp only
  refine Agrees.elim (close_agrees (.keyword .in_) names hn rest) (fun _ => .error)
    fun names hn => ?_
  dsimp only [Parsed.before_last, Parsed.before_rest]
  refine Agrees.elim (readCondition_agrees names.last hn rest) (fun _ => .error)
    fun e he => ?_
  exact .ok _ he

theorem readOutput_agrees (last : Pos) (h : TagRest ts) (rest : List Token) :
    Agrees (· = []) rest (readOutput last ts) (readOutput last (ts ++ rest)) := by
  rw [readOutput, readOutput]
  refine Agrees.elim (readExpr_agrees last h rest) (fun _ => .error) fun e he => ?_
  have hc := close_agrees (.closing .output) e he rest
  obtain ⟨v, end_, us, hlt⟩ := e
  dsimp only [Parsed.before] at he hc ⊢
  cases he with
  | closing tag p => exact hc
  | @cons s p us hs h =>
    cases s with
    | thousands =>
      let formatted : Parsed Expr ts :=
        ⟨.filter v ⟨Filter.thousands.name, []⟩, p, us, Nat.lt_of_succ_lt hlt⟩
      exact close_agrees (.closing .output) formatted h rest
    | _ => exact hc

theorem endTag_agrees (progress : Progress) (last : Pos) (h : TagRest ts) (rest : List Token) :
    Agrees (· = []) rest (endTag progress last ts) (endTag progress last (ts ++ rest)) := by
  rw [endTag, endTag]
  exact Agrees.elim (expect_agrees (.closing .block) last h rest) (fun _ => .error)
    fun c hc => .ok _ hc

theorem refuse_inStream (stack : Stack) (k : Keyword) : (refuse stack k).inStream := by
  cases k with
  | elif | else_ =>
    rw [refuse]
    split <;> rfl
  | _ => rfl

theorem readBlock_agrees (stack : Stack) (done : List Node) (k : Keyword) (p : Pos)
    (h : TagRest ts) (rest : List Token) :
    Agrees (· = []) rest (readBlock stack done k p ts) (readBlock stack done k p (ts ++ rest)) := by
  unfold readBlock
  split
  · exact Agrees.elim (readLoop_agrees p h rest) (fun _ => .error) fun r hr => .ok _ hr
  · exact Agrees.elim (readCondition_agrees p h rest) (fun _ => .error)
      fun r hr => .ok _ hr
  · exact endTag_agrees _ p h rest
  · exact endTag_agrees _ p h rest
  · exact endTag_agrees _ p h rest
  · exact Agrees.elim (readCondition_agrees p h rest) (fun _ => .error)
      fun r hr => .ok _ hr
  · exact endTag_agrees _ p h rest
  · exact endTag_agrees _ p h rest
  · exact endTag_agrees _ p h rest
  · exact .error (refuse_inStream stack k)

end Stencil.Template
