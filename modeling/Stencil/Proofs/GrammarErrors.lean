import Stencil.Proofs.Concatenation

/-! What the parser's errors complain about. Every error is reported at a token, and its cause names
the symbol of that token; only where the tokens end too early there is none to name. -/
namespace Stencil.Template

/-- Whether a cause finds fault with a symbol. A closing tag that is missing is no fault of one. -/
def Cause.Blames : Cause → Symbol → Prop
  | .expected _ found, s => found = some s
  | .unexpected found, s => s = found
  | .unknownBlock found, s => s = found
  | .strayBranch k, s => s = .keyword k
  | .misplacedBranch k, s => s = .keyword k
  | .strayCloser block, s => s = .keyword block.closer
  | .unknownMethod name, s => s = .word name
  | .unknownFilter name, s => s = .word name
  | .filterArity name _ _, s => s = .word name
  | _, _ => False

/-- The error is reported at one of the tokens and blames it, or the tokens end too early. -/
def Complains (ts : List Token) (e : ParseError) : Prop :=
  (∃ what, e.cause = .expected what none) ∨ ∃ t ∈ ts, e.pos = t.pos ∧ e.cause.Blames t.symbol

variable {α : Type} {ts us vs : List Token} {e : ParseError}

theorem suffix_of_cons {t : Token} (h : ts = t :: us) : us <:+ ts := h ▸ List.suffix_cons t us

theorem Complains.mono (h : Complains us e) (hs : us <:+ ts) : Complains ts e := by
  rcases h with h | ⟨t, ht, h⟩
  · exact .inl h
  · exact .inr ⟨t, hs.mem ht, h⟩

theorem Complains.first {cause : Cause} {s : Symbol} (p : Pos) (ts : List Token)
    (h : cause.Blames s) : Complains (⟨s, p⟩ :: ts) ⟨cause, p⟩ :=
  .inr ⟨⟨s, p⟩, List.mem_cons_self, rfl, h⟩

theorem expected_complains (what : Expected) (last : Pos) (ts : List Token) :
    Complains ts (expected what last ts) := by
  cases ts with
  | nil => exact .inl ⟨what, rfl⟩
  | cons t ts => exact .first t.pos ts rfl

def Stays (ts : List Token) (x : Except ParseError (Parsed α us)) : Prop :=
  (∃ e, x = .error e ∧ Complains ts e) ∨ ∃ r, x = .ok r ∧ r.rest <:+ ts

theorem Stays.error (h : Complains ts e) :
    Stays ts (.error e : Except ParseError (Parsed α us)) :=
  .inl ⟨e, rfl, h⟩

theorem Stays.ok {r : Parsed α us} (h : r.rest <:+ ts) : Stays ts (.ok r) := .inr ⟨r, rfl, h⟩

theorem Stays.mono {x : Except ParseError (Parsed α us)} (h : Stays vs x) (hs : vs <:+ ts) :
    Stays ts x := by
  rcases h with ⟨e, he, h⟩ | ⟨r, hr, h⟩
  · exact .inl ⟨e, he, h.mono hs⟩
  · exact .inr ⟨r, hr, h.trans hs⟩

theorem Stays.of_ok {r : Parsed α us} (h : Stays ts (.ok r)) : r.rest <:+ ts := by
  rcases h with ⟨e, he, _⟩ | ⟨r', hr, h⟩
  · cases he
  · cases hr
    exact h

theorem Stays.of_error (h : Stays ts (.error e : Except ParseError (Parsed α us))) :
    Complains ts e := by
  rcases h with ⟨e', he, h⟩ | ⟨r, hr, _⟩
  · cases he
    exact h
  · cases hr

/-- To go on after a reading it is enough to go on from what it left. -/
@[elab_as_elim]
theorem Stays.elim {x : Except ParseError (Parsed α us)}
    {motive : Except ParseError (Parsed α us) → Prop} (h : Stays ts x)
    (he : ∀ e, Complains ts e → motive (.error e)) (hr : ∀ r, r.rest <:+ ts → motive (.ok r)) :
    motive x := by
  rcases h with ⟨e, rfl, h⟩ | ⟨r, rfl, h⟩
  · exact he e h
  · exact hr r h

theorem expect_stays (s : Symbol) (last : Pos) (ts : List Token) :
    Stays ts (expect s last ts) := by
  cases ts with
  | nil => exact .error (expected_complains _ last [])
  | cons t rest =>
    rw [expect]
    split
    · exact .ok (List.suffix_cons t rest)
    · exact .error (expected_complains _ last _)

theorem close_stays (s : Symbol) (r : Parsed α us) : Stays r.rest (r.close s) := by
  rw [Parsed.close]
  exact (expect_stays s r.last r.rest).elim (fun _ => .error) fun c hc => .ok hc

theorem readArgs_stays (last : Pos) (ts : List Token) : Stays ts (readArgs last ts) := by
  cases ts with
  | nil => exact .error (expected_complains _ last [])
  | cons t rest =>
    rw [readArgs.eq_def]
    dsimp only
    cases literal? t.symbol with
    | none => exact .error (expected_complains _ last _)
    | some v =>
      have ht : rest <:+ t :: rest := List.suffix_cons t rest
      dsimp only
      split
      · rename_i p more
        have hm : more <:+ t :: ⟨.comma, p⟩ :: more := (List.suffix_cons _ more).trans ht
        refine (readArgs_stays p more).elim (fun e he => .error (he.mono hm)) fun r hr => ?_
        exact .ok (hr.trans hm)
      · exact (close_stays _ _).mono ht
termination_by ts.length

theorem readArgList_stays (name : Parsed String us) : Stays name.rest (readArgList name) := by
  unfold readArgList
  split
  · rename_i rest h
    exact .ok ((List.suffix_cons _ rest).trans (suffix_of_cons h))
  · rename_i p rest _ h
    have hs : rest <:+ name.rest := suffix_of_cons h
    refine (readArgs_stays p rest).elim (fun e he => .error (he.mono hs)) fun r hr => ?_
    exact .ok (hr.trans hs)
  · exact .ok List.suffix_rfl

theorem refusal?_blames {c : Call} {cause : Cause} (h : c.refusal? = some cause) :
    cause.Blames (.word c.name) := by
  unfold Call.refusal? at h
  split at h
  · cases h
    rfl
  · split at h
    · cases h
    · cases h
      rfl

theorem readCall_stays (last : Pos) (ts : List Token) : Stays ts (readCall last ts) := by
  unfold readCall
  split
  · rename_i name p rest
    have hs : rest <:+ ⟨.word name, p⟩ :: rest := List.suffix_cons _ rest
    refine (readArgList_stays _).elim (fun e he => .error (he.mono hs)) fun r hr => ?_
    dsimp only
    split
    · rename_i hf
      exact .error (.first p rest (refusal?_blames hf))
    · exact .ok (hr.trans hs)
  · exact .error (expected_complains _ last _)

theorem readAttribute_stays (last : Pos) (ts : List Token) :
    Stays ts (readAttribute last ts) := by
  unfold readAttribute
  split
  · rename_i name p q rest
    have hs : rest <:+ ⟨.word name, p⟩ :: ⟨.leftParen, q⟩ :: rest :=
      (List.suffix_cons _ rest).trans (List.suffix_cons _ _)
    refine (expect_stays .rightParen q rest).elim (fun e he => .error (he.mono hs)) fun c hc => ?_
    dsimp only
    cases Method.ofName? name with
    | none => exact .error (.first p _ rfl)
    | some m => exact .ok (hc.trans hs)
  · exact .ok (List.suffix_cons _ _)
  · exact .ok (List.suffix_cons _ _)
  · exact .ok (List.suffix_cons _ _)
  · exact .error (expected_complains _ last _)

theorem readIndex_stays (last : Pos) (ts : List Token) : Stays ts (readIndex last ts) := by
  unfold readIndex
  split
  · exact (close_stays _ _).mono (List.suffix_cons _ _)
  · exact (close_stays _ _).mono (List.suffix_cons _ _)
  · exact .error (expected_complains _ last _)

theorem extendPath_stays (path : Parsed Path us) : Stays path.rest (extendPath path) := by
  fun_induction extendPath path with
  | case1 path _ p rest h e he =>
    have hs : rest <:+ path.rest := suffix_of_cons h
    exact .error ((he ▸ readAttribute_stays p rest).of_error.mono hs)
  | case2 path _ _ p rest h s hr _ _ ih =>
    have hs : rest <:+ path.rest := suffix_of_cons h
    exact ih.mono ((hr ▸ readAttribute_stays p rest).of_ok.trans hs)
  | case3 path _ p rest h e he =>
    have hs : rest <:+ path.rest := suffix_of_cons h
    exact .error ((he ▸ readIndex_stays p rest).of_error.mono hs)
  | case4 path _ _ p rest h s hr _ _ ih =>
    have hs : rest <:+ path.rest := suffix_of_cons h
    exact ih.mono ((hr ▸ readIndex_stays p rest).of_ok.trans hs)
  | case5 => exact .ok List.suffix_rfl

theorem extendFilters_stays (target : Parsed Expr us) :
    Stays target.rest (extendFilters target) := by
  fun_induction extendFilters target with
  | case1 target _ p rest h e he =>
    have hs : rest <:+ target.rest := suffix_of_cons h
    exact .error ((he ▸ readCall_stays p rest).of_error.mono hs)
  | case2 target _ p rest h c hr _ _ ih =>
    have hs : rest <:+ target.rest := suffix_of_cons h
    exact ih.mono ((hr ▸ readCall_stays p rest).of_ok.trans hs)
  | case3 => exact .ok List.suffix_rfl

-- By recursion on the tokens that are left; on the same tokens each level calls the next one down.
mutual

theorem readExpr_stays (last : Pos) (ts : List Token) : Stays ts (readExpr last ts) := by
  rw [readExpr]
  refine (readAnd_stays last ts).elim (fun _ => .error) fun left hl => ?_
  have := left.shorter
  exact (extendOr_stays left).mono hl
termination_by (ts.length, 7)

theorem extendOr_stays {ts : List Token} (left : Parsed Expr ts) :
    Stays left.rest (extendOr left) := by
  rw [extendOr]
  split
  · rename_i p rest h
    have hs : rest <:+ left.rest := suffix_of_cons h
    have hlt : rest.length < left.rest.length := by rw [h]; exact Nat.lt_succ_self _
    refine (readAnd_stays p rest).elim (fun e he => .error (he.mono hs)) fun right hr => ?_
    have := right.shorter
    exact (extendOr_stays _).mono (hr.trans hs)
  · exact .ok List.suffix_rfl
termination_by (left.rest.length, 6)

theorem readAnd_stays (last : Pos) (ts : List Token) : Stays ts (readAnd last ts) := by
  rw [readAnd]
  refine (readNot_stays last ts).elim (fun _ => .error) fun left hl => ?_
  have := left.shorter
  exact (extendAnd_stays left).mono hl
termination_by (ts.length, 5)

theorem extendAnd_stays {ts : List Token} (left : Parsed Expr ts) :
    Stays left.rest (extendAnd left) := by
  rw [extendAnd]
  split
  · rename_i p rest h
    have hs : rest <:+ left.rest := suffix_of_cons h
    have hlt : rest.length < left.rest.length := by rw [h]; exact Nat.lt_succ_self _
    refine (readNot_stays p rest).elim (fun e he => .error (he.mono hs)) fun right hr => ?_
    have := right.shorter
    exact (extendAnd_stays _).mono (hr.trans hs)
  · exact .ok List.suffix_rfl
termination_by (left.rest.length, 4)

theorem readNot_stays (last : Pos) (ts : List Token) : Stays ts (readNot last ts) := by
  rw [readNot.eq_def]
  split
  · rename_i p rest
    have hs : rest <:+ ⟨.keyword .not, p⟩ :: rest := List.suffix_cons _ rest
    refine (readNot_stays p rest).elim (fun e he => .error (he.mono hs)) fun e he => ?_
    exact .ok (he.trans hs)
  · exact readComparison_stays last _
termination_by (ts.length, 3)

theorem readComparison_stays (last : Pos) (ts : List Token) :
    Stays ts (readComparison last ts) := by
  rw [readComparison]
  refine (readFiltered_stays last ts).elim (fun _ => .error) fun left hl => ?_
  have hlt := left.shorter
  dsimp only
  split
  · rename_i op p rest h
    have hs : rest <:+ ts := (suffix_of_cons h).trans hl
    have hr : rest.length < ts.length := by rw [h, List.length_cons] at hlt; omega
    refine (readFiltered_stays p rest).elim (fun e he => .error (he.mono hs)) fun r hr => ?_
    exact .ok (hr.trans hs)
  · rename_i p rest h
    have hs : rest <:+ ts := (suffix_of_cons h).trans hl
    have hr : rest.length < ts.length := by rw [h, List.length_cons] at hlt; omega
    refine (readFiltered_stays p rest).elim (fun e he => .error (he.mono hs)) fun r hr => ?_
    exact .ok (hr.trans hs)
  · rename_i p rest h
    have hs : rest <:+ ts := (suffix_of_cons h).trans hl
    refine (expect_stays (.keyword .in_) p rest).elim (fun e he => .error (he.mono hs))
      fun c hc => ?_
    have hr : c.rest.length < ts.length := by
      have := c.shorter; rw [h, List.length_cons] at hlt; omega
    dsimp only
    refine (readFiltered_stays c.last c.rest).elim (fun e he => .error (he.mono (hc.trans hs)))
      fun r hr => ?_
    exact .ok (hr.trans (hc.trans hs))
  · exact .ok hl
termination_by (ts.length, 2)

theorem readFiltered_stays (last : Pos) (ts : List Token) : Stays ts (readFiltered last ts) := by
  rw [readFiltered]
  refine (readPrimary_stays last ts).elim (fun _ => .error) fun target ht => ?_
  exact (extendFilters_stays target).mono ht
termination_by (ts.length, 1)

theorem readPrimary_stays (last : Pos) (ts : List Token) : Stays ts (readPrimary last ts) := by
  rw [readPrimary.eq_def]
  split
  · exact .error (expected_complains _ last [])
  · rename_i p rest
    have hs : rest <:+ ⟨.leftParen, p⟩ :: rest := List.suffix_cons _ rest
    refine (readExpr_stays p rest).elim (fun e he => .error (he.mono hs)) fun e he => ?_
    exact (close_stays .rightParen _).mono (he.trans hs)
  · rename_i name p rest
    have hs : rest <:+ ⟨.word name, p⟩ :: rest := List.suffix_cons _ rest
    refine (extendPath_stays _).elim (fun e he => .error (he.mono hs)) fun path hp => ?_
    exact .ok (hp.trans hs)
  · rename_i t rest _ _
    cases literal? t.symbol with
    | none => exact .error (expected_complains _ last _)
    | some v => exact .ok (List.suffix_cons t rest)
termination_by (ts.length, 0)

end

theorem readNames_stays (last : Pos) (ts : List Token) : Stays ts (readNames last ts) := by
  fun_induction readNames last ts with
  | case1 last name p q rest e he ih =>
    have hs : rest <:+ ⟨.word name, p⟩ :: ⟨.comma, q⟩ :: rest :=
      (List.suffix_cons _ rest).trans (List.suffix_cons _ _)
    exact .error ((he ▸ ih).of_error.mono hs)
  | case2 last name p q rest names hr ih =>
    have hs : rest <:+ ⟨.word name, p⟩ :: ⟨.comma, q⟩ :: rest :=
      (List.suffix_cons _ rest).trans (List.suffix_cons _ _)
    exact .ok ((hr ▸ ih).of_ok.trans hs)
  | case3 => exact .ok (List.suffix_cons _ _)
  | case4 last ts => exact .error (expected_complains _ last ts)

theorem readCondition_stays (last : Pos) (ts : List Token) :
    Stays ts (readCondition last ts) := by
  rw [readCondition]
  exact (readExpr_stays last ts).elim (fun _ => .error) fun e he => (close_stays _ e).mono he

theorem readLoop_stays (last : Pos) (ts : List Token) : Stays ts (readLoop last ts) := by
  rw [readLoop]
  refine (readNames_stays last ts).elim (fun _ => .error) fun names hn => ?_
  dsimp only
  refine (close_stays (.keyword .in_) names).elim (fun e he => .error (he.mono hn))
    fun names' hn' => ?_
  dsimp only
  refine (readCondition_stays names'.last names'.rest).elim
    (fun e he => .error (he.mono (hn'.trans hn))) fun e he => ?_
  exact .ok (he.trans (hn'.trans hn))

theorem readOutput_stays (last : Pos) (ts : List Token) : Stays ts (readOutput last ts) := by
  rw [readOutput]
  refine (readExpr_stays last ts).elim (fun _ => .error) fun e he => ?_
  dsimp only
  split
  · rename_i p rest h
    exact (close_stays (.closing .output) _).mono ((suffix_of_cons h).trans he)
  · exact (close_stays (.closing .output) e).mono he

theorem endTag_stays (progress : Progress) (last : Pos) (ts : List Token) :
    Stays ts (endTag progress last ts) := by
  rw [endTag]
  exact (expect_stays (.closing .block) last ts).elim (fun _ => .error) fun c hc => .ok hc

theorem refuse_blames (stack : Stack) (k : Keyword) : (refuse stack k).Blames (.keyword k) := by
  cases k with
  | elif | else_ =>
    rw [refuse]
    split <;> rfl
  | _ => rfl

theorem readBlock_stays (stack : Stack) (done : List Node) (k : Keyword) (p : Pos)
    (ts : List Token) : Stays (⟨.keyword k, p⟩ :: ts) (readBlock stack done k p ts) := by
  have hs : ts <:+ ⟨.keyword k, p⟩ :: ts := List.suffix_cons _ ts
  unfold readBlock
  split
  · exact ((readLoop_stays p ts).mono hs).elim (fun _ => .error) fun r hr => .ok hr
  · exact ((readCondition_stays p ts).mono hs).elim (fun _ => .error) fun r hr => .ok hr
  · exact (endTag_stays _ p ts).mono hs
  · exact (endTag_stays _ p ts).mono hs
  · exact (endTag_stays _ p ts).mono hs
  · exact ((readCondition_stays p ts).mono hs).elim (fun _ => .error) fun r hr => .ok hr
  · exact (endTag_stays _ p ts).mono hs
  · exact (endTag_stays _ p ts).mono hs
  · exact (endTag_stays _ p ts).mono hs
  · exact .error (.first p ts (refuse_blames stack _))

end Stencil.Template
