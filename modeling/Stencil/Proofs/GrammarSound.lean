import Stencil.Proofs.Grammar

/-! What the parser accepts is derived from the grammar. Each reading takes a phrase off the front
of the tokens; over the nodes, what is still to come completes the blocks that are open. -/
namespace Stencil.Template

variable {α β : Type} {ts us : List Token}

@[simp] theorem Parsed.within_value (r : Parsed α us) (h : us.length ≤ ts.length) :
    (r.within h).value = r.value := rfl

@[simp] theorem Parsed.within_rest (r : Parsed α us) (h : us.length ≤ ts.length) :
    (r.within h).rest = r.rest := rfl

@[simp] theorem Parsed.map_value (f : α → β) (r : Parsed α ts) : (r.map f).value = f r.value := rfl

@[simp] theorem Parsed.map_rest (f : α → β) (r : Parsed α ts) : (r.map f).rest = r.rest := rfl

@[simp] theorem symbols_nil : symbols [] = [] := rfl

@[simp] theorem symbols_cons (t : Token) (ts : List Token) :
    symbols (t :: ts) = t.symbol :: symbols ts := rfl

def Took (P : List Symbol → α → Prop) (r : Parsed α ts) : Prop :=
  ∃ s, symbols ts = s ++ symbols r.rest ∧ P s r.value

/-- A phrase, a symbol and another phrase stand one after the other. -/
theorem symbols_join {vs ws : List Token} {s t u : List Symbol} {a : Symbol} {p : Pos}
    (hs : symbols ts = s ++ symbols vs) (hv : vs = ⟨a, p⟩ :: ws) (ht : symbols ws = t ++ u) :
    symbols ts = s ++ a :: t ++ u := by
  rw [hs, hv, symbols_cons, ht]
  simp

theorem expect_took {s : Symbol} {last : Pos} {r : Parsed Unit ts} (h : expect s last ts = .ok r) :
    symbols ts = s :: symbols r.rest := by
  unfold expect at h
  split at h
  · cases h
  · split at h
    · rename_i hs
      cases h
      rw [symbols_cons, hs]
    · cases h

theorem close_took {s : Symbol} {r q : Parsed α ts} (h : r.close s = .ok q) :
    q.value = r.value ∧ symbols r.rest = s :: symbols q.rest := by
  unfold Parsed.close at h
  split at h
  · cases h
  · rename_i c hc
    cases h
    exact ⟨rfl, expect_took hc⟩

theorem literal?_isLiteral {l : Symbol} {v : Value} (h : literal? l = some v) : IsLiteral l v := by
  cases l with
  | string s =>
    cases h
    exact .string s
  | int n =>
    cases h
    exact .int n
  | float x =>
    cases h
    exact .float x
  | keyword k =>
    cases k with
    | true_ =>
      cases h
      exact .true_
    | false_ =>
      cases h
      exact .false_
    | none_ =>
      cases h
      exact .none_
    | _ => cases h
  | _ => cases h

theorem readArgs_took {last : Pos} {ts : List Token} {r : Parsed (List Value) ts}
    (h : readArgs last ts = .ok r) :
    Took (fun s vs => ∃ l, s = l ++ [.rightParen] ∧ Literals l vs) r := by
  fun_induction readArgs last ts with
  | case1 => cases h
  | case2 => cases h
  | case3 => cases h
  | case4 last t v hv p more args hargs ih =>
    cases h
    obtain ⟨s, hs, l, rfl, hl⟩ := ih hargs
    refine ⟨_, ?_, t.symbol :: .comma :: l, rfl, .more (literal?_isLiteral hv) hl⟩
    simpa using hs
  | case5 last t v hv rest hne =>
    obtain ⟨hv', hr⟩ := close_took h
    refine ⟨[t.symbol, .rightParen], ?_, [t.symbol], rfl, ?_⟩
    · simpa using hr
    · rw [hv']
      exact .one (literal?_isLiteral hv)

theorem ofName?_name (f : Filter) : Filter.ofName? f.name = some f := by
  cases f <;> decide

theorem refusal?_eq_none {c : Call} :
    Call.refusal? c = none ↔ FilterTakes c.name c.args.length := by
  unfold Call.refusal?
  constructor
  · intro h
    cases hf : Filter.ofName? c.name with
    | none => simp [hf] at h
    | some f =>
      have hn : f.name = c.name := by simpa using List.find?_some hf
      by_cases ha : f.arity.admits c.args.length
      · exact ⟨f, hn, by simpa [Arity.admits] using ha⟩
      · simp [hf, ha] at h
  · rintro ⟨f, hn, h⟩
    rw [← hn, ofName?_name]
    simp [Arity.admits, h]

theorem readArgList_took {name : Parsed String ts} {r : Parsed (List Value) ts}
    (h : readArgList name = .ok r) :
    (r.value = [] ∧ r.rest = name.rest) ∨
    (r.value = [] ∧ symbols name.rest = .leftParen :: .rightParen :: symbols r.rest) ∨
    (∃ l, Literals l r.value ∧
      symbols name.rest = .leftParen :: l ++ .rightParen :: symbols r.rest) := by
  unfold readArgList at h
  split at h
  · rename_i q p rest hr
    cases h
    exact .inr (.inl ⟨rfl, congrArg symbols hr⟩)
  · rename_i p rest hne hr
    split at h
    · cases h
    · rename_i args hargs
      cases h
      obtain ⟨_, hs, l, rfl, hl⟩ := readArgs_took hargs
      have hname := congrArg symbols hr
      refine .inr (.inr ⟨l, hl, ?_⟩)
      simpa [hs] using hname
  · cases h
    exact .inl ⟨rfl, rfl⟩

theorem readCall_took {last : Pos} {r : Parsed Call ts} (h : readCall last ts = .ok r) :
    Took CallPhrase r := by
  unfold readCall at h
  split at h
  · rename_i name p rest
    split at h
    · cases h
    · rename_i args hargs
      split at h
      · cases h
      · rename_i hr
        cases h
        have ht := refusal?_eq_none.1 hr
        rcases readArgList_took hargs with ⟨hv, hs⟩ | ⟨hv, hs⟩ | ⟨l, hl, hs⟩
        · rw [hv] at ht
          refine ⟨[.word name], ?_, ?_⟩
          · simp [hs]
          · simpa [hv] using CallPhrase.bare ht
        · rw [hv] at ht
          refine ⟨[.word name, .leftParen, .rightParen], ?_, ?_⟩
          · simpa using hs
          · simpa [hv] using CallPhrase.empty ht
        · refine ⟨.word name :: .leftParen :: l ++ [.rightParen], ?_, .args hl ht⟩
          simpa using hs
  · cases h

theorem ofName?_method {name : String} {m : Method} (h : Method.ofName? name = some m) :
    name = m.name := by
  simpa [eq_comm] using List.find?_some h

/-- The steps of a path that start with a dot. -/
theorem readAttribute_took {last : Pos} {r : Parsed Segment ts}
    (h : readAttribute last ts = .ok r) :
    Took (fun s seg => ∀ t l, Steps t l → Steps (.dot :: s ++ t) (seg :: l)) r := by
  unfold readAttribute at h
  split at h
  · rename_i name p q rest
    split at h
    · cases h
    · rename_i c hc
      split at h
      · cases h
      · rename_i m hm
        cases h
        rw [ofName?_method hm]
        refine ⟨[.word m.name, .leftParen, .rightParen], ?_, fun t l hl => .method m hl⟩
        simpa using expect_took hc
  · rename_i name p rest _
    cases h
    exact ⟨[.word name], rfl, fun t l hl => .name name hl⟩
  · rename_i k p rest
    cases h
    exact ⟨[.keyword k], rfl, fun t l hl => .keyword k hl⟩
  · rename_i n p rest
    cases h
    exact ⟨[.int n], rfl, fun t l hl => .number n hl⟩
  · cases h

/-- The steps of a path in brackets. -/
theorem readIndex_took {last : Pos} {r : Parsed Segment ts} (h : readIndex last ts = .ok r) :
    Took (fun s seg => ∀ t l, Steps t l → Steps (.leftBracket :: s ++ t) (seg :: l)) r := by
  unfold readIndex at h
  split at h
  · rename_i n p rest
    obtain ⟨hv, hs⟩ := close_took h
    refine ⟨[.int n, .rightBracket], ?_, fun t l hl => ?_⟩
    · simpa using hs
    · rw [hv]
      exact .index n hl
  · rename_i key p rest
    obtain ⟨hv, hs⟩ := close_took h
    refine ⟨[.string key, .rightBracket], ?_, fun t l hl => ?_⟩
    · simpa using hs
    · rw [hv]
      exact .key key hl
  · cases h

/-- Further steps of a path are taken from what follows it. -/
theorem extendPath_took {path r : Parsed Path ts} (h : extendPath path = .ok r) :
    ∃ s l, symbols path.rest = s ++ symbols r.rest ∧ Steps s l ∧
      r.value = ⟨path.value.root, path.value.segments ++ l⟩ := by
  fun_induction extendPath path with
  | case1 => cases h
  | case2 path hp step p rest hr seg hseg hs hlt ih =>
    obtain ⟨t, l, ht, hl, hv⟩ := ih h
    obtain ⟨s, hs, hstep⟩ := readAttribute_took hseg
    refine ⟨.dot :: s ++ t, seg.value :: l, ?_, hstep t l hl, ?_⟩
    · rw [hr, symbols_cons, hs, ht]
      simp
    · rw [hv]
      simp [step]
  | case3 => cases h
  | case4 path hp step p rest hr seg hseg hs hlt ih =>
    obtain ⟨t, l, ht, hl, hv⟩ := ih h
    obtain ⟨s, hs, hstep⟩ := readIndex_took hseg
    refine ⟨.leftBracket :: s ++ t, seg.value :: l, ?_, hstep t l hl, ?_⟩
    · rw [hr, symbols_cons, hs, ht]
      simp
    · rw [hv]
      simp [step]
  | case5 path =>
    cases h
    exact ⟨[], [], rfl, .done, by simp⟩

theorem extendFilters_took {target r : Parsed Expr ts} (ht : Took (Phrase .filtered) target)
    (h : extendFilters target = .ok r) : Took (Phrase .filtered) r := by
  fun_induction extendFilters target with
  | case1 => cases h
  | case2 target _ p rest hr c hc _ hlt ih =>
    refine ih ?_ h
    obtain ⟨s, hs, hp⟩ := ht
    obtain ⟨t, ht, hcall⟩ := readCall_took hc
    exact ⟨s ++ .pipe :: t, symbols_join hs hr ht, .filter hp hcall⟩
  | case3 target =>
    cases h
    exact ht

mutual

theorem readExpr_took {last : Pos} {ts : List Token} {r : Parsed Expr ts}
    (h : readExpr last ts = .ok r) : Took (Phrase .disjunction) r := by
  rw [readExpr] at h
  split at h
  · cases h
  · rename_i left hleft
    have := left.shorter
    obtain ⟨s, hs, hp⟩ := readAnd_took hleft
    exact extendOr_took ⟨s, hs, .conjunction hp⟩ h
termination_by (ts.length, 7)

theorem extendOr_took {ts : List Token} {left r : Parsed Expr ts}
    (hl : Took (Phrase .disjunction) left) (h : extendOr left = .ok r) :
    Took (Phrase .disjunction) r := by
  rw [extendOr] at h
  split at h
  · rename_i p rest hr
    have hlt : rest.length < left.rest.length := by rw [hr]; exact Nat.lt_succ_self _
    split at h
    · cases h
    · rename_i right hright
      have := right.shorter
      obtain ⟨s, hs, hp⟩ := hl
      obtain ⟨t, ht, hq⟩ := readAnd_took hright
      exact extendOr_took ⟨_, symbols_join hs hr ht, .or hp hq⟩ h
  · cases h
    exact hl
termination_by (left.rest.length, 6)

theorem readAnd_took {last : Pos} {ts : List Token} {r : Parsed Expr ts}
    (h : readAnd last ts = .ok r) : Took (Phrase .conjunction) r := by
  rw [readAnd] at h
  split at h
  · cases h
  · rename_i left hleft
    have := left.shorter
    obtain ⟨s, hs, hp⟩ := readNot_took hleft
    exact extendAnd_took ⟨s, hs, .negation hp⟩ h
termination_by (ts.length, 5)

theorem extendAnd_took {ts : List Token} {left r : Parsed Expr ts}
    (hl : Took (Phrase .conjunction) left) (h : extendAnd left = .ok r) :
    Took (Phrase .conjunction) r := by
  rw [extendAnd] at h
  split at h
  · rename_i p rest hr
    have hlt : rest.length < left.rest.length := by rw [hr]; exact Nat.lt_succ_self _
    split at h
    · cases h
    · rename_i right hright
      have := right.shorter
      obtain ⟨s, hs, hp⟩ := hl
      obtain ⟨t, ht, hq⟩ := readNot_took hright
      exact extendAnd_took ⟨_, symbols_join hs hr ht, .and hp hq⟩ h
  · cases h
    exact hl
termination_by (left.rest.length, 4)

theorem readNot_took {last : Pos} {ts : List Token} {r : Parsed Expr ts}
    (h : readNot last ts = .ok r) : Took (Phrase .negation) r := by
  rw [readNot.eq_def] at h
  split at h
  · split at h
    · cases h
    · rename_i p rest _ e he
      cases h
      obtain ⟨s, hs, hp⟩ := readNot_took he
      exact ⟨.keyword .not :: s, by simp [hs], .not hp⟩
  · obtain ⟨s, hs, hp⟩ := readComparison_took h
    exact ⟨s, hs, .comparison hp⟩
termination_by (ts.length, 3)

theorem readComparison_took {last : Pos} {ts : List Token} {r : Parsed Expr ts}
    (h : readComparison last ts = .ok r) : Took (Phrase .comparison) r := by
  rw [readComparison] at h
  split at h
  · cases h
  · rename_i left hleft
    have hl := left.shorter
    obtain ⟨s, hs, hp⟩ := readFiltered_took hleft
    split at h
    · rename_i op p rest hr
      have hlt : rest.length < ts.length := by rw [hr, List.length_cons] at hl; omega
      split at h
      · cases h
      · rename_i right hright
        cases h
        obtain ⟨t, ht, hq⟩ := readFiltered_took hright
        exact ⟨_, symbols_join hs hr ht, .compare op hp hq⟩
    · rename_i p rest hr
      have hlt : rest.length < ts.length := by rw [hr, List.length_cons] at hl; omega
      split at h
      · cases h
      · rename_i right hright
        cases h
        obtain ⟨t, ht, hq⟩ := readFiltered_took hright
        exact ⟨_, symbols_join hs hr ht, .contains hp hq⟩
    · rename_i p rest hr
      split at h
      · cases h
      · rename_i c hc
        have hlt : c.rest.length < ts.length := by
          have := c.shorter
          rw [hr, List.length_cons] at hl
          omega
        split at h
        · cases h
        · rename_i right hright
          cases h
          obtain ⟨t, ht, hq⟩ := readFiltered_took hright
          refine ⟨s ++ .keyword .not :: .keyword .in_ :: t, ?_, .lacks hp hq⟩
          simp [hs, hr, expect_took hc, ht]
    · cases h
      exact ⟨s, hs, .filtered hp⟩
termination_by (ts.length, 2)

theorem readFiltered_took {last : Pos} {ts : List Token} {r : Parsed Expr ts}
    (h : readFiltered last ts = .ok r) : Took (Phrase .filtered) r := by
  rw [readFiltered] at h
  split at h
  · cases h
  · rename_i target htarget
    obtain ⟨s, hs, hp⟩ := readPrimary_took htarget
    exact extendFilters_took ⟨s, hs, .primary hp⟩ h
termination_by (ts.length, 1)

theorem readPrimary_took {last : Pos} {ts : List Token} {r : Parsed Expr ts}
    (h : readPrimary last ts = .ok r) : Took (Phrase .primary) r := by
  rw [readPrimary.eq_def] at h
  split at h
  · cases h
  · rename_i p rest
    split at h
    · cases h
    · rename_i e he
      obtain ⟨s, hs, hp⟩ := readExpr_took he
      obtain ⟨hv, hr⟩ := close_took h
      refine ⟨.leftParen :: s ++ [.rightParen], ?_, ?_⟩
      · rw [Parsed.within_rest] at hr
        simp [hs, hr]
      · rw [hv]
        exact .parens hp
  · rename_i name p rest
    split at h
    · cases h
    · rename_i path hpath
      cases h
      obtain ⟨s, l, hs, hl, hv⟩ := extendPath_took hpath
      refine ⟨.word name :: s, ?_, ?_⟩
      · simpa using hs
      · simpa [hv] using Phrase.path name hl
  · rename_i t rest _ _
    split at h
    · rename_i v hv
      cases h
      exact ⟨[t.symbol], rfl, .literal (literal?_isLiteral hv)⟩
    · cases h
termination_by (ts.length, 0)

end

theorem readNames_took {last : Pos} {ts : List Token} {r : Parsed (List String) ts}
    (h : readNames last ts = .ok r) : Took Names r := by
  fun_induction readNames last ts with
  | case1 => cases h
  | case2 last name p q rest names hnames ih =>
    cases h
    obtain ⟨s, hs, hn⟩ := ih hnames
    exact ⟨.word name :: .comma :: s, by simp [hs], .more name hn⟩
  | case3 last name p rest =>
    cases h
    exact ⟨[.word name], rfl, .one name⟩
  | case4 => cases h

theorem Names.target {s : List Symbol} {names : List String} (h : Names s names) :
    TargetPhrase s (Target.ofNames names) := by
  cases h with
  | one name => exact .single name
  | @more s names name h =>
    cases h with
    | one other => exact .unpack name (.one other)
    | more other h => exact .unpack name (.more other h)

theorem readCondition_took {last : Pos} {r : Parsed Expr ts} (h : readCondition last ts = .ok r) :
    Took (fun s e => ∃ t, s = t ++ [.closing .block] ∧ Phrase .disjunction t e) r := by
  unfold readCondition at h
  split at h
  · cases h
  · rename_i e he
    obtain ⟨s, hs, hp⟩ := readExpr_took he
    obtain ⟨hv, hr⟩ := close_took h
    refine ⟨s ++ [.closing .block], ?_, s, rfl, ?_⟩
    · simp [hs, hr]
    · rw [hv]
      exact hp

theorem readLoop_took {last : Pos} {r : Parsed (Target × Expr) ts} (h : readLoop last ts = .ok r) :
    ∃ s t, symbols ts = s ++ .keyword .in_ :: t ++ .closing .block :: symbols r.rest ∧
      TargetPhrase s r.value.1 ∧ Phrase .disjunction t r.value.2 := by
  unfold readLoop at h
  split at h
  · cases h
  · rename_i names hnames
    split at h
    · cases h
    · rename_i closed hclosed
      split at h
      · cases h
      · rename_i e he
        cases h
        obtain ⟨s, hs, hn⟩ := readNames_took hnames
        obtain ⟨hv, hr⟩ := close_took hclosed
        obtain ⟨_, ht, t, rfl, hp⟩ := readCondition_took he
        refine ⟨s, t, ?_, ?_, hp⟩
        · simp [hs, hr, ht]
        · simpa [hv] using hn.target

theorem readOutput_took {last : Pos} {r : Parsed Expr ts} (h : readOutput last ts = .ok r) :
    Took (fun s e => NodePhrase (.opening .output :: s) (.output e)) r := by
  unfold readOutput at h
  split at h
  · cases h
  · rename_i e he
    obtain ⟨s, hs, hp⟩ := readExpr_took he
    split at h
    · rename_i p rest hr
      obtain ⟨hv, hc⟩ := close_took h
      refine ⟨s ++ [.thousands, .closing .output], ?_, ?_⟩
      · have hrest := congrArg symbols hr
        simp only [symbols_cons] at hrest hc
        simp [hs, hrest, hc]
      · rw [hv]
        exact .thousands hp
    · obtain ⟨hv, hc⟩ := close_took h
      refine ⟨s ++ [.closing .output], ?_, ?_⟩
      · simp [hs, hc]
      · rw [hv]
        exact .output hp

inductive Closes : Frame → List Node → List Symbol → Node → Prop where
  | loop {pos target e body} :
      Closes (.loopBody pos target e) body (blockTag [.keyword .endfor]) (.loop target e body none)
  | loopElse {pos target e body s empty} : NodesPhrase s empty →
      Closes (.loopBody pos target e) body
        (blockTag [.keyword .else_] ++ s ++ blockTag [.keyword .endfor])
        (.loop target e body (some empty))
  | loopEmpty {pos target e body empty} :
      Closes (.loopEmpty pos target e body) empty (blockTag [.keyword .endfor])
        (.loop target e body (some empty))
  | cond {pos branches e body} :
      Closes (.condBody pos branches e) body (blockTag [.keyword .endif])
        (.cond (branches ++ [(e, body)]) none)
  | condElse {pos branches e body s otherwise} : NodesPhrase s otherwise →
      Closes (.condBody pos branches e) body
        (blockTag [.keyword .else_] ++ s ++ blockTag [.keyword .endif])
        (.cond (branches ++ [(e, body)]) (some otherwise))
  | elif {pos branches e body s f t next u n} : Phrase .disjunction s f → NodesPhrase t next →
      Closes (.condBody pos (branches ++ [(e, body)]) f) next u n →
      Closes (.condBody pos branches e) body (blockTag (.keyword .elif :: s) ++ t ++ u) n
  | otherwise {pos branches otherwise} :
      Closes (.condElse pos branches) otherwise (blockTag [.keyword .endif])
        (.cond branches (some otherwise))

/-- The symbols that are still to come finish all open blocks and the template. -/
def Completes : Stack → List Node → List Symbol → List Node → Prop
  | [], done, s, ns => ∃ more, NodesPhrase s more ∧ ns = done.reverse ++ more
  | (frame, before) :: outer, done, s, ns =>
    ∃ t more u n v, s = t ++ u ++ v ∧ NodesPhrase t more ∧
      Closes frame (done.reverse ++ more) u n ∧ Completes outer (n :: before) v ns

/-- A node in front is one more of the nodes that are done. -/
theorem Completes.node {stack : Stack} {done : List Node} {s t : List Symbol} {n : Node}
    {ns : List Node} (hn : NodePhrase s n) (h : Completes stack (n :: done) t ns) :
    Completes stack done (s ++ t) ns := by
  cases stack with
  | nil =>
    obtain ⟨more, hm, rfl⟩ := h
    exact ⟨n :: more, .cons hn hm, by simp⟩
  | cons frame outer =>
    obtain ⟨t, more, u, m, v, rfl, hm, hc, ho⟩ := h
    refine ⟨s ++ t, n :: more, u, m, v, by simp, .cons hn hm, ?_, ho⟩
    simpa using hc

/-- The branches that are read and the end of a condition make it up. -/
theorem Closes.branches {frame : Frame} {body : List Node} {u : List Symbol} {n : Node}
    (h : Closes frame body u n) :
    ∀ {pos branches e s}, frame = .condBody pos branches e →
      BranchesPhrase s (branches ++ [(e, body)]) → NodePhrase (s ++ u) n := by
  induction h with
  | cond =>
    rintro _ _ _ s ⟨⟩ hb
    exact .cond hb
  | condElse ho =>
    rintro _ _ _ s ⟨⟩ hb
    simpa using NodePhrase.condElse hb ho
  | elif hp hn _ ih =>
    rintro _ _ _ s ⟨⟩ hb
    simpa using ih rfl (.elif hb hp hn)
  | _ =>
    rintro _ _ _ s ⟨⟩

/-- A tag that opens a block. -/
theorem Completes.opened {frame : Frame} {stack : Stack} {done : List Node} {tag s : List Symbol}
    {ns : List Node}
    (hf : ∀ t body u n, NodesPhrase t body → Closes frame body u n → NodePhrase (tag ++ t ++ u) n)
    (h : Completes ((frame, done) :: stack) [] s ns) : Completes stack done (tag ++ s) ns := by
  obtain ⟨t, body, u, n, v, rfl, hb, hc, ho⟩ := h
  have hn := hf t body u n hb (by simpa using hc)
  simpa using ho.node hn

/-- A tag that goes on to the next part of a block. -/
theorem Completes.switched {frame next : Frame} {before done : List Node} {stack : Stack}
    {a s : List Symbol} {ns : List Node}
    (hf : ∀ t body u n, NodesPhrase t body → Closes next body u n →
      Closes frame done.reverse (a ++ t ++ u) n)
    (h : Completes ((next, before) :: stack) [] s ns) :
    Completes ((frame, before) :: stack) done (a ++ s) ns := by
  obtain ⟨t, body, u, n, v, rfl, hb, hc, ho⟩ := h
  have hn := hf t body u n hb (by simpa using hc)
  exact ⟨[], [], a ++ t ++ u, n, v, by simp, .nil, by simpa using hn, ho⟩

/-- A tag that closes a block. -/
theorem Completes.closed {frame : Frame} {before done : List Node} {stack : Stack}
    {tag s : List Symbol} {n : Node} {ns : List Node} (hf : Closes frame done.reverse tag n)
    (h : Completes stack (n :: before) s ns) :
    Completes ((frame, before) :: stack) done (tag ++ s) ns :=
  ⟨[], [], tag, n, s, by simp, .nil, by simpa using hf, h⟩

theorem endTag_took {progress : Progress} {last : Pos} {r : Parsed Progress ts}
    (h : endTag progress last ts = .ok r) :
    r.value = progress ∧ symbols ts = .closing .block :: symbols r.rest := by
  unfold endTag at h
  split at h
  · cases h
  · rename_i c hc
    cases h
    exact ⟨rfl, expect_took hc⟩

theorem loop_of_closes {pos : Pos} {target : Target} {e : Expr} {s t : List Symbol}
    (hs : TargetPhrase s target) (ht : Phrase .disjunction t e) (u : List Symbol)
    (body : List Node) (v : List Symbol) (n : Node) (hb : NodesPhrase u body)
    (hc : Closes (.loopBody pos target e) body v n) :
    NodePhrase (blockTag (.keyword .for_ :: s ++ .keyword .in_ :: t) ++ u ++ v) n := by
  cases hc with
  | loop => exact .loop hs ht hb
  | loopElse he => simpa using NodePhrase.loopElse hs ht hb he

/-- What completes the state after a block tag completes with the tag the state before it. -/
theorem readBlock_completes {stack : Stack} {done : List Node} {k : Keyword} {p : Pos}
    {r : Parsed Progress ts} (h : readBlock stack done k p ts = .ok r) {ns : List Node}
    (hc : Completes r.value.1 r.value.2 (symbols r.rest) ns) :
    Completes stack done (.opening .block :: .keyword k :: symbols ts) ns := by
  unfold readBlock at h
  split at h
  · split at h
    · cases h
    · rename_i q hq
      cases h
      obtain ⟨s, t, hs, ht, hp⟩ := readLoop_took hq
      simpa [hs, blockTag] using Completes.opened (loop_of_closes ht hp) hc
  · split at h
    · cases h
    · rename_i q hq
      cases h
      obtain ⟨_, hs, s, rfl, hp⟩ := readCondition_took hq
      simpa [hs, blockTag] using Completes.opened
        (fun t body u n hb hcl => hcl.branches rfl (.first hp hb)) hc
  · obtain ⟨hv, hs⟩ := endTag_took h
    rw [hv] at hc
    simpa [hs, blockTag] using Completes.switched (a := blockTag [.keyword .else_])
      (fun t body u n hb hcl => by cases hcl; exact .loopElse hb) hc
  · obtain ⟨hv, hs⟩ := endTag_took h
    rw [hv] at hc
    simpa [hs, blockTag] using Completes.closed .loop hc
  · obtain ⟨hv, hs⟩ := endTag_took h
    rw [hv] at hc
    simpa [hs, blockTag] using Completes.closed .loopEmpty hc
  · split at h
    · cases h
    · rename_i q hq
      cases h
      obtain ⟨_, hs, s, rfl, hp⟩ := readCondition_took hq
      simpa [hs, blockTag] using Completes.switched
        (fun t body u n hb hcl => .elif hp hb hcl) hc
  · obtain ⟨hv, hs⟩ := endTag_took h
    rw [hv] at hc
    simpa [hs, blockTag] using Completes.switched (a := blockTag [.keyword .else_])
      (fun t body u n hb hcl => by cases hcl; exact .condElse hb) hc
  · obtain ⟨hv, hs⟩ := endTag_took h
    rw [hv] at hc
    simpa [hs, blockTag] using Completes.closed .cond hc
  · obtain ⟨hv, hs⟩ := endTag_took h
    rw [hv] at hc
    simpa [hs, blockTag] using Completes.closed .otherwise hc
  · cases h

/-- Whatever is read from here on completes what is read. -/
theorem readNodes_completes {stack : Stack} {done : List Node} {ts : List Token} {ns : List Node}
    (h : readNodes stack done ts = .ok ns) : Completes stack done (symbols ts) ns := by
  fun_induction readNodes stack done ts with
  | case1 done =>
    cases h
    exact ⟨[], .nil, by simp⟩
  | case2 => cases h
  | case3 stack done s p rest ih => exact (ih h).node (.text s)
  | case4 => cases h
  | case5 stack done p rest r hr _ ih =>
    obtain ⟨s, hs, hn⟩ := readOutput_took hr
    simpa [hs] using (ih h).node hn
  | case6 => cases h
  | case7 stack done p k q rest r hr _ ih => exact readBlock_completes hr (ih h)
  | case8 => cases h
  | case9 => cases h
  | case10 => cases h

/-- What parses is derived from the grammar. -/
theorem parse_sound {ts : List Token} {ns : List Node} (h : parse ts = .ok ns) :
    NodesPhrase (symbols ts) ns := by
  obtain ⟨more, hm, rfl⟩ := readNodes_completes h
  exact hm
end Stencil.Template
