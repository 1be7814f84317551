import Stencil.Proofs.GrammarErrors

/-! The blocks that are open while nodes are read. The stack tells what the tokens read so far are:
each frame a part of a block from its first tag on, with whole nodes before and after it. At the end
of the tokens the innermost block lacks nothing but its closing tag. -/
namespace Stencil.Template

def LeftOpen (block : Block) (s : List Symbol) : Prop :=
  ∃ n, NodePhrase (s ++ blockTag [.keyword block.closer]) n

inductive Underway : Frame → List Symbol → Prop where
  | loopBody {pos s target t e} : TargetPhrase s target → Phrase .disjunction t e →
      Underway (.loopBody pos target e) (blockTag (.keyword .for_ :: s ++ .keyword .in_ :: t))
  | loopEmpty {pos s target t e u body} : TargetPhrase s target → Phrase .disjunction t e →
      NodesPhrase u body →
      Underway (.loopEmpty pos target e body)
        (blockTag (.keyword .for_ :: s ++ .keyword .in_ :: t) ++ u ++ blockTag [.keyword .else_])
  | firstBody {pos s e} : Phrase .disjunction s e →
      Underway (.condBody pos [] e) (blockTag (.keyword .if_ :: s))
  | nextBody {pos s branches t e} : BranchesPhrase s branches → Phrase .disjunction t e →
      Underway (.condBody pos branches e) (s ++ blockTag (.keyword .elif :: t))
  | condElse {pos s branches} : BranchesPhrase s branches →
      Underway (.condElse pos branches) (s ++ blockTag [.keyword .else_])

def Frame.node : Frame → List Node → Node
  | loopBody _ target iterable, body => .loop target iterable body none
  | loopEmpty _ target iterable body, empty => .loop target iterable body (some empty)
  | condBody _ branches condition, body => .cond (branches ++ [(condition, body)]) none
  | condElse _ branches, body => .cond branches (some body)

/-- What the tokens read so far are, given the open blocks and the nodes read in the innermost. -/
inductive Reached : List Token → Stack → List Node → Prop where
  | outside {ts done} : NodesPhrase (symbols ts) done.reverse → Reached ts [] done
  | inside {ts tag us frame before stack p done} : Reached ts stack before →
      Underway frame (.opening .block :: .keyword frame.block.opener :: symbols tag) →
      NodesPhrase (symbols us) done.reverse →
      Reached
        (ts ++ (⟨.opening .block, p⟩ :: ⟨.keyword frame.block.opener, frame.pos⟩ :: tag ++ us))
        ((frame, before) :: stack) done

variable {ts us : List Token} {stack : Stack} {frame : Frame} {before done : List Node}

@[simp] theorem symbols_append (ts us : List Token) :
    symbols (ts ++ us) = symbols ts ++ symbols us := List.map_append

theorem Underway.branches {pos : Pos} {branches : List (Expr × List Node)} {e : Expr}
    {s u : List Symbol} {body : List Node} (h : Underway (.condBody pos branches e) s)
    (hb : NodesPhrase u body) : BranchesPhrase (s ++ u) (branches ++ [(e, body)]) := by
  cases h with
  | firstBody he => exact .first he hb
  | nextBody hs he => exact .elif hs he hb

/-- Its closing tag completes a block. -/
theorem Underway.node {s u : List Symbol} {body : List Node} (h : Underway frame s)
    (hb : NodesPhrase u body) :
    NodePhrase (s ++ u ++ blockTag [.keyword frame.block.closer]) (frame.node body) := by
  cases frame with
  | loopBody =>
    cases h with
    | loopBody ht he => exact .loop ht he hb
  | loopEmpty =>
    cases h with
    | loopEmpty ht he hbody => exact .loopElse ht he hbody hb
  | condBody => exact .cond (h.branches hb)
  | condElse =>
    cases h with
    | condElse hs => exact .condElse hs hb

theorem NodesPhrase.snoc {s t : List Symbol} {n : Node} (h : NodesPhrase s done.reverse)
    (hn : NodePhrase t n) : NodesPhrase (s ++ t) (n :: done).reverse := by
  rw [List.reverse_cons]
  have ht : NodesPhrase (t ++ []) [n] := .cons hn .nil
  rw [List.append_nil] at ht
  exact h.append ht

/-- A whole node more has been read. -/
theorem Reached.node {n : Node} (h : Reached ts stack done) (hn : NodePhrase (symbols us) n) :
    Reached (ts ++ us) stack (n :: done) := by
  cases h with
  | outside hs =>
    refine .outside ?_
    rw [symbols_append]
    exact hs.snoc hn
  | @inside ts tag vs frame before stack p _ ho hf hs =>
    rw [List.append_assoc, List.append_assoc]
    refine .inside ho hf ?_
    rw [symbols_append]
    exact hs.snoc hn

/-- A tag has opened a block. -/
theorem Reached.opened {tag : List Token} {p : Pos} (h : Reached ts stack done)
    (hf : Underway frame (.opening .block :: .keyword frame.block.opener :: symbols tag)) :
    Reached (ts ++ ⟨.opening .block, p⟩ :: ⟨.keyword frame.block.opener, frame.pos⟩ :: tag)
      ((frame, done) :: stack) [] := by
  have hs : NodesPhrase (symbols []) ([] : List Node).reverse := .nil
  have hi := Reached.inside (p := p) h hf hs
  rwa [List.append_nil] at hi

/-- A tag has gone on to another part of the block. -/
theorem Reached.switched {next : Frame} (h : Reached ts ((frame, before) :: stack) done)
    (hp : next.pos = frame.pos) (hb : next.block = frame.block)
    (hf : ∀ s u, Underway frame s → NodesPhrase u done.reverse →
      Underway next (s ++ u ++ symbols us)) :
    Reached (ts ++ us) ((next, before) :: stack) [] := by
  cases h with
  | @inside ts tag vs _ _ _ p _ ho hu hs =>
    have hn := hf _ _ hu hs
    have ht : Underway next
        (.opening .block :: .keyword next.block.opener :: symbols (tag ++ vs ++ us)) := by
      rw [hb]
      simpa using hn
    have hi := ho.opened (p := p) ht
    rw [hp, hb] at hi
    simpa using hi

/-- A tag has closed the block. -/
theorem Reached.closed (h : Reached ts ((frame, before) :: stack) done)
    (hu : symbols us = blockTag [.keyword frame.block.closer]) :
    Reached (ts ++ us) stack (frame.node done.reverse :: before) := by
  cases h with
  | @inside ts tag vs _ _ _ p _ ho hf hs =>
    rw [List.append_assoc]
    refine ho.node ?_
    have hn := hf.node hs
    rw [← hu] at hn
    simpa using hn

/-- The tokens that were read are those in front of what is left. -/
theorem used_of_suffix {rest : List Token} {s : List Symbol} (h : rest <:+ ts)
    (hs : symbols ts = s ++ symbols rest) : ∃ used, ts = used ++ rest ∧ symbols used = s := by
  obtain ⟨used, rfl⟩ := h
  rw [symbols_append] at hs
  exact ⟨used, rfl, List.append_cancel_right hs⟩

theorem readCondition_used {last : Pos} {r : Parsed Expr ts}
    (h : readCondition last ts = .ok r) :
    ∃ used s, ts = used ++ r.rest ∧ symbols used = s ++ [.closing .block] ∧
      Phrase .disjunction s r.value := by
  have hr := readCondition_stays last ts
  rw [h] at hr
  obtain ⟨_, hs, s, rfl, hp⟩ := readCondition_took h
  obtain ⟨used, ht, hu⟩ := used_of_suffix hr.of_ok hs
  exact ⟨used, s, ht, hu, hp⟩

theorem readLoop_used {last : Pos} {r : Parsed (Target × Expr) ts}
    (h : readLoop last ts = .ok r) :
    ∃ used s t, ts = used ++ r.rest ∧
      symbols used = s ++ .keyword .in_ :: t ++ [.closing .block] ∧
      TargetPhrase s r.value.1 ∧ Phrase .disjunction t r.value.2 := by
  have hr := readLoop_stays last ts
  rw [h] at hr
  obtain ⟨s, t, hs, ht, hp⟩ := readLoop_took h
  rw [List.append_cons] at hs
  obtain ⟨used, hts, hu⟩ := used_of_suffix hr.of_ok hs
  exact ⟨used, s, t, hts, hu, ht, hp⟩

theorem endTag_used {progress : Progress} {last : Pos} {r : Parsed Progress ts}
    (h : endTag progress last ts = .ok r) :
    r.value = progress ∧ ∃ used, ts = used ++ r.rest ∧ symbols used = [.closing .block] := by
  have hr := endTag_stays progress last ts
  rw [h] at hr
  obtain ⟨hv, hs⟩ := endTag_took h
  exact ⟨hv, used_of_suffix hr.of_ok hs⟩

theorem Reached.endTag {past : List Token} {k : Keyword} {p q : Pos} {r : Parsed Progress ts}
    (hr : Reached past ((frame, before) :: stack) done) (hk : k = frame.block.closer)
    (h : endTag (stack, frame.node done.reverse :: before) q ts = .ok r) :
    ∃ used, ts = used ++ r.rest ∧
      Reached (past ++ ⟨.opening .block, p⟩ :: ⟨.keyword k, q⟩ :: used) r.value.1 r.value.2 := by
  obtain ⟨hv, used, hts, hu⟩ := endTag_used h
  refine ⟨used, hts, ?_⟩
  rw [hv]
  exact hr.closed (by simp [hu, hk, blockTag])

/-- A block tag that is read leads from a state that says what the tokens are to another. -/
theorem readBlock_reached {past : List Token} {k : Keyword} {p q : Pos}
    {r : Parsed Progress ts} (h : readBlock stack done k q ts = .ok r)
    (hr : Reached past stack done) :
    ∃ used, ts = used ++ r.rest ∧
      Reached (past ++ ⟨.opening .block, p⟩ :: ⟨.keyword k, q⟩ :: used) r.value.1 r.value.2 := by
  unfold readBlock at h
  split at h
  · split at h
    · cases h
    · rename_i loop hloop
      cases h
      obtain ⟨used, s, t, hts, hu, ht, hp⟩ := readLoop_used hloop
      have hf : Underway (.loopBody q loop.value.1 loop.value.2)
          (.opening .block :: .keyword .for_ :: symbols used) := by
        simpa [hu, blockTag] using Underway.loopBody ht hp
      exact ⟨used, hts, hr.opened hf⟩
  · split at h
    · cases h
    · rename_i e he
      cases h
      obtain ⟨used, s, hts, hu, hp⟩ := readCondition_used he
      have hf : Underway (.condBody q [] e.value)
          (.opening .block :: .keyword .if_ :: symbols used) := by
        simpa [hu, blockTag] using Underway.firstBody hp
      exact ⟨used, hts, hr.opened hf⟩
  · obtain ⟨hv, used, hts, hu⟩ := endTag_used h
    refine ⟨used, hts, ?_⟩
    rw [hv]
    refine hr.switched rfl rfl fun s u hs hb => ?_
    cases hs with
    | loopBody ht he => simpa [hu, blockTag] using Underway.loopEmpty ht he hb
  · exact hr.endTag rfl h
  · exact hr.endTag rfl h
  · split at h
    · cases h
    · rename_i e he
      cases h
      obtain ⟨used, s, hts, hu, hp⟩ := readCondition_used he
      refine ⟨used, hts, hr.switched rfl rfl fun s' u hs hb => ?_⟩
      simpa [hu, blockTag] using Underway.nextBody (hs.branches hb) hp
  · obtain ⟨hv, used, hts, hu⟩ := endTag_used h
    refine ⟨used, hts, ?_⟩
    rw [hv]
    refine hr.switched rfl rfl fun s u hs hb => ?_
    simpa [hu, blockTag] using Underway.condElse (hs.branches hb)
  · exact hr.endTag rfl h
  · exact hr.endTag rfl h
  · cases h

/-- The token is the keyword of a block that the tokens leave open at their end. -/
def LacksCloser (ts : List Token) (t : Token) (cause : Cause) : Prop :=
  ∃ block before p after, ts = before ++ ⟨.opening .block, p⟩ :: t :: after ∧
    cause = .missingCloser block ∧ t.symbol = .keyword block.opener ∧
    LeftOpen block (.opening .block :: symbols (t :: after))

/-- An error complains about a token, or the innermost block is left open at the end. -/
theorem readNodes_complains {past : List Token} {e : ParseError}
    (h : readNodes stack done ts = .error e) (hr : Reached past stack done) :
    Complains (past ++ ts) e ∨ ∃ t, e.pos = t.pos ∧ LacksCloser (past ++ ts) t e.cause := by
  -- by the recursion of the reader, where the tokens that it reads move from `ts` to `past`
  fun_induction readNodes stack done ts generalizing past with
  | case1 => cases h
  | case2 done frame before stack =>
    cases h
    cases hr with
    | @inside past tag us _ _ _ p _ ho hf hs =>
      let t : Token := ⟨.keyword frame.block.opener, frame.pos⟩
      have hopen : LeftOpen frame.block (.opening .block :: symbols (t :: (tag ++ us))) :=
        ⟨frame.node done.reverse, by simpa [t] using hf.node hs⟩
      exact .inr ⟨t, rfl, frame.block, past, p, tag ++ us, by simp [t], rfl, rfl, hopen⟩
  | case3 stack done s p rest ih =>
    have hn : NodePhrase (symbols [⟨.text s, p⟩]) (.text s) := .text s
    simpa using ih h (hr.node hn)
  | case4 stack done p rest e' he =>
    cases h
    have hc := (he ▸ readOutput_stays p rest).of_error
    exact .inl (hc.mono ((List.suffix_cons _ rest).trans (List.suffix_append past _)))
  | case5 stack done p rest r hread _ ih =>
    obtain ⟨s, hs, hn⟩ := readOutput_took hread
    obtain ⟨used, hu, hsym⟩ := used_of_suffix (hread ▸ readOutput_stays p rest).of_ok hs
    have hn : NodePhrase (symbols (⟨.opening .output, p⟩ :: used)) (.output r.value) := by
      rw [symbols_cons, hsym]
      exact hn
    have hi := ih h (hr.node hn)
    rwa [List.append_assoc, List.cons_append, ← hu] at hi
  | case6 stack done p k q rest e' he =>
    cases h
    have hc := (he ▸ readBlock_stays stack done k q rest).of_error
    exact .inl (hc.mono ((List.suffix_cons _ _).trans (List.suffix_append past _)))
  | case7 stack done p k q rest r hread _ ih =>
    obtain ⟨used, hu, hn⟩ := readBlock_reached (p := p) hread hr
    have hi := ih h hn
    rwa [List.append_assoc, List.cons_append, List.cons_append, ← hu] at hi
  | case8 stack done p s q rest _ =>
    cases h
    have hc : Complains (⟨s, q⟩ :: rest) ⟨.unknownBlock s, q⟩ := .first q rest rfl
    exact .inl (hc.mono ((List.suffix_cons _ _).trans (List.suffix_append past _)))
  | case9 stack done p =>
    cases h
    exact .inl (.inl ⟨_, rfl⟩)
  | case10 stack done s p rest _ _ _ =>
    cases h
    have hc : Complains (⟨s, p⟩ :: rest) ⟨.unexpected s, p⟩ := .first p rest rfl
    exact .inl (hc.mono (List.suffix_append past _))

theorem parse_complains {e : ParseError} (h : parse ts = .error e) :
    Complains ts e ∨ ∃ t, e.pos = t.pos ∧ LacksCloser ts t e.cause := by
  have hs : NodesPhrase (symbols []) ([] : List Node).reverse := .nil
  exact readNodes_complains h (.outside hs)

end Stencil.Template
