import Stencil.Proofs.LowerCells

/-! The tokens of text that stands further down are those of the text. -/
namespace Stencil.Yaml

variable (base : Mark) (c : Cell) (cs : List Cell)

/-! Anchors, aliases, tags and directives. -/

/-- The first of the cells, if it has a certain character. -/
theorem eq_cons_of_map_lower {base : Mark} {cs rest : List Cell} {char : Char} {m : Mark}
    (h : cs.map (Cell.lower base) = ⟨char, m⟩ :: rest) : ∃ m' rest', cs = ⟨char, m'⟩ :: rest' := by
  obtain ⟨⟨char', m'⟩, rest', rfl, hc, -⟩ := List.map_eq_cons_iff.1 h
  cases hc
  exact ⟨m', rest', rfl⟩

theorem takeWord_lower : (cs.map (Cell.lower base)).takeWhile Cell.isWord =
    (cs.takeWhile Cell.isWord).map (Cell.lower base) :=
  takeWhile_lower fun _ => rfl

theorem dropWord_lower : (cs.map (Cell.lower base)).dropWhile Cell.isWord =
    (cs.dropWhile Cell.isWord).map (Cell.lower base) :=
  dropWhile_lower fun _ => rfl

theorem dropWord_shorter : (cs.dropWhile Cell.isWord).length ≤ cs.length :=
  (List.dropWhile_sublist _).length_le

theorem readName_agree :
    Agree base cs.length (readName cs) (readName (cs.map (Cell.lower base))) := by
  have hn := dropWord_shorter cs
  rw [readName, readName, takeWord_lower, dropWord_lower, ofCells_lower, gapFollows_lower,
    head?_any_lower]
  simp only [ne_eq, List.map_eq_nil_iff]
  exact .ite (fun _ => .some hn) fun _ => .none

theorem readHandle_agree (directive : Bool) :
    Agree base (cs.length - 1) (readHandle directive cs)
      (readHandle directive (cs.map (Cell.lower base))) := by
  cases cs with
  | nil => exact .none
  | cons c cs =>
    have hn := dropWord_shorter cs
    have hw (more : List Cell) :
        ofCells (c.lower base :: ((cs.takeWhile Cell.isWord).map (Cell.lower base) ++
          more.map (Cell.lower base))) = ofCells (c :: (cs.takeWhile Cell.isWord ++ more)) := by
      rw [← List.map_append, ← List.map_cons, ofCells_lower]
    have hw₀ := hw []
    rw [List.map_nil, List.append_nil, List.append_nil] at hw₀
    rw [List.map_cons, readHandle, readHandle, takeWord_lower, dropWord_lower]
    refine .ite (fun _ => .none) fun _ => ?_
    generalize cs.dropWhile Cell.isWord = rest at hn
    cases rest with
    | nil =>
      dsimp only [List.map_nil]
      rw [hw₀]
      exact Agree.some (r := (_, ([] : List Cell))) (Nat.zero_le _)
    | cons d rest =>
      have hw₁ := hw [d]
      have hl : (c.lower base :: (cs.takeWhile Cell.isWord).map (Cell.lower base)).length =
        (c :: cs.takeWhile Cell.isWord).length := by simp
      rw [List.map_singleton] at hw₁
      rw [List.map_cons]
      dsimp only [List.cons_append]
      rw [hw₀, hw₁, hl]
      refine .ite (fun _ => .some (Nat.le_of_succ_le hn)) fun _ => .ite (fun _ => .none) ?_
      exact fun _ => .some hn

theorem readUri_agree (brackets : Bool) (due : Nat) (cs : List Cell) :
    Agree base cs.length (readUri brackets due cs)
      (readUri brackets due (cs.map (Cell.lower base))) := by
  match cs with
  | [] =>
    rw [List.map_nil, readUri]
    exact .ite (fun _ => .some (Nat.le_refl _)) fun _ => .none
  | c :: cs =>
    rw [List.map_cons, readUri.eq_def, readUri.eq_def]
    dsimp only
    refine .ite (fun _ => ?_) fun _ => .ite (fun _ => .none) fun _ => .ite (fun _ => ?_) ?_
    · match cs with
      | [] | [_] => exact .none
      | a :: b :: rest =>
        have h (due : Nat) := (readUri_agree brackets due rest).mono
          (m := (c :: a :: b :: rest).length) (by simp only [List.length_cons]; omega)
        refine .after _ fun high => .after _ fun low => .after _ fun due => ?_
        exact (h due).bind fun r hr => .some hr
    · refine ((readUri_agree brackets 0 cs).mono (Nat.le_succ _)).bind fun r hr => .some hr
    · exact fun _ => .some (Nat.le_refl _)

theorem readDigits_agree :
    Agree base cs.length (readDigits cs) (readDigits (cs.map (Cell.lower base))) := by
  have ht : (cs.map (Cell.lower base)).takeWhile (·.char.isDigit) =
    (cs.takeWhile (·.char.isDigit)).map (Cell.lower base) := takeWhile_lower fun _ => rfl
  have hd : (cs.map (Cell.lower base)).dropWhile (·.char.isDigit) =
    (cs.dropWhile (·.char.isDigit)).map (Cell.lower base) := dropWhile_lower fun _ => rfl
  rw [readDigits, readDigits, ht, hd, map_char_lower]
  simp only [List.map_eq_nil_iff, List.length_map]
  exact .ite (fun _ => .none) fun _ => .some (List.dropWhile_sublist _).length_le

theorem readVersion_agree :
    Agree base cs.length (readVersion cs) (readVersion (cs.map (Cell.lower base))) := by
  have hb := skipBlanks_shorter cs
  rw [readVersion, readVersion, skipBlanks_lower]
  refine ((readDigits_agree base _).mono hb).bind ?_
  rintro ⟨major, rest⟩ hrest
  dsimp only [Leaves.lower]
  split
  · next m rest =>
    exact ((readDigits_agree base rest).mono (Nat.le_of_succ_le hrest)).bind fun r hr => .some hr
  · next hne =>
    split
    · next h =>
      obtain ⟨m, more, rfl⟩ := eq_cons_of_map_lower h
      exact absurd rfl (hne m more)
    · exact .none

theorem readTagHandle_agree :
    Agree base cs.length (readTagHandle cs) (readTagHandle (cs.map (Cell.lower base))) := by
  have hb := skipBlanks_shorter cs
  rw [readTagHandle, readTagHandle, skipBlanks_lower]
  refine ((readHandle_agree base _ true).mono (Nat.le_trans (Nat.sub_le _ 1) hb)).bind ?_
  rintro ⟨handle, rest⟩ hrest
  have hr := skipBlanks_shorter rest
  dsimp only [Leaves.lower]
  rw [head?_any_lower, skipBlanks_lower]
  refine .ite (fun _ => ?_) fun _ => .none
  refine ((readUri_agree base true 0 _).mono (Nat.le_trans hr hrest)).bind ?_
  rintro ⟨stem, after⟩ hafter
  refine .ite_iff ?_ (fun _ => .some hafter) fun _ => .none
  dsimp only [Leaves.lower]
  rw [gapFollows_lower]

theorem readDirective_agree :
    Agree base cs.length (readDirective cs) (readDirective (cs.map (Cell.lower base))) := by
  have hn := dropWord_shorter cs
  have hend (r : Token × List Cell) (hr : (Leaves.rest r).length ≤ cs.length) :=
    lineEnd_agree base (fun rest => (r.1, rest)) (fun _ => rfl) (fun _ => rfl) hr
  rw [readDirective, readDirective, takeWord_lower, dropWord_lower, ofCells_lower, gapFollows_lower]
  refine .ite (fun _ => ?_) fun _ => .none
  generalize ofCells (cs.takeWhile Cell.isWord) = name
  split
  · exact ((readVersion_agree base _).mono hn).bind hend
  · exact ((readTagHandle_agree base _).mono hn).bind hend
  · exact .none

theorem readTag_agree (flow : Bool) :
    Agree base (cs.length - 1) (readTag flow cs) (readTag flow (cs.map (Cell.lower base))) := by
  have hend (token : Token) {rest : List Cell} (hr : rest.length ≤ cs.length - 1) :
      Agree base (cs.length - 1)
        (if gapFollows rest ∨ (flow ∧ rest.head?.any (·.char = ',')) then some (token, rest)
          else none)
        (if gapFollows (rest.map (Cell.lower base)) ∨
            (flow ∧ (rest.map (Cell.lower base)).head?.any (·.char = ',')) then
          some (token, rest.map (Cell.lower base)) else none) := by
    rw [gapFollows_lower, head?_any_lower]
    exact .ite (fun _ => .some hr) fun _ => .none
  unfold readTag
  split
  · next a m more =>
    dsimp only [List.map_cons, Cell.lower]
    refine ((readUri_agree base true 0 more).mono (Nat.le_succ _)).bind ?_
    rintro ⟨uri, rest⟩ hrest
    dsimp only [Leaves.lower]
    split
    · exact .ite (fun _ => .none) fun _ => hend _ (Nat.le_of_succ_le hrest)
    · next hne =>
      split
      · next h =>
        obtain ⟨m, rest, rfl⟩ := eq_cons_of_map_lower h
        exact absurd rfl (hne m rest)
      · exact .none
  · next hne =>
    split
    · next h =>
      obtain ⟨a, rest, rfl, -, h⟩ := List.map_eq_cons_iff.1 h
      obtain ⟨m, rest, rfl⟩ := eq_cons_of_map_lower h
      exact absurd rfl (hne a m rest)
    · refine (readHandle_agree base cs false).bind ?_
      rintro ⟨handle, rest⟩ hrest
      refine ((readUri_agree base false 0 rest).mono hrest).bind ?_
      rintro ⟨uri, rest⟩ hrest
      refine .ite (fun _ => ?_) fun _ => hend _ hrest
      exact .ite (fun _ => .none) fun _ => hend _ hrest

/-! The state of a scan. -/

def Candidate.lower (k : Candidate) : Candidate := { k with mark := base.lower k.mark }

namespace Scan

def lower (s : Scan) : Scan :=
  { s with
    rest := s.rest.map (Cell.lower base)
    candidate := s.candidate.map (Candidate.lower base)
    levels := s.levels.map (Option.map (Candidate.lower base)) }

instance : Leaves Scan := ⟨Scan.rest, Scan.lower⟩

variable (s : Scan)

theorem inFlow_lower : (s.lower base).inFlow = s.inFlow :=
  congrArg (! ·) List.isEmpty_map

theorem push_agree {n : Nat} {rest : List Cell} (t : Token) (h : rest.length ≤ n) :
    Agree base n (some (s.push t rest))
      (some ((s.lower base).push t (rest.map (Cell.lower base)))) :=
  Agree.some (r := s.push t rest) h

theorem skipGap_agree (flow comment keyAllowed : Bool) :
    Agree base cs.length (some (skipGap flow comment keyAllowed cs))
      (some (skipGap flow comment keyAllowed (cs.map (Cell.lower base)))) := by
  induction cs generalizing comment keyAllowed with
  | nil => exact .some (Nat.le_refl _)
  | cons c cs ih =>
    have hcs (comment keyAllowed : Bool) := (ih comment keyAllowed).mono (Nat.le_succ cs.length)
    rw [List.map_cons, skipGap, skipGap]
    simp only [apply_ite some]
    refine .ite (fun _ => hcs _ _) fun _ => .ite (fun _ => hcs _ _) fun _ => ?_
    refine .ite (fun _ => hcs _ _) fun _ => .ite (fun _ => hcs _ _) fun _ => ?_
    exact .ite (fun _ => hcs _ _) fun _ => .some (Nat.le_refl _)

theorem skip_agree : Agree base s.rest.length (some s.skip) (some (s.lower base).skip) := by
  rw [skip, skip, inFlow_lower]
  refine (skipGap_agree base s.rest s.inFlow false s.keyAllowed).bind
    (f := fun r => some { s with keyAllowed := r.1, rest := r.2 })
    (g := fun r => some { s.lower base with keyAllowed := r.1, rest := r.2 }) fun gap hgap => ?_
  exact .some (r := { s with keyAllowed := gap.1, rest := gap.2 }) hgap

theorem refresh_lower (here : Mark) (k : Option Candidate) :
    refresh (base.lower here) (k.map (Candidate.lower base)) =
      (refresh here k).map (Option.map (Candidate.lower base)) := by
  cases k with
  | none => rfl
  | some k =>
    have hl : base.line + k.mark.line < base.line + here.line ↔ k.mark.line < here.line := by omega
    have hi : base.index + k.mark.index + 1024 < base.index + here.index ↔
      k.mark.index + 1024 < here.index := by omega
    simp only [Option.map_some, refresh, Candidate.lower, Mark.lower, hl, hi]
    rw [apply_ite (Option.map _), apply_ite (Option.map _)]
    rfl

theorem mapM_refresh_lower (here : Mark) (ks : List (Option Candidate)) :
    (ks.map (Option.map (Candidate.lower base))).mapM (refresh (base.lower here)) =
      (ks.mapM (refresh here)).map (List.map (Option.map (Candidate.lower base))) := by
  induction ks with
  | nil => rfl
  | cons k ks ih =>
    rw [List.map_cons, List.mapM_cons, List.mapM_cons, refresh_lower, ih]
    cases refresh here k with
    | none => rfl
    | some k => cases ks.mapM (refresh here) <;> rfl

theorem dropStale_lower (here : Mark) :
    (s.lower base).dropStale (base.lower here) = (s.dropStale here).map (lower base) := by
  have hc := refresh_lower base here s.candidate
  have hl := mapM_refresh_lower base here s.levels
  rw [dropStale, dropStale]
  dsimp only [lower]
  rw [hc, hl]
  cases refresh here s.candidate with
  | none => rfl
  | some k => cases s.levels.mapM (refresh here) <;> rfl

theorem dedent_lower (column : Int) :
    (s.lower base).dedent column = (s.dedent column).lower base := by
  rw [dedent, dedent, inFlow_lower, apply_ite (lower base)]
  rfl

theorem openBlock_lower (column position : Nat) (t : Token) :
    (s.lower base).openBlock column position t = (s.openBlock column position t).lower base := by
  rw [openBlock, openBlock, inFlow_lower, apply_ite (lower base)]
  rfl

theorem giveUp_agree : Agree base s.rest.length s.giveUp (s.lower base).giveUp := by
  obtain ⟨rest, tokens, indent, outer, keyAllowed, candidate, levels⟩ := s
  cases candidate with
  | none => exact .some (Nat.le_refl _)
  | some k => exact .ite (fun _ => .none) fun _ => .some (Nat.le_refl _)

theorem consider_agree (here : Mark) :
    Agree base s.rest.length (s.consider here) ((s.lower base).consider (base.lower here)) := by
  rw [consider, consider]
  refine .ite (fun _ => ?_) fun _ => .some (Nat.le_refl _)
  refine (giveUp_agree base s).bind fun s hs => ?_
  rw [show (Leaves.lower base s : Scan).inFlow = s.inFlow from inFlow_lower base s]
  exact .some hs

theorem leaveDocument_agree :
    Agree base (s.dedent (-1)).rest.length s.leaveDocument (s.lower base).leaveDocument := by
  rw [leaveDocument, leaveDocument, dedent_lower]
  exact (giveUp_agree base _).bind fun s hs => .some hs

variable {n : Nat} {rest : List Cell}

theorem openFlow_agree (here : Mark) (t : Token) (h : rest.length ≤ n) :
    Agree base n (s.openFlow here t rest)
      ((s.lower base).openFlow (base.lower here) t (rest.map (Cell.lower base))) :=
  (consider_agree base s here).bind fun _ _ => .some h

theorem closeFlow_agree (t : Token) (h : rest.length ≤ n) :
    Agree base n (s.closeFlow t rest)
      ((s.lower base).closeFlow t (rest.map (Cell.lower base))) := by
  refine (giveUp_agree base s).bind ?_
  rintro ⟨cells, tokens, indent, outer, keyAllowed, candidate, _ | ⟨k, levels⟩⟩ -
  · exact .some h
  · exact .some h

theorem readItem_agree (here : Mark) (h : rest.length ≤ n) :
    Agree base n (s.readItem here rest)
      ((s.lower base).readItem (base.lower here) (rest.map (Cell.lower base))) := by
  have hb := openBlock_lower base s here.column s.tokens.size .blockSequence
  rw [readItem, readItem, inFlow_lower]
  refine .ite (fun _ => .none) fun _ => ?_
  exact .bind (hb ▸ giveUp_agree base _) fun _ _ => .some h

theorem readKey_agree (here : Mark) (h : rest.length ≤ n) :
    Agree base n (s.readKey here rest)
      ((s.lower base).readKey (base.lower here) (rest.map (Cell.lower base))) := by
  have hb := openBlock_lower base s here.column s.tokens.size .blockMapping
  rw [readKey, readKey, inFlow_lower]
  refine .ite (fun _ => .none) fun _ => ?_
  refine .bind (hb ▸ giveUp_agree base _) fun s _ => ?_
  rw [show (Leaves.lower base s : Scan).inFlow = s.inFlow from inFlow_lower base s]
  exact .some h

theorem node_agree (here : Mark) (t : Token) (h : rest.length ≤ n) :
    Agree base n (do pure ((← s.consider here).push t rest))
      (do pure ((← (s.lower base).consider (base.lower here)).push t
        (rest.map (Cell.lower base)))) :=
  (consider_agree base s here).bind fun s _ => push_agree base s t h

theorem readValue_agree (here : Mark) (h : rest.length ≤ n) :
    Agree base n (s.readValue here rest)
      ((s.lower base).readValue (base.lower here) (rest.map (Cell.lower base))) := by
  obtain ⟨cells, tokens, indent, outer, keyAllowed, candidate, levels⟩ := s
  cases candidate with
  | none =>
    rw [readValue, readValue, inFlow_lower]
    refine .ite (fun _ => .none) fun _ => ?_
    dsimp only
    rw [openBlock_lower, inFlow_lower]
    exact .some h
  | some k =>
    have hb := openBlock_lower base
      ⟨cells, insertAt tokens k.position .key, indent, outer, keyAllowed, some k, levels⟩
      k.mark.column k.position .blockMapping
    exact .of_eq (congrArg (fun s => push { s with candidate := none, keyAllowed := false }
      .value (rest.map (Cell.lower base))) hb) h

theorem startsPlain_lower (flow : Bool) :
    startsPlain flow (c.lower base) (cs.map (Cell.lower base)) = startsPlain flow c cs := by
  rw [startsPlain, head?_any_lower, gapFollows_lower]
  rfl

/-- No plain scalar ends where it starts. -/
theorem plainEnds_of_startsPlain {flow : Bool} {c : Cell} {cs : List Cell} (indent : Int)
    (h : startsPlain flow c cs) : plainEnds flow indent (.blanks []) c cs = false := by
  have hgap : (Gap.blanks []).isEmpty = true := rfl
  simp only [startsPlain, Bool.or_eq_true] at h
  obtain (h | h) | h := h
  · simp [Cell.isGap, Cell.endsLine, Cell.isOneOf] at h
    simp [plainEnds, hgap, Cell.isOneOf, h]
  · simp at h
    simp [plainEnds, hgap, Cell.isEnd, Cell.isOneOf, h]
  · simp at h
    simp [plainEnds, hgap, Cell.isEnd, Cell.isOneOf, h]
    grind

theorem readPlain_started_agree {flow : Bool} {c : Cell} {cs : List Cell} (indent : Int)
    (hc : startsPlain flow c cs) :
    Agree base cs.length (readPlain flow indent (.blanks []) (c :: cs))
      (readPlain flow indent (.blanks []) ((c :: cs).map (Cell.lower base))) := by
  have hcs (gap : Gap) := readPlain_agree base cs flow indent gap
  refine ⟨(readPlain_agree base (c :: cs) flow indent _).same, fun r hr => ?_⟩
  rw [readPlain, plainEnds_of_startsPlain indent hc, if_neg Bool.false_ne_true] at hr
  split at hr
  · exact (hcs _).shorter r hr
  split at hr
  · exact (hcs _).shorter r hr
  split at hr
  · cases hr
  · obtain ⟨r, h, rfl⟩ := Option.map_eq_some_iff.1 hr
    exact (hcs _).shorter r h

/-- A token is read further down as it is where it stands, and takes at least the cell that it
starts with. -/
theorem readToken_agree (rest : List Cell) :
    Agree base rest.length (s.readToken c rest)
      ((s.lower base).readToken (c.lower base) (rest.map (Cell.lower base))) := by
  have hd : (rest.map (Cell.lower base)).drop 2 = (rest.drop 2).map (Cell.lower base) :=
    List.map_drop.symm
  have hn : (rest.drop 2).length ≤ rest.length := (List.drop_sublist 2 rest).length_le
  have hb (mark : Char) := atBoundary_lower base (c :: rest) mark
  rw [List.map_cons] at hb
  have ht := readTag_agree base (c :: rest) s.inFlow
  rw [readToken, readToken, inFlow_lower, hb, hb, gapFollows_lower, startsPlain_lower, hd]
  refine .ite (fun _ => ?_) fun _ => .ite (fun _ => ?_) fun _ => .ite (fun _ => ?_) fun _ => ?_
  · exact (leaveDocument_agree base s).bind fun s _ =>
      (readDirective_agree base rest).bind fun r hr => .some hr
  · exact (leaveDocument_agree base s).bind fun s _ => .some hn
  · exact (leaveDocument_agree base s).bind fun s _ => .some hn
  refine .ite (fun _ => openFlow_agree base s c.mark _ (Nat.le_refl _)) fun _ => ?_
  refine .ite (fun _ => openFlow_agree base s c.mark _ (Nat.le_refl _)) fun _ => ?_
  refine .ite (fun _ => closeFlow_agree base s _ (Nat.le_refl _)) fun _ => ?_
  refine .ite (fun _ => closeFlow_agree base s _ (Nat.le_refl _)) fun _ => ?_
  refine .ite (fun _ => (giveUp_agree base s).bind fun s _ => .some (Nat.le_refl _)) fun _ => ?_
  refine .ite (fun _ => readItem_agree base s c.mark (Nat.le_refl _)) fun _ => ?_
  refine .ite (fun _ => readKey_agree base s c.mark (Nat.le_refl _)) fun _ => ?_
  refine .ite (fun _ => readValue_agree base s c.mark (Nat.le_refl _)) fun _ => ?_
  have hnode (t : Token) {cs : List Cell} (h : cs.length ≤ rest.length) :=
    node_agree base s c.mark t h
  refine .ite (fun _ => (readName_agree base rest).bind fun _ hr => hnode _ hr) fun _ => ?_
  refine .ite (fun _ => (readName_agree base rest).bind fun _ hr => hnode _ hr) fun _ => ?_
  refine .ite (fun _ => ht.bind fun _ hr => hnode _ hr) fun _ => ?_
  refine .ite (fun _ => ?_) fun _ => .ite (fun _ => ?_) fun _ => .ite (fun _ => ?_) fun _ => ?_
  · refine (giveUp_agree base s).bind fun s _ => ?_
    exact (readBlock_agree base rest _ s.indent).bind fun r hr => .some hr
  · exact (readSingle_agree base (.blanks []) rest).bind fun _ hr => hnode _ hr
  · exact (readDouble_agree base (.blanks []) rest).bind fun _ hr => hnode _ hr
  · refine .ite (fun h => ?_) fun _ => .none
    refine (consider_agree base s c.mark).bind fun s _ => ?_
    exact (readPlain_started_agree base (s.indent + 1) h).bind fun r hr => .some hr

theorem skip_length : s.skip.rest.length ≤ s.rest.length := (skip_agree .start s).shorter _ rfl

/-- The places of a text are only compared with each other, so its tokens do not depend on where it
starts. -/
theorem run_lower (fuel : Nat) : run fuel (s.lower base) = run fuel s := by
  induction fuel generalizing s with
  | zero => rfl
  | succ fuel ih =>
    have hskip : (s.lower base).skip = s.skip.lower base := Option.some.inj (skip_agree base s).same
    rw [run, run, hskip]
    generalize s.skip = s
    have hrest : (s.lower base).rest = s.rest.map (Cell.lower base) := rfl
    cases hr : s.rest with
    | nil => rw [hrest, hr, List.map_nil]
    | cons c rest =>
      rw [hrest, hr, List.map_cons]
      dsimp only
      rw [show (c.lower base).mark = base.lower c.mark from rfl, dropStale_lower]
      cases s.dropStale c.mark with
      | none => rfl
      | some s =>
        simp only [Option.map_some, Option.bind_eq_bind, Option.bind_some]
        rw [show (c.lower base).column = c.column from rfl, dedent_lower]
        generalize s.dedent c.column = s
        refine ite_congr rfl (fun _ => ?_) fun _ => ?_
        · rw [dedent_lower, (giveUp_agree base _).same]
          cases (s.dedent (-1)).giveUp <;> rfl
        · rw [(readToken_agree base c s rest).same]
          cases s.readToken c rest with
          | none => rfl
          | some s => exact ih s

theorem run_of_nothing (h : s.skip.rest = []) (fuel : Nat) : run fuel s = none := by
  cases fuel with
  | zero => rfl
  | succ fuel => rw [run, h]

/-- Each token takes a cell, so as many tokens as there are cells are enough. -/
theorem run_fuel {n m : Nat} (hn : s.skip.rest.length ≤ n) (hm : s.skip.rest.length ≤ m) :
    run n s = run m s := by
  induction n generalizing m s with
  | zero =>
    have hs := List.eq_nil_of_length_eq_zero (Nat.le_zero.1 hn)
    rw [run_of_nothing s hs, run_of_nothing s hs]
  | succ n ih =>
    cases m with
    | zero =>
      have hs := List.eq_nil_of_length_eq_zero (Nat.le_zero.1 hm)
      rw [run_of_nothing s hs, run_of_nothing s hs]
    | succ m =>
      rw [run, run]
      generalize s.skip = u at hn hm
      cases hr : u.rest with
      | nil => rfl
      | cons c rest =>
        rw [hr, List.length_cons] at hn hm
        dsimp only
        refine bind_congr fun u => ite_congr rfl (fun _ => rfl) fun _ => ?_
        cases hv : (u.dedent c.column).readToken c rest with
        | none => rfl
        | some v =>
          -- the token took `c`, and the gap after it only makes the rest shorter
          have hread : v.rest.length ≤ rest.length := (readToken_agree .start c _ rest).shorter v hv
          have hskip := Nat.le_trans (skip_length v) hread
          exact ih v (by omega) (by omega)

end Scan

end Stencil.Yaml
