import Stencil.Proofs.Moved
import Stencil.Template.Parse

/-! Where tokens stand does not matter to their reader either. When their positions are moved, those
of the errors move with them, and the nodes are the same. -/
namespace Stencil.Template

variable (f : Pos → Pos)

inductive Moves {α : Type} {ts us : List Token} :
    Except ParseError (Parsed α ts) → Except ParseError (Parsed α us) → Prop where
  | error (e : ParseError) : Moves (.error e) (.error (e.moved f))
  | ok (v : α) (last : Pos) (rest : List Token) (h : rest.length < ts.length)
      (h' : (rest.map (Token.moved f)).length < us.length) :
      Moves (.ok ⟨v, last, rest, h⟩) (.ok ⟨v, f last, rest.map (Token.moved f), h'⟩)

variable {α : Type} {ts us : List Token}

theorem map_moved_cons (s : Symbol) (p : Pos) (ts : List Token) :
    (⟨s, p⟩ :: ts : List Token).map (Token.moved f) = ⟨s, f p⟩ :: ts.map (Token.moved f) := rfl

theorem expect_moves (s : Symbol) (last : Pos) (ts : List Token) :
    Moves f (expect s last ts) (expect s (f last) (ts.map (Token.moved f))) := by
  cases ts with
  | nil => exact .error _
  | cons t ts =>
    obtain ⟨a, p⟩ := t
    rw [map_moved_cons, expect, expect]
    by_cases hs : a = s
    · rw [if_pos hs, if_pos hs]
      exact .ok ..
    · rw [if_neg hs, if_neg hs]
      exact .error _

theorem close_moves (s : Symbol) (v : α) (last : Pos) (rest : List Token)
    (h : rest.length < ts.length) (h' : (rest.map (Token.moved f)).length < us.length) :
    Moves f (Parsed.close s ⟨v, last, rest, h⟩ : Except ParseError (Parsed α ts))
      (Parsed.close s ⟨v, f last, rest.map (Token.moved f), h'⟩ :
        Except ParseError (Parsed α us)) := by
  rw [Parsed.close, Parsed.close]
  exact (expect_moves f s last rest).casesOn (fun e => .error e) fun _ _ _ _ _ => .ok ..

theorem readArgs_moves (last : Pos) : ∀ ts : List Token,
    Moves f (readArgs last ts) (readArgs (f last) (ts.map (Token.moved f)))
  | [] => .error _
  | ⟨s, p⟩ :: us => by
    rw [map_moved_cons, readArgs, readArgs]
    cases literal? s with
    | none => exact .error _
    | some v =>
      rcases us with _ | ⟨⟨a, q⟩, vs⟩
      · exact close_moves ..
      · cases a with
        | comma =>
          dsimp only [map_moved_cons]
          exact (readArgs_moves q vs).casesOn (fun e => .error e) fun _ _ _ _ _ => .ok ..
        | _ => exact close_moves ..

theorem readArgList_moves (v : String) (last : Pos) (rest : List Token)
    (h : rest.length < ts.length) (h' : (rest.map (Token.moved f)).length < us.length) :
    Moves f (readArgList (⟨v, last, rest, h⟩ : Parsed String ts))
      (readArgList (⟨v, f last, rest.map (Token.moved f), h'⟩ : Parsed String us)) := by
  rcases rest with _ | ⟨⟨s, p⟩, vs⟩
  · exact .ok ..
  · cases s with
    | leftParen =>
      have ha := readArgs_moves f p vs
      rcases vs with _ | ⟨⟨a, q⟩, vs⟩
      · exact .error _
      · cases a with
        | rightParen => exact .ok ..
        | _ =>
          simp only [readArgList, map_moved_cons] at ha ⊢
          exact ha.casesOn (fun e => .error e) fun _ _ _ _ _ => .ok ..
    | _ => exact .ok ..

theorem readCall_moves (last : Pos) (ts : List Token) :
    Moves f (readCall last ts) (readCall (f last) (ts.map (Token.moved f))) := by
  rcases ts with _ | ⟨⟨s, p⟩, vs⟩
  · exact .error _
  · cases s with
    | word name =>
      rw [map_moved_cons, readCall, readCall]
      refine (readArgList_moves f name p vs _ _).casesOn (fun e => .error e) fun _ _ _ _ _ => ?_
      dsimp only
      split
      · exact .error ⟨_, p⟩
      · exact .ok ..
    | _ => exact .error _

theorem readAttribute_moves (last : Pos) (ts : List Token) :
    Moves f (readAttribute last ts) (readAttribute (f last) (ts.map (Token.moved f))) := by
  rcases ts with _ | ⟨⟨s, p⟩, vs⟩
  · exact .error _
  · cases s with
    | word name =>
      rcases vs with _ | ⟨⟨a, q⟩, vs⟩
      · exact .ok ..
      · cases a with
        | leftParen =>
          rw [map_moved_cons, map_moved_cons, readAttribute, readAttribute]
          refine (expect_moves f .rightParen q vs).casesOn (fun e => .error e) fun _ _ _ _ _ => ?_
          cases Method.ofName? name with
          | none => exact .error ⟨_, p⟩
          | some m => exact .ok ..
        | _ => exact .ok ..
    | keyword k => exact .ok ..
    | int n => exact .ok ..
    | _ => exact .error _

theorem readIndex_moves (last : Pos) (ts : List Token) :
    Moves f (readIndex last ts) (readIndex (f last) (ts.map (Token.moved f))) := by
  rcases ts with _ | ⟨⟨s, p⟩, vs⟩
  · exact .error _
  · cases s with
    | int n => exact close_moves ..
    | string key => exact close_moves ..
    | _ => exact .error _

theorem extendPath_moves : ∀ (v : Path) (last : Pos) (rest : List Token)
    (h : rest.length < ts.length) (h' : (rest.map (Token.moved f)).length < us.length),
    Moves f (extendPath (⟨v, last, rest, h⟩ : Parsed Path ts))
      (extendPath (⟨v, f last, rest.map (Token.moved f), h'⟩ : Parsed Path us))
  | _, _, [], _, _ => by
    rw [extendPath, extendPath]
    exact .ok ..
  | _, _, ⟨s, p⟩ :: vs, _, _ => by
    rw [extendPath, extendPath]
    cases s with
    | dot =>
      dsimp only [map_moved_cons]
      refine (readAttribute_moves f p vs).casesOn (fun e => .error e) fun _ _ more hlt _ => ?_
      exact extendPath_moves _ _ more _ _
    | leftBracket =>
      dsimp only [map_moved_cons]
      refine (readIndex_moves f p vs).casesOn (fun e => .error e) fun _ _ more hlt _ => ?_
      exact extendPath_moves _ _ more _ _
    | _ => exact .ok ..
termination_by _ _ rest => rest.length

theorem extendFilters_moves : ∀ (v : Expr) (last : Pos) (rest : List Token)
    (h : rest.length < ts.length) (h' : (rest.map (Token.moved f)).length < us.length),
    Moves f (extendFilters (⟨v, last, rest, h⟩ : Parsed Expr ts))
      (extendFilters (⟨v, f last, rest.map (Token.moved f), h'⟩ : Parsed Expr us))
  | _, _, [], _, _ => by
    rw [extendFilters, extendFilters]
    exact .ok ..
  | _, _, ⟨s, p⟩ :: vs, _, _ => by
    rw [extendFilters, extendFilters]
    cases s with
    | pipe =>
      dsimp only [map_moved_cons]
      refine (readCall_moves f p vs).casesOn (fun e => .error e) fun _ _ more hlt _ => ?_
      exact extendFilters_moves _ _ more _ _
    | _ => exact .ok ..
termination_by _ _ rest => rest.length

-- By recursion on the tokens that are left; on the same tokens each level calls the next one down.
mutual

theorem readExpr_moves (last : Pos) (ts : List Token) :
    Moves f (readExpr last ts) (readExpr (f last) (ts.map (Token.moved f))) := by
  rw [readExpr, readExpr]
  refine (readAnd_moves last ts).casesOn (fun e => .error e) fun v end_ rest hlt h' => ?_
  exact extendOr_moves v end_ rest hlt h'
termination_by (ts.length, 7)

theorem extendOr_moves {ts us : List Token} : ∀ (v : Expr) (last : Pos) (rest : List Token)
    (h : rest.length < ts.length) (h' : (rest.map (Token.moved f)).length < us.length),
    Moves f (extendOr (⟨v, last, rest, h⟩ : Parsed Expr ts))
      (extendOr (⟨v, f last, rest.map (Token.moved f), h'⟩ : Parsed Expr us))
  | _, _, [], _, _ => by
    rw [extendOr, extendOr]
    exact .ok ..
  | _, _, ⟨s, p⟩ :: vs, _, _ => by
    rw [extendOr, extendOr]
    cases s with
    | keyword k =>
      cases k with
      | or =>
        dsimp only [map_moved_cons]
        refine (readAnd_moves p vs).casesOn (fun e => .error e) fun _ _ more hlt _ => ?_
        exact extendOr_moves _ _ more _ _
      | _ => exact .ok ..
    | _ => exact .ok ..
termination_by _ _ rest => (rest.length, 6)

theorem readAnd_moves (last : Pos) (ts : List Token) :
    Moves f (readAnd last ts) (readAnd (f last) (ts.map (Token.moved f))) := by
  rw [readAnd, readAnd]
  refine (readNot_moves last ts).casesOn (fun e => .error e) fun v end_ rest hlt h' => ?_
  exact extendAnd_moves v end_ rest hlt h'
termination_by (ts.length, 5)

theorem extendAnd_moves {ts us : List Token} : ∀ (v : Expr) (last : Pos) (rest : List Token)
    (h : rest.length < ts.length) (h' : (rest.map (Token.moved f)).length < us.length),
    Moves f (extendAnd (⟨v, last, rest, h⟩ : Parsed Expr ts))
      (extendAnd (⟨v, f last, rest.map (Token.moved f), h'⟩ : Parsed Expr us))
  | _, _, [], _, _ => by
    rw [extendAnd, extendAnd]
    exact .ok ..
  | _, _, ⟨s, p⟩ :: vs, _, _ => by
    rw [extendAnd, extendAnd]
    cases s with
    | keyword k =>
      cases k with
      | and =>
        dsimp only [map_moved_cons]
        refine (readNot_moves p vs).casesOn (fun e => .error e) fun _ _ more hlt _ => ?_
        exact extendAnd_moves _ _ more _ _
      | _ => exact .ok ..
    | _ => exact .ok ..
termination_by _ _ rest => (rest.length, 4)

theorem readNot_moves (last : Pos) : ∀ ts : List Token,
    Moves f (readNot last ts) (readNot (f last) (ts.map (Token.moved f)))
  | [] => by
    rw [List.map_nil, readNot.eq_def, readNot.eq_def]
    exact readComparison_moves last []
  | ⟨s, p⟩ :: vs => by
    have hc := readComparison_moves last (⟨s, p⟩ :: vs)
    rw [map_moved_cons] at hc ⊢
    rw [readNot.eq_def, readNot.eq_def]
    cases s with
    | keyword k =>
      cases k with
      | not =>
        dsimp only
        exact (readNot_moves p vs).casesOn (fun e => .error e) fun _ _ _ _ _ => .ok ..
      | _ => exact hc
    | _ => exact hc
termination_by ts => (ts.length, 3)

theorem readComparison_moves (last : Pos) (ts : List Token) :
    Moves f (readComparison last ts) (readComparison (f last) (ts.map (Token.moved f))) := by
  rw [readComparison, readComparison]
  refine (readFiltered_moves last ts).casesOn (fun e => .error e) fun v end_ rest hlt h' => ?_
  dsimp only
  rcases rest with _ | ⟨⟨s, p⟩, vs⟩
  · exact .ok ..
  · have hr : vs.length < ts.length := Nat.lt_of_succ_lt hlt
    cases s with
    | compare op =>
      dsimp only [map_moved_cons]
      exact (readFiltered_moves p vs).casesOn (fun e => .error e) fun _ _ _ _ _ => .ok ..
    | keyword k =>
      cases k with
      | in_ =>
        dsimp only [map_moved_cons]
        exact (readFiltered_moves p vs).casesOn (fun e => .error e) fun _ _ _ _ _ => .ok ..
      | not =>
        dsimp only [map_moved_cons]
        refine (expect_moves f (.keyword .in_) p vs).casesOn (fun e => .error e)
          fun _ q more hlt _ => ?_
        dsimp only
        exact (readFiltered_moves q more).casesOn (fun e => .error e) fun _ _ _ _ _ => .ok ..
      | _ => exact .ok ..
    | _ => exact .ok ..
termination_by (ts.length, 2)

theorem readFiltered_moves (last : Pos) (ts : List Token) :
    Moves f (readFiltered last ts) (readFiltered (f last) (ts.map (Token.moved f))) := by
  rw [readFiltered, readFiltered]
  refine (readPrimary_moves last ts).casesOn (fun e => .error e) fun v end_ rest hlt h' => ?_
  exact extendFilters_moves f v end_ rest hlt h'
termination_by (ts.length, 1)

theorem readPrimary_moves (last : Pos) : ∀ ts : List Token,
    Moves f (readPrimary last ts) (readPrimary (f last) (ts.map (Token.moved f)))
  | [] => by
    rw [List.map_nil, readPrimary.eq_def, readPrimary.eq_def]
    exact .error _
  | ⟨s, p⟩ :: vs => by
    rw [map_moved_cons, readPrimary.eq_def, readPrimary.eq_def]
    cases s with
    | leftParen =>
      dsimp only
      exact (readExpr_moves p vs).casesOn (fun e => .error e) fun _ _ _ _ _ => close_moves ..
    | word name =>
      dsimp only
      exact (extendPath_moves f ⟨name, []⟩ p vs _ _).casesOn (fun e => .error e)
        fun _ _ _ _ _ => .ok ..
    | _ =>
      dsimp only
      generalize literal? _ = v
      cases v with
      | none => exact .error _
      | some v => exact .ok ..
termination_by ts => (ts.length, 0)

end

theorem readNames_moves (last : Pos) : ∀ ts : List Token,
    Moves f (readNames last ts) (readNames (f last) (ts.map (Token.moved f)))
  | [] => .error _
  | ⟨s, p⟩ :: vs => by
    cases s with
    | word name =>
      rcases vs with _ | ⟨⟨a, q⟩, vs⟩
      · exact .ok ..
      · cases a with
        | comma =>
          rw [map_moved_cons, map_moved_cons, readNames, readNames]
          exact (readNames_moves q vs).casesOn (fun e => .error e) fun _ _ _ _ _ => .ok ..
        | _ => exact .ok ..
    | _ => exact .error _

theorem readCondition_moves (last : Pos) (ts : List Token) :
    Moves f (readCondition last ts) (readCondition (f last) (ts.map (Token.moved f))) := by
  rw [readCondition, readCondition]
  exact (readExpr_moves f last ts).casesOn (fun e => .error e) fun _ _ _ _ _ => close_moves ..

theorem readLoop_moves (last : Pos) (ts : List Token) :
    Moves f (readLoop last ts) (readLoop (f last) (ts.map (Token.moved f))) := by
  rw [readLoop, readLoop]
  refine (readNames_moves f last ts).casesOn (fun e => .error e) fun names p rest h h' => ?_
  dsimp only
  refine (close_moves f (.keyword .in_) names p rest h h').casesOn (fun e => .error e)
    fun names p rest _ _ => ?_
  dsimp only
  exact (readCondition_moves f p rest).casesOn (fun e => .error e) fun _ _ _ _ _ => .ok ..

theorem readOutput_moves (last : Pos) (ts : List Token) :
    Moves f (readOutput last ts) (readOutput (f last) (ts.map (Token.moved f))) := by
  rw [readOutput, readOutput]
  refine (readExpr_moves f last ts).casesOn (fun e => .error e) fun v end_ rest h h' => ?_
  dsimp only
  rcases rest with _ | ⟨⟨s, p⟩, vs⟩
  · exact close_moves ..
  · cases s with
    | thousands => exact close_moves ..
    | _ => exact close_moves ..

def Frame.moved : Frame → Frame
  | .loopBody pos target iterable => .loopBody (f pos) target iterable
  | .loopEmpty pos target iterable body => .loopEmpty (f pos) target iterable body
  | .condBody pos branches condition => .condBody (f pos) branches condition
  | .condElse pos branches => .condElse (f pos) branches

def movedStack (stack : Stack) : Stack := stack.map fun e => (e.1.moved f, e.2)

def movedProgress (progress : Progress) : Progress := (movedStack f progress.1, progress.2)

theorem endTag_moves (progress : Progress) (last : Pos) (ts : List Token) :
    Moves f ((endTag progress last ts).map (Parsed.map (movedProgress f)))
      (endTag (movedProgress f progress) (f last) (ts.map (Token.moved f))) := by
  rw [endTag, endTag]
  exact (expect_moves f (.closing .block) last ts).casesOn (fun e => .error e)
    fun _ _ _ _ _ => .ok ..

/-- A block tag that is moved opens its blocks where it stands. -/
theorem readBlock_moves (stack : Stack) (done : List Node) (k : Keyword) (p : Pos)
    (ts : List Token) :
    Moves f ((readBlock stack done k p ts).map (Parsed.map (movedProgress f)))
      (readBlock (movedStack f stack) done k (f p) (ts.map (Token.moved f))) := by
  cases k with
  | for_ =>
    rw [readBlock, readBlock]
    exact (readLoop_moves f p ts).casesOn (fun e => .error e) fun _ _ _ _ _ => .ok ..
  | if_ =>
    rw [readBlock, readBlock]
    exact (readCondition_moves f p ts).casesOn (fun e => .error e) fun _ _ _ _ _ => .ok ..
  | elif =>
    rcases stack with _ | ⟨⟨frame, before⟩, outer⟩
    · exact .error ⟨_, p⟩
    · cases frame with
      | condBody at_ branches condition =>
        simp only [movedStack, List.map_cons, Frame.moved, readBlock]
        exact (readCondition_moves f p ts).casesOn (fun e => .error e) fun _ _ _ _ _ => .ok ..
      | _ => exact .error ⟨_, p⟩
  | else_ | endfor | endif =>
    rcases stack with _ | ⟨⟨frame, before⟩, outer⟩
    · exact .error ⟨_, p⟩
    · cases frame <;> first | exact endTag_moves f _ p ts | exact .error ⟨_, p⟩
  | _ => cases stack <;> exact .error ⟨_, p⟩

/-- Nodes have no places, so that only errors move with the tokens. -/
theorem readNodes_moved (stack : Stack) (done : List Node) (ts : List Token) :
    readNodes (movedStack f stack) done (ts.map (Token.moved f)) =
      movedBy f id (readNodes stack done ts) := by
  match ts with
  | [] =>
    rcases stack with _ | ⟨⟨frame, before⟩, outer⟩
    · simp [movedStack, readNodes, movedBy]
    · cases frame <;>
        simp [movedStack, readNodes, movedBy, Frame.moved, Frame.block, Frame.pos, ParseError.moved]
  | ⟨s, p⟩ :: us =>
    rw [map_moved_cons]
    cases s with
    | text s =>
      rw [readNodes, readNodes]
      exact readNodes_moved stack _ us
    | opening tag =>
      cases tag with
      | output =>
        rw [readNodes, readNodes]
        refine (readOutput_moves f p us).casesOn (fun e => rfl) fun _ _ rest hlt _ => ?_
        exact readNodes_moved stack _ rest
      | block =>
        rcases us with _ | ⟨⟨a, q⟩, us⟩
        · simp [readNodes, movedBy, expected, ParseError.moved]
        · rw [map_moved_cons]
          cases a with
          | keyword k =>
            have hb := readBlock_moves f stack done k q us
            rw [readNodes, readNodes]
            generalize
              readBlock (movedStack f stack) done k (f q) (us.map (Token.moved f)) = y at hb
            cases hx : readBlock stack done k q us with
            | error e =>
              rw [hx] at hb
              cases hb
              rfl
            | ok r =>
              rw [hx] at hb
              obtain ⟨⟨stack', done'⟩, last, rest, hlt⟩ := r
              simp only [Except.map, Parsed.map, movedProgress] at hb
              cases hb
              exact readNodes_moved stack' done' rest
          | _ => simp [readNodes, movedBy, ParseError.moved]
    | _ => simp [readNodes, movedBy, ParseError.moved]
termination_by ts.length

theorem parse_moved (ts : List Token) :
    parse (ts.map (Token.moved f)) = movedBy f id (parse ts) := readNodes_moved f [] [] ts

end Stencil.Template
