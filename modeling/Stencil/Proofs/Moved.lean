import Stencil.Proofs.LineRule

/-! Where a text stands does not matter to its reader. When the positions of all characters are
moved, those of the tokens and errors move with them, and nothing else changes. -/
namespace Stencil.Template

variable (f : Pos → Pos)

abbrev Glyph.moved (g : Glyph) : Glyph := ⟨g.char, f g.pos⟩

def Token.moved (t : Token) : Token := ⟨t.symbol, f t.pos⟩

def ParseError.moved (e : ParseError) : ParseError := ⟨e.cause, f e.pos⟩

def Piece.moved : Piece → Piece
  | .text gs => .text (gs.map (Glyph.moved f))
  | .tag kind tokens => .tag kind (tokens.map (Token.moved f))
  | .comment => .comment

def movedBy {α : Type} (m : α → α) : Except ParseError α → Except ParseError α
  | .error e => .error (e.moved f)
  | .ok a => .ok (m a)

@[simp] theorem Glyph.moved_char (g : Glyph) : (g.moved f).char = g.char := rfl

@[simp] theorem Glyph.moved_pos (g : Glyph) : (g.moved f).pos = f g.pos := rfl

theorem Glyph.char_comp_moved : Glyph.char ∘ Glyph.moved f = Glyph.char := rfl

variable (gs : List Glyph)

@[simp] theorem map_char_moved : (gs.map (Glyph.moved f)).map Glyph.char = gs.map Glyph.char := by
  rw [List.map_map, Glyph.char_comp_moved]

@[simp] theorem textOf_moved : textOf (gs.map (Glyph.moved f)) = textOf gs := by
  rw [textOf, textOf, map_char_moved]

variable {f gs} in
/-- A part that is chosen by its characters moves with the whole. -/
theorem dropWhile_moved {p : Glyph → Bool} (hp : ∀ g, p (g.moved f) = p g) :
    (gs.map (Glyph.moved f)).dropWhile p = (gs.dropWhile p).map (Glyph.moved f) := by
  rw [List.dropWhile_map]
  exact congrArg (fun q => (gs.dropWhile q).map (Glyph.moved f)) (funext hp)

variable {f gs} in
theorem takeWhile_moved {p : Glyph → Bool} (hp : ∀ g, p (g.moved f) = p g) :
    (gs.map (Glyph.moved f)).takeWhile p = (gs.takeWhile p).map (Glyph.moved f) := by
  rw [List.takeWhile_map]
  exact congrArg (fun q => (gs.takeWhile q).map (Glyph.moved f)) (funext hp)

@[simp] theorem skipSpaces_moved :
    skipSpaces (gs.map (Glyph.moved f)) = (skipSpaces gs).map (Glyph.moved f) :=
  dropWhile_moved fun _ => rfl

@[simp] theorem startsWith_moved (c : Char) :
    startsWith c (gs.map (Glyph.moved f)) = startsWith c gs := by
  cases gs <;> rfl

abbrev moveRest {α : Type} : α × List Glyph → α × List Glyph :=
  Prod.map id (List.map (Glyph.moved f))

theorem readQuoted_moved (quote : Char) :
    readQuoted quote (gs.map (Glyph.moved f)) = (readQuoted quote gs).map (moveRest f) := by
  fun_induction readQuoted quote gs with
  | case1 => rfl
  | case2 g gs hq => simp [readQuoted.eq_def, hq]
  | case3 g hn hs =>
    rw [hs] at hn
    simp [readQuoted, hn, hs]
  | case4 g hn hs e rest ih =>
    rw [hs] at hn
    simp [readQuoted, hn, hs, ih, Function.comp_def]
  | case5 g gs hn hs ih =>
    rw [List.map_cons, readQuoted.eq_def]
    simp [hn, hs, ih, Function.comp_def]

theorem readNumber_moved (afterDot negative : Bool) :
    readNumber afterDot negative (gs.map (Glyph.moved f)) =
      (readNumber afterDot negative gs).map (moveRest f) := by
  have hd (gs : List Glyph) : (gs.map (Glyph.moved f)).dropWhile Glyph.isDigit =
    (gs.dropWhile Glyph.isDigit).map (Glyph.moved f) := dropWhile_moved fun _ => rfl
  have ht (gs : List Glyph) : (gs.map (Glyph.moved f)).takeWhile Glyph.isDigit =
    (gs.takeWhile Glyph.isDigit).map (Glyph.moved f) := takeWhile_moved fun _ => rfl
  rw [readNumber, readNumber, hd, ht]
  simp only [map_char_moved]
  generalize (gs.takeWhile Glyph.isDigit).map Glyph.char = digits
  match gs.dropWhile Glyph.isDigit with
  | [] | [_] => cases Value.ofDigits? negative digits <;> rfl
  | p :: d :: more =>
    have hi : (d.moved f).isDigit = d.isDigit := rfl
    simp only [List.map_cons, hi]
    split
    · rw [← List.map_cons, ht, hd, map_char_moved]
      rfl
    · cases Value.ofDigits? negative digits <;> rfl

theorem readWord_moved :
    readWord (gs.map (Glyph.moved f)) = moveRest f (readWord gs) := by
  rw [readWord, readWord, takeWhile_moved fun _ => rfl, dropWhile_moved fun _ => rfl]
  simp only [textOf_moved]
  rfl

theorem readThousands_moved :
    readThousands (gs.map (Glyph.moved f)) = (readThousands gs).map (moveRest f) := by
  rw [readThousands, readThousands, skipSpaces_moved]
  cases skipSpaces gs with
  | nil => rfl
  | cons g rest =>
    simp only [List.map_cons]
    split <;> rfl

theorem readSign_moved (c : Char) :
    readSign c (gs.map (Glyph.moved f)) = (readSign c gs).map (moveRest f) := by
  unfold readSign
  split
  case h_5 => exact readThousands_moved f gs
  all_goals first
    | rfl
    | rw [startsWith_moved, ← List.map_tail]
      split <;> rfl

theorem head?_moved : (gs.map (Glyph.moved f)).head?.any Glyph.isDigit =
    gs.head?.any Glyph.isDigit := by
  cases gs <;> rfl

theorem readSymbol_moved (afterDot : Bool) (g : Glyph) :
    readSymbol afterDot (g.moved f) (gs.map (Glyph.moved f)) =
      (readSymbol afterDot g gs).map (moveRest f) := by
  have hd : (g.moved f).isDigit = g.isDigit := rfl
  have hw : (g.moved f).startsWord = g.startsWord := rfl
  rw [readSymbol, readSymbol, hd, hw, head?_moved, Glyph.moved_char, ← List.map_cons,
    readNumber_moved, readNumber_moved, readWord_moved, readSign_moved, readQuoted_moved]
  split
  · cases readQuoted g.char gs <;> rfl
  split
  · rfl
  split
  · rfl
  split <;> rfl

theorem closesAt_moved (tag : Tag) (g : Glyph) :
    tag.closesAt (g.moved f) (gs.map (Glyph.moved f)) = tag.closesAt g gs := by
  cases tag <;> simp [Tag.closesAt]

/-- One step of the reader of a tag. -/
theorem readTag_eq (tag : Tag) (opener : Pos) (afterDot : Bool) :
    readTag tag opener afterDot gs =
      match skipSpaces gs with
      | [] => .error ⟨.unterminatedTag tag, opener⟩
      | g :: rest =>
        if tag.closesAt g rest then .ok ([⟨.closing tag, g.pos⟩], rest.tail)
        else
          match readSymbol afterDot g rest with
          | .error cause => .error ⟨cause, g.pos⟩
          | .ok (s, more) =>
            match readTag tag opener (s = .dot) more with
            | .error e => .error e
            | .ok (tokens, rest) => .ok (⟨s, g.pos⟩ :: tokens, rest) := by
  rw [readTag]
  split
  · rename_i hs
    rw [hs]
  · rename_i hs
    split
    · rename_i hc
      rw [hs]
      exact (if_pos hc).symm
    · rename_i hc
      dsimp only
      split
      · rename_i he
        rw [hs]
        dsimp only
        rw [if_neg hc, he]
      · rename_i hm
        rw [hs]
        dsimp only
        rewrite [if_neg hc, hm]
        rfl

theorem readTag_moved (tag : Tag) (opener : Pos) (afterDot : Bool) :
    readTag tag (f opener) afterDot (gs.map (Glyph.moved f)) =
      movedBy f (Prod.map (List.map (Token.moved f)) (List.map (Glyph.moved f)))
        (readTag tag opener afterDot gs) := by
  fun_induction readTag tag opener afterDot gs with
  | case1 dot gs hs =>
    rw [readTag_eq, skipSpaces_moved, hs]
    rfl
  | case2 dot gs g r hs hc =>
    rw [readTag_eq, skipSpaces_moved, hs, List.map_cons]
    dsimp only
    rw [closesAt_moved, if_pos hc, ← List.map_tail]
    rfl
  | case3 dot gs g r hs hc cause he =>
    rw [readTag_eq, skipSpaces_moved, hs, List.map_cons]
    dsimp only
    rw [closesAt_moved, if_neg hc, readSymbol_moved, he]
    rfl
  | case4 dot gs g r hs hc s more hm _ e he ih =>
    rw [readTag_eq, skipSpaces_moved, hs, List.map_cons]
    dsimp only
    rw [closesAt_moved, if_neg hc, readSymbol_moved, hm]
    simp only [Except.map, Prod.map, id, ih, he]
    rfl
  | case5 dot gs g r hs hc s more hm _ tokens' rest' hr ih =>
    rw [readTag_eq, skipSpaces_moved, hs, List.map_cons]
    dsimp only
    rw [closesAt_moved, if_neg hc, readSymbol_moved, hm]
    simp only [Except.map, Prod.map, id, ih, hr]
    rfl

theorem splitOpener_moved : splitOpener (gs.map (Glyph.moved f)) =
    Prod.map (List.map (Glyph.moved f)) (List.map (Glyph.moved f)) (splitOpener gs) := by
  have ho (gs : List Glyph) : (gs.map (Glyph.moved f)).head?.any (opensTag ·.char) =
      gs.head?.any (opensTag ·.char) := by
    cases gs <;> rfl
  induction gs with
  | nil => rfl
  | cons g gs ih =>
    rw [List.map_cons, splitOpener, splitOpener, ih, ho, Glyph.moved_char]
    split <;> rfl

theorem dropComment_moved :
    dropComment (gs.map (Glyph.moved f)) = (dropComment gs).map (List.map (Glyph.moved f)) := by
  induction gs with
  | nil => rfl
  | cons g gs ih =>
    rw [List.map_cons, dropComment, dropComment, ih, startsWith_moved, Glyph.moved_char]
    split
    · rw [← List.map_tail]
      rfl
    · rfl

theorem readOpened_moved (g k : Glyph) :
    readOpened (g.moved f) (k.moved f) (gs.map (Glyph.moved f)) =
      movedBy f (Prod.map (Piece.moved f) (List.map (Glyph.moved f))) (readOpened g k gs) := by
  rw [readOpened, readOpened, Glyph.moved_char, Glyph.moved_pos, ← List.map_cons, dropComment_moved]
  split
  · cases dropComment (k :: gs) <;> rfl
  · simp only [readTag_moved]
    cases readTag _ g.pos false gs <;> rfl

theorem shown_moved (ps : List Piece) :
    shown (ps.map (Piece.moved f)) = (shown ps).map (Piece.moved f) := by
  have hp (p : Piece) : decide (p.moved f ≠ .text []) = decide (p ≠ .text []) := by
    cases p with
    | text gs => cases gs <;> rfl
    | _ => rfl
  rw [shown, List.filter_map]
  exact congrArg (fun q => (ps.filter q).map (Piece.moved f)) (funext hp)

/-- A source is one text, or a text with a tag after it. -/
theorem pieces_cases :
    (∃ text, splitOpener gs = (text, []) ∧ pieces gs = .ok (shown [.text text])) ∨
      ∃ text g k rest, splitOpener gs = (text, g :: k :: rest) ∧
        pieces gs = (readOpened g k rest).bind fun r =>
          (pieces r.2).map (shown [.text text] ++ r.1 :: ·) := by
  obtain ⟨_, _, hr | ho⟩ := splitOpener_divides gs
  · have hs : splitOpener gs = ((splitOpener gs).1, []) := Prod.ext rfl hr
    exact .inl ⟨_, hs, pieces_last hs⟩
  · obtain ⟨g, k, rest, hr⟩ := opens_two ho
    have hs : splitOpener gs = ((splitOpener gs).1, g :: k :: rest) := Prod.ext rfl hr
    exact .inr ⟨_, g, k, rest, hs, pieces_opened hs⟩

theorem pieces_moved (gs : List Glyph) :
    pieces (gs.map (Glyph.moved f)) = movedBy f (List.map (Piece.moved f)) (pieces gs) := by
  have hs := splitOpener_moved f gs
  have ht (text : List Glyph) := shown_moved f [.text text]
  rcases pieces_cases gs with ⟨text, hg, hp⟩ | ⟨text, g, k, rest, hg, hp⟩
  · rw [hg] at hs
    rw [hp, pieces_last hs]
    exact congrArg Except.ok (ht text)
  · rw [hg] at hs
    rw [hp, pieces_opened hs, readOpened_moved]
    cases hr : readOpened g k rest with
    | error e => rfl
    | ok r =>
      have hl : r.2.length < gs.length := by
        have hle := splitOpener_length gs
        rw [hg] at hle
        exact Nat.lt_of_lt_of_le (readOpened_length hr) hle
      simp only [movedBy, Except.bind, Prod.map]
      rw [pieces_moved r.2]
      cases pieces r.2 with
      | error e => rfl
      | ok ps =>
        have hm : (shown [.text text] ++ r.1 :: ps).map (Piece.moved f) =
            shown [.text (text.map (Glyph.moved f))] ++ r.1.moved f :: ps.map (Piece.moved f) := by
          rw [List.map_append, ← ht]
          rfl
        exact congrArg Except.ok hm.symm
termination_by gs.length

theorem any_isLineFeed_moved :
    (gs.map (Glyph.moved f)).any isLineFeed = gs.any isLineFeed := by
  rw [List.any_map]
  rfl

theorem all_moved {p : Glyph → Bool} (hp : ∀ g, p (g.moved f) = p g) :
    (gs.map (Glyph.moved f)).all p = gs.all p := by
  rw [List.all_map]
  exact congrArg gs.all (funext hp)

theorem lastLine_moved : lastLine (gs.map (Glyph.moved f)) = (lastLine gs).map (Glyph.moved f) := by
  rw [lastLine, lastLine, ← List.map_reverse, takeWhile_moved fun _ => rfl, ← List.map_reverse]

theorem fullLines_moved :
    fullLines (gs.map (Glyph.moved f)) = (fullLines gs).map (Glyph.moved f) := by
  rw [fullLines, fullLines, ← List.map_reverse, dropWhile_moved fun _ => rfl, ← List.map_reverse]

theorem lineLength_moved : lineLength (gs.map (Glyph.moved f)) = lineLength gs := by
  rw [lineLength, lineLength, takeWhile_moved fun _ => rfl, List.length_map]

theorem trimLine_moved (final : Bool) :
    trimLine final (gs.map (Glyph.moved f)) = (trimLine final gs).map (Glyph.moved f) := by
  rw [trimLine, trimLine, splitLine_eq, splitLine_eq, lineLength_moved, any_isLineFeed_moved,
    ← List.map_take, ← List.map_drop, all_moved f _ fun _ => rfl]
  split <;> rfl

theorem stripIndent_moved (clean : Bool) :
    stripIndent clean (gs.map (Glyph.moved f)) = (stripIndent clean gs).map (Glyph.moved f) := by
  rw [stripIndent, stripIndent, lastLine_moved, fullLines_moved, any_isLineFeed_moved,
    all_moved f _ fun _ => rfl]
  split <;> rfl

theorem dirties_moved (dirty : Bool) :
    dirties dirty (gs.map (Glyph.moved f)) = dirties dirty gs := by
  rw [dirties, dirties, lastLine_moved, any_isLineFeed_moved, all_moved f _ fun _ => rfl]

theorem textTokens_moved :
    textTokens (gs.map (Glyph.moved f)) = (textTokens gs).map (Token.moved f) := by
  cases gs with
  | nil => rfl
  | cons g gs =>
    rw [List.map_cons, textTokens, textTokens, ← List.map_cons, textOf_moved]
    rfl

theorem startsBlock_moved (ps : List Piece) :
    startsBlock (ps.map (Piece.moved f)) = startsBlock ps := by
  cases ps with
  | nil => rfl
  | cons p ps =>
    cases p with
    | text | comment => rfl
    | tag tag => cases tag <;> rfl

theorem settle_moved (o : Options) (dirty afterBlock : Bool) (ps : List Piece) :
    settle o dirty afterBlock (ps.map (Piece.moved f)) =
      (settle o dirty afterBlock ps).map (Token.moved f) := by
  induction ps generalizing dirty afterBlock with
  | nil => rfl
  | cons p ps ih =>
    cases p with
    | comment => exact ih dirty true
    | tag tag tokens =>
      cases tag with
      | output => simp [Piece.moved, settle, ih]
      | block => simp [Piece.moved, settle, ih]
    | text gs =>
      have ht : (if o.trim && afterBlock && !dirty then
            trimLine (ps.map (Piece.moved f)).isEmpty (gs.map (Glyph.moved f))
          else gs.map (Glyph.moved f)) =
          (if o.trim && afterBlock && !dirty then trimLine ps.isEmpty gs else gs).map
            (Glyph.moved f) := by
        rw [trimLine_moved, List.isEmpty_map]
        split <;> rfl
      have hs (gs : List Glyph) : (if o.lstrip && startsBlock ps then
            stripIndent (!dirty) (gs.map (Glyph.moved f)) else gs.map (Glyph.moved f)) =
          (if o.lstrip && startsBlock ps then stripIndent (!dirty) gs else gs).map
            (Glyph.moved f) := by
        rw [stripIndent_moved]
        split <;> rfl
      rw [List.map_cons, Piece.moved, settle, settle, startsBlock_moved, ht, hs,
        textTokens_moved, dirties_moved, ih, List.map_append]

def tokensOf (o : Options) (gs : List Glyph) : Except ParseError (List Token) :=
  (pieces gs).map (settle o false false)

theorem tokenize_eq (o : Options) (source : String) :
    tokenize o source = tokensOf o (glyphs source) := by
  rw [tokenize, tokensOf]
  cases pieces (glyphs source) <;> rfl

theorem tokensOf_moved (o : Options) :
    tokensOf o (gs.map (Glyph.moved f)) = movedBy f (List.map (Token.moved f)) (tokensOf o gs) := by
  rw [tokensOf, tokensOf, pieces_moved]
  cases pieces gs with
  | error e => rfl
  | ok ps => exact congrArg Except.ok (settle_moved f o false false ps)

end Stencil.Template
