import Stencil.Proofs.Spelling

/-! Where the tokens of a source stand. The position of a token counts the lines and characters
before its own first character, whatever comments, strings and dropped white space these are, and
no token reaches into the next. -/
namespace Stencil.Template

def placeAfter (before : List Char) : Pos :=
  ⟨1 + before.count '\n', 1 + (before.rtakeWhile (· ≠ '\n')).length⟩

/-- The text after `before` consists of lexemes of the tokens, each where its token stands, with
white space and comments between them. -/
inductive Placed : List Char → List Token → List Char → Prop where
  | nil {before gap} : Skipped gap → Placed before [] gap
  | token {before gap lexeme rest s ts} : Skipped gap → Spelling s lexeme →
      Placed (before ++ gap ++ lexeme) ts rest →
      Placed before (⟨s, placeAfter (before ++ gap)⟩ :: ts) (gap ++ (lexeme ++ rest))

variable {gs xs ys : List Glyph} {ts : List Token} {t : Token}

theorem placeAfter_concat (cs : List Char) (c : Char) :
    (placeAfter cs).after c = placeAfter (cs ++ [c]) := by
  rw [placeAfter, placeAfter, Pos.after, List.count_append, List.rtakeWhile_concat]
  by_cases hc : c = '\n'
  · subst hc
    rfl
  · simp [hc, Nat.add_assoc]

/-- Counting character by character gives the position that the whole text before it says. -/
theorem foldl_after_placeAfter (before cs : List Char) :
    cs.foldl Pos.after (placeAfter before) = placeAfter (before ++ cs) := by
  induction cs generalizing before with
  | nil => rw [List.append_nil, List.foldl_nil]
  | cons c cs ih =>
    rw [List.foldl_cons, placeAfter_concat, ih, List.append_assoc, List.singleton_append]

theorem locate_eq_append {p : Pos} {cs : List Char} (h : locate p cs = xs ++ ys) :
    cs = xs.map Glyph.char ++ ys.map Glyph.char ∧
      ys = locate ((xs.map Glyph.char).foldl Pos.after p) (ys.map Glyph.char) := by
  have hc := congrArg (List.map Glyph.char) h
  rw [map_char_locate, List.map_append] at hc
  refine ⟨hc, ?_⟩
  rw [hc, locate_append] at h
  exact (List.append_inj_right h (by rw [length_locate, List.length_map])).symm

theorem pos_of_locate {p : Pos} {cs : List Char} {g : Glyph} (h : locate p cs = g :: gs) :
    g.pos = p := by
  cases cs with
  | nil => cases h
  | cons c cs => exact (congrArg Glyph.pos (List.cons.inj h).1).symm

/-- In a source the characters that spell a token start at its position. -/
theorem Spells.placed (h : Spells gs ts) {before cs : List Char}
    (hl : locate (placeAfter before) cs = gs) : Placed before ts cs := by
  -- on the lexemes in their order: what was read so far is the text that positions are counted by
  induction h generalizing before cs with
  | nil hg =>
    rw [← hl, map_char_locate] at hg
    exact .nil hg
  | @token gap lexeme rest g s ts hg hs hr ih =>
    obtain ⟨rfl, hy⟩ := locate_eq_append hl
    obtain ⟨-, hr⟩ := locate_eq_append hy.symm
    rw [foldl_after_placeAfter] at hy hr
    rw [foldl_after_placeAfter] at hr
    have hp : g.pos = placeAfter (before ++ gap.map Glyph.char) := pos_of_locate hy.symm
    rw [hp, List.map_append]
    exact .token hg hs (ih hr.symm)

/-- Tokens stand where their lexemes start, in the order of the characters. -/
theorem Spells.positions (h : Spells gs ts) :
    (ts.map Token.pos).Sublist (gs.map Glyph.pos) := by
  induction h with
  | nil => exact List.nil_sublist _
  | @token gap lexeme rest g s ts hg hs hr ih =>
    rw [List.map_append, List.map_append, List.map_cons, List.map_cons]
    refine List.Sublist.trans ?_ (List.sublist_append_right _ _)
    rw [List.cons_append]
    exact .cons_cons _ (ih.trans (List.sublist_append_right _ _))

theorem tokenize_spelled {o : Options} {source : String} (h : tokenize o source = .ok ts) :
    Spells (glyphs source) ts := by
  obtain ⟨ps, hl, -⟩ := tokenize_layout h
  cases h.symm.trans (tokenize_of_layout o hl)
  exact hl.spelled o []

/-- The lexeme of one of the tokens starts at its position. -/
theorem Placed.lexeme {before text : List Char} (h : Placed before ts text) (ht : t ∈ ts) :
    ∃ xs lexeme ys, text = xs ++ (lexeme ++ ys) ∧ Spelling t.symbol lexeme ∧
      t.pos = placeAfter (before ++ xs) := by
  induction h with
  | nil => cases ht
  | @token before gap lexeme rest s ts hg hs _ ih =>
    rcases List.mem_cons.1 ht with rfl | ht
    · exact ⟨gap, lexeme, rest, rfl, hs, rfl⟩
    · obtain ⟨xs, next, ys, rfl, hn, hp⟩ := ih ht
      refine ⟨gap ++ lexeme ++ xs, next, ys, by simp, hn, ?_⟩
      rw [hp]
      simp

/-- The tokens of a source stand at the first characters of their lexemes, which do not overlap, and
between these there are only white space and comments. -/
theorem tokens_placed {o : Options} {source : String} (h : tokenize o source = .ok ts) :
    Placed [] ts source.toList ∧ ts.Pairwise fun t u => t.pos.precedes u.pos := by
  have hs := tokenize_spelled h
  constructor
  · exact hs.placed rfl
  · have hp := List.pairwise_map.2 (locate_pairwise Pos.start source.toList)
    exact List.pairwise_map.1 (hp.sublist hs.positions)

/-- Dropped indentation, a comment and a tag of two lines each, and a letter of two bytes. -/
theorem tokens_placed_lines :
    let source := " \x7b# é\n#\x7d\n\x7b\x7b\n'é' \x7d\x7d"
    let ts : List Token :=
      [⟨.opening .output, ⟨3, 1⟩⟩, ⟨.string "é", ⟨4, 1⟩⟩, ⟨.closing .output, ⟨4, 5⟩⟩]
    tokenize ⟨true, true⟩ source = .ok ts ∧
    Placed [] ts source.toList ∧ ts.Pairwise fun t u => t.pos.precedes u.pos := by
  intro source ts
  let tag : List Glyph := [⟨'\n', ⟨3, 3⟩⟩, ⟨'\'', ⟨4, 1⟩⟩, ⟨'é', ⟨4, 2⟩⟩, ⟨'\'', ⟨4, 3⟩⟩,
    ⟨' ', ⟨4, 4⟩⟩, ⟨'\x7d', ⟨4, 5⟩⟩, ⟨'\x7d', ⟨4, 6⟩⟩]
  have hstring : readSymbol false ⟨'\'', ⟨4, 1⟩⟩ (tag.drop 2) =
      .ok (.string "é", tag.drop 4) := by rfl
  have hread : readTag .output ⟨3, 1⟩ false (tag ++ []) = .ok (ts.tail, []) := by
    have hs : skipSpaces (tag ++ []) = ⟨'\'', ⟨4, 1⟩⟩ :: tag.drop 2 := by rfl
    have hc : skipSpaces (tag.drop 4) = ⟨'\x7d', ⟨4, 5⟩⟩ :: tag.drop 6 := by rfl
    exact readTag_symbol _ hs rfl hstring (readTag_close _ hc rfl)
  have hopened : readOpened ⟨'\x7b', ⟨3, 1⟩⟩ ⟨'\x7b', ⟨3, 2⟩⟩ (tag ++ []) =
      .ok (.tag .output ts, []) := by
    rw [readOpened, if_neg (by decide)]
    simp only [Char.reduceEq, if_false, hread]
    rfl
  let comment : List Glyph := [⟨' ', ⟨1, 4⟩⟩, ⟨'é', ⟨1, 5⟩⟩, ⟨'\n', ⟨1, 6⟩⟩, ⟨'#', ⟨2, 1⟩⟩,
    ⟨'\x7d', ⟨2, 2⟩⟩]
  let rest : List Glyph := [⟨'\n', ⟨2, 3⟩⟩] ++ (⟨'\x7b', ⟨3, 1⟩⟩ :: ⟨'\x7b', ⟨3, 2⟩⟩ :: tag ++ [])
  have hcomment : readOpened ⟨'\x7b', ⟨1, 2⟩⟩ ⟨'#', ⟨1, 3⟩⟩ (comment ++ rest) =
      .ok (.comment, rest) := by rfl
  have hg : glyphs source =
      [⟨' ', ⟨1, 1⟩⟩] ++ (⟨'\x7b', ⟨1, 2⟩⟩ :: ⟨'#', ⟨1, 3⟩⟩ :: comment ++ rest) := by
    simp [source, rest, comment, tag, glyphs, locate, Pos.start, Pos.after]
  have hl : Layout (glyphs source) [.text [⟨' ', ⟨1, 1⟩⟩], .comment, .text [⟨'\n', ⟨2, 3⟩⟩],
      .tag .output ts, .text []] := by
    rw [hg]
    exact .tag (plain_cons.2 ⟨rfl, plain_nil⟩) rfl hcomment
      (.tag (plain_cons.2 ⟨rfl, plain_nil⟩) rfl hopened (.last plain_nil))
  have ht : tokenize ⟨true, true⟩ source = .ok ts := by
    rw [tokenize_of_layout _ hl]
    decide
  exact ⟨ht, tokens_placed ht⟩

end Stencil.Template
