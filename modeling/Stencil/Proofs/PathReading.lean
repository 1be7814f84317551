import Stencil.Proofs.LexicalErrors
import Stencil.Proofs.PassThrough

/-! A path may be spelled in many ways: white space may stand around each of its symbols, strings
are quoted one way or the other, and digits have leading zeros or not. However it is spelled, the
tag around it outputs the path. -/
namespace Stencil.Template

/-- Spellings of the symbols in their order, with white space before each and at the end. -/
inductive SpelledOut : List Symbol → List Char → Prop where
  | nil {gap} : (∀ c ∈ gap, Unicode.isSpace c) → SpelledOut [] gap
  | cons {gap lexeme rest s ss} : (∀ c ∈ gap, Unicode.isSpace c) → Spelling s lexeme →
      SpelledOut ss rest → SpelledOut (s :: ss) (gap ++ (lexeme ++ rest))

def IsPath (p : String) (path : Path) : Prop :=
  ∃ s, Steps s path.segments ∧ SpelledOut (.word path.root :: s) p.toList

variable {ss ts : List Symbol} {cs ds : List Char} {gs rest tail : List Glyph}

theorem SpelledOut.skip {gap : List Char} (hg : ∀ c ∈ gap, Unicode.isSpace c)
    (h : SpelledOut ss cs) : SpelledOut ss (gap ++ cs) := by
  cases h with
  | nil hn => exact .nil (List.forall_mem_append.2 ⟨hg, hn⟩)
  | cons hn hs hr =>
    rw [← List.append_assoc]
    exact .cons (List.forall_mem_append.2 ⟨hg, hn⟩) hs hr

theorem SpelledOut.append (h : SpelledOut ss cs) (hd : SpelledOut ts ds) :
    SpelledOut (ss ++ ts) (cs ++ ds) := by
  induction h with
  | nil hn => exact hd.skip hn
  | cons hn hs _ ih =>
    rw [List.append_assoc, List.append_assoc]
    exact .cons hn hs ih

theorem SpelledOut.lexeme {s : Symbol} {lexeme : List Char} (hs : Spelling s lexeme)
    (h : SpelledOut ss cs) : SpelledOut (s :: ss) (lexeme ++ cs) :=
  .cons (List.forall_mem_nil _) hs h

theorem Steps.append {l m : List Segment} (h : Steps ss l) (hm : Steps ts m) :
    Steps (ss ++ ts) (l ++ m) := by
  induction h with
  | done => exact hm
  | name name _ ih => exact .name name ih
  | method m _ ih => exact .method m ih
  | keyword k _ ih => exact .keyword k ih
  | number n _ ih => exact .number n ih
  | index n _ ih => exact .index n ih
  | key name _ ih => exact .key name ih

theorem SpelledOut.spaces (h : SpelledOut [] (gs.map Glyph.char)) : ∀ g ∈ gs, g.isSpace := by
  generalize hc : gs.map Glyph.char = cs at h
  cases h with
  | nil hg =>
    rw [← hc] at hg
    exact fun g h => hg g.char (List.mem_map_of_mem h)

/-- The first symbol of glyphs that spell symbols out. -/
theorem SpelledOut.uncons {s : Symbol} (h : SpelledOut (s :: ss) (gs.map Glyph.char)) :
    ∃ gap lexeme more : List Glyph, gs = gap ++ (lexeme ++ more) ∧ (∀ g ∈ gap, g.isSpace) ∧
      Spelling s (lexeme.map Glyph.char) ∧ SpelledOut ss (more.map Glyph.char) := by
  generalize hc : gs.map Glyph.char = cs at h
  cases h with
  | cons hg hs hr =>
    obtain ⟨gap, tail, rfl, rfl, ht⟩ := List.map_eq_append_iff.1 hc
    obtain ⟨lexeme, more, rfl, rfl, rfl⟩ := List.map_eq_append_iff.1 ht
    exact ⟨gap, lexeme, more, rfl, fun g h => hg g.char (List.mem_map_of_mem h), hs, hr⟩

def Symbol.EndsBefore (afterDot : Bool) (rest : List Glyph) : Symbol → Prop
  | .word _ | .keyword _ => Breaks rest
  | .int _ => Breaks rest ∧ (afterDot ∨ startsWith '.' rest = false)
  | .string _ | .dot | .leftParen | .rightParen | .leftBracket | .rightBracket => True
  | _ => False

theorem Spelling.reads {s : Symbol} {afterDot : Bool} (h : Spelling s (gs.map Glyph.char))
    (hr : s.EndsBefore afterDot rest) : Reads afterDot gs s rest := by
  generalize hc : gs.map Glyph.char = cs at h
  cases h with
  | text | opening | closing | float | thousands | compare | comma | pipe => cases hr
  | word hn hk | keyword hn hk =>
    rw [← String.toList_ofList (l := cs)] at hc hn
    have hs := reads_name afterDot hn hc hr
    rwa [hk] at hs
  | @string q body vs hq hb =>
    obtain ⟨g, gs, rfl, hg, ht⟩ := List.map_eq_cons_iff.1 hc
    obtain ⟨inner, ends, rfl, hi, he⟩ := List.map_eq_append_iff.1 ht
    obtain ⟨k, rfl, hk⟩ := List.map_eq_singleton_iff.1 he
    have hn : q ≠ '\\' := by rcases hq with rfl | rfl <;> decide
    have hv : readQuoted q (inner ++ k :: rest) = some (vs, rest) :=
      readQuoted_of_quoted hn hb hi hk
    refine ⟨g, inner ++ [k], rfl, ?_⟩
    rw [List.append_assoc, List.singleton_append]
    simp [readSymbol, hg, hq, hv]
  | int hd hn => exact reads_digits afterDot hd hn hc hr.1 hr.2
  | dot => exact reads_sign afterDot (c := '.') (by decide) hc rfl
  | leftParen => exact reads_sign afterDot (c := '(') (by decide) hc rfl
  | rightParen => exact reads_sign afterDot (c := ')') (by decide) hc rfl
  | leftBracket => exact reads_sign afterDot (c := '[') (by decide) hc rfl
  | rightBracket => exact reads_sign afterDot (c := ']') (by decide) hc rfl

theorem Spelling.startsInner {s : Symbol} {afterDot : Bool} (h : Spelling s cs)
    (hr : s.EndsBefore afterDot rest) : ∃ c ds, cs = c :: ds ∧ startsInner c := by
  cases h with
  | text | opening | closing | float | thousands | compare | comma | pipe => cases hr
  | word hn _ | keyword hn _ => exact isName_starts hn
  | string hq _ => rcases hq with rfl | rfl <;> exact ⟨_, _, rfl, by decide⟩
  | @int negative digits n hd _ =>
    cases negative with
    | true => exact ⟨'-', digits, rfl, by decide⟩
    | false =>
      obtain ⟨d, ds, rfl⟩ := List.exists_cons_of_ne_nil hd.1
      exact ⟨d, ds, rfl, isDigit_starts (hd.2 d List.mem_cons_self)⟩
  | _ => exact ⟨_, _, rfl, by decide⟩

def TagReads (opener : Pos) (afterDot : Bool) (gs : List Glyph) (ss : List Symbol)
    (rest : List Glyph) : Prop :=
  ∃ tokens, readTag .output opener afterDot gs = .ok (tokens, rest) ∧ symbols tokens = ss

variable {opener : Pos} {afterDot : Bool}

theorem skipSpaces_gap {gap : List Glyph} (hg : ∀ g ∈ gap, g.isSpace) (gs : List Glyph) :
    skipSpaces (gap ++ gs) = skipSpaces gs :=
  List.dropWhile_append_of_pos hg

theorem TagReads.gap {gap : List Glyph} (hg : ∀ g ∈ gap, g.isSpace)
    (h : TagReads opener afterDot gs ss rest) : TagReads opener afterDot (gap ++ gs) ss rest := by
  obtain ⟨tokens, ht, hs⟩ := h
  refine ⟨tokens, ?_, hs⟩
  rw [readTag_eq, skipSpaces_gap hg, ← readTag_eq, ht]

theorem TagReads.cons {gap lexeme more : List Glyph} {s : Symbol} (hg : ∀ g ∈ gap, g.isSpace)
    (hs : Spelling s (lexeme.map Glyph.char)) (hr : s.EndsBefore afterDot more)
    (h : TagReads opener (s = .dot) more ss rest) :
    TagReads opener afterDot (gap ++ (lexeme ++ more)) (s :: ss) rest := by
  obtain ⟨tokens, ht, hss⟩ := h
  obtain ⟨g, gs, rfl, hread⟩ := hs.reads hr
  obtain ⟨c, ds, hc, hstart⟩ := hs.startsInner hr
  have hg' : startsInner g.char := (List.cons.inj hc).1 ▸ hstart
  refine TagReads.gap hg ⟨⟨s, g.pos⟩ :: tokens, ?_, congrArg (s :: ·) hss⟩
  exact readTag_symbol afterDot (skipSpaces_cons (not_space_of_starts hg')) (closesAt_of_starts hg')
    hread ht

/-- A spelling starts with white space or with its first symbol. -/
theorem SpelledOut.first {s : Symbol} (h : SpelledOut (s :: ss) (gs.map Glyph.char)) :
    ∃ g more, gs = g :: more ∧ (g.isSpace ∨ ∃ ds, Spelling s (g.char :: ds)) := by
  obtain ⟨gap, lexeme, more, rfl, hg, hs, -⟩ := h.uncons
  cases gap with
  | cons g gap => exact ⟨g, _, rfl, .inl (hg g List.mem_cons_self)⟩
  | nil =>
    cases lexeme with
    | nil => exact absurd rfl hs.ne_nil
    | cons g lexeme => exact ⟨g, _, rfl, .inr ⟨_, hs⟩⟩

/-- No point follows a number in brackets. -/
theorem SpelledOut.no_point (h : SpelledOut (.rightBracket :: ss) (gs.map Glyph.char))
    (tail : List Glyph) : startsWith '.' (gs ++ tail) = false := by
  obtain ⟨g, more, rfl, hg⟩ := h.first
  rw [List.cons_append, startsWith, decide_eq_false_iff_not]
  intro hc
  rw [Glyph.isSpace, hc] at hg
  rcases hg with hg | ⟨ds, hg⟩
  · exact absurd hg (by decide)
  · cases hg

def Symbol.isSign (s : Symbol) : Bool := [dot, leftBracket, rightBracket, leftParen].contains s

theorem SpelledOut.breaks {s : Symbol} (h : SpelledOut (s :: ss) (gs.map Glyph.char))
    (hs : s.isSign) (tail : List Glyph) : Breaks (gs ++ tail) := by
  obtain ⟨g, more, rfl, hg | ⟨ds, hg⟩⟩ := h.first
  · exact ⟨g, _, rfl, not_continuesWord_of_isSpace hg⟩
  · refine ⟨g, _, rfl, ?_⟩
    generalize hc : g.char :: ds = cs at hg
    cases hg with
    | dot | leftBracket | rightBracket | leftParen =>
      rw [Glyph.continuesWord, (List.cons.inj hc).1]
      decide
    | _ => cases hs

theorem Steps.breaks {l : List Segment} (h : Steps ss l) (hs : SpelledOut ss (gs.map Glyph.char))
    (ht : Breaks tail) : Breaks (gs ++ tail) := by
  cases h with
  | done =>
    cases gs with
    | nil => exact ht
    | cons g gs => exact ⟨g, _, rfl, not_continuesWord_of_isSpace (hs.spaces g List.mem_cons_self)⟩
  | _ => exact hs.breaks rfl tail

theorem Steps.tagReads {l : List Segment} (h : Steps ss l) (hs : SpelledOut ss (gs.map Glyph.char))
    (ht : TagReads opener false tail ts rest) (hb : Breaks tail) :
    TagReads opener false (gs ++ tail) (ss ++ ts) rest := by
  induction h generalizing gs with
  | done => exact ht.gap hs.spaces
  | name name h ih =>
    obtain ⟨g₁, dot, _, rfl, hg₁, hd, hs⟩ := hs.uncons
    obtain ⟨g₂, word, more, rfl, hg₂, hw, hs⟩ := hs.uncons
    simp only [List.append_assoc]
    exact .cons hg₁ hd trivial (.cons hg₂ hw (h.breaks hs hb) (ih hs))
  | method m h ih =>
    obtain ⟨g₁, dot, _, rfl, hg₁, hd, hs⟩ := hs.uncons
    obtain ⟨g₂, word, _, rfl, hg₂, hw, hs⟩ := hs.uncons
    have hm := hs.breaks rfl tail
    obtain ⟨g₃, left, _, rfl, hg₃, hl, hs⟩ := hs.uncons
    obtain ⟨g₄, right, more, rfl, hg₄, hr, hs⟩ := hs.uncons
    simp only [List.append_assoc] at hm ⊢
    exact .cons hg₁ hd trivial (.cons hg₂ hw hm (.cons hg₃ hl trivial
      (.cons hg₄ hr trivial (ih hs))))
  | keyword k h ih =>
    obtain ⟨g₁, dot, _, rfl, hg₁, hd, hs⟩ := hs.uncons
    obtain ⟨g₂, word, more, rfl, hg₂, hw, hs⟩ := hs.uncons
    simp only [List.append_assoc]
    exact .cons hg₁ hd trivial (.cons hg₂ hw (h.breaks hs hb) (ih hs))
  | number n h ih =>
    obtain ⟨g₁, dot, _, rfl, hg₁, hd, hs⟩ := hs.uncons
    obtain ⟨g₂, word, more, rfl, hg₂, hw, hs⟩ := hs.uncons
    simp only [List.append_assoc]
    exact .cons hg₁ hd trivial (.cons hg₂ hw ⟨h.breaks hs hb, .inl rfl⟩ (ih hs))
  | index n h ih =>
    obtain ⟨g₁, left, _, rfl, hg₁, hl, hs⟩ := hs.uncons
    obtain ⟨g₂, word, _, rfl, hg₂, hw, hs⟩ := hs.uncons
    have hm := hs.breaks rfl tail
    have hn : startsWith '.' _ = false := hs.no_point tail
    obtain ⟨g₃, right, more, rfl, hg₃, hr, hs⟩ := hs.uncons
    simp only [List.append_assoc] at hm hn ⊢
    exact .cons hg₁ hl trivial (.cons hg₂ hw ⟨hm, .inr hn⟩ (.cons hg₃ hr trivial (ih hs)))
  | key name h ih =>
    obtain ⟨g₁, left, _, rfl, hg₁, hl, hs⟩ := hs.uncons
    obtain ⟨g₂, word, _, rfl, hg₂, hw, hs⟩ := hs.uncons
    obtain ⟨g₃, right, more, rfl, hg₃, hr, hs⟩ := hs.uncons
    simp only [List.append_assoc]
    exact .cons hg₁ hl trivial (.cons hg₂ hw trivial (.cons hg₃ hr trivial (ih hs)))

/-- The end of the tag, with a space before it. -/
theorem tagReads_end (opener : Pos) (h : tail.map Glyph.char = ' ' :: Tag.output.closer.toList) :
    TagReads opener false tail [.closing .output] [] ∧ Breaks tail := by
  obtain ⟨a, closer, rfl, ha, hc⟩ := List.map_eq_cons_iff.1 h
  obtain ⟨g, k, rfl, hg, hclose, -⟩ := Tag.closer_closes hc []
  have hs : a.isSpace := by
    rw [Glyph.isSpace, ha]
    decide
  have hg : skipSpaces ([a] ++ [g, k]) = [g, k] :=
    (skipSpaces_gap (List.forall_mem_singleton.2 hs) [g, k]).trans (skipSpaces_cons hg)
  refine ⟨⟨_, readTag_close false hg hclose, rfl⟩, a, [g, k], rfl, ?_⟩
  exact not_continuesWord_of_isSpace hs

theorem SpelledOut.tagReads_path {root : String} {s : List Symbol} {segments : List Segment}
    (hs : Steps s segments) (opener : Pos)
    (h : SpelledOut (.word root :: s) (gs.map Glyph.char))
    (ht : tail.map Glyph.char = ' ' :: Tag.output.closer.toList) :
    TagReads opener false (gs ++ tail) (.word root :: s ++ [.closing .output]) [] := by
  obtain ⟨hend, hb⟩ := tagReads_end opener ht
  obtain ⟨gap, word, more, rfl, hg, hw, hm⟩ := h.uncons
  rw [List.append_assoc, List.append_assoc]
  exact .cons hg hw (hs.breaks hm hb) (hs.tagReads hm hend hb)

/-- The tokens of an output tag are those that its reader finds, whatever it holds. -/
theorem tokenize_outputTag (o : Options) {p : String} {ss : List Symbol}
    (h : ∀ opener gs tail, gs.map Glyph.char = p.toList →
      tail.map Glyph.char = ' ' :: Tag.output.closer.toList →
      TagReads opener false (gs ++ tail) ss []) :
    ∃ ts, tokenize o (outputTag p) = .ok ts ∧ symbols ts = .opening .output :: ss := by
  have hc : (outputTag p).toList =
      Tag.output.opener.toList ++ ([' '] ++ (p.toList ++ ' ' :: Tag.output.closer.toList)) := by
    simp [outputTag, Tag.opener, Tag.closer]
  have hg : (glyphs (outputTag p)).map Glyph.char = _ := (map_char_locate Pos.start _).trans hc
  obtain ⟨opener, body, hgs, ho, hbody⟩ := List.map_eq_append_iff.1 hg
  obtain ⟨a, inner, rfl, ha, hinner⟩ := List.map_eq_append_iff.1 hbody
  obtain ⟨gs, tail, rfl, hp, ht⟩ := List.map_eq_append_iff.1 hinner
  obtain ⟨g, k, rfl, hg, hk, hn, htag⟩ := Tag.opener_opens ho
  have hsp : ∀ x ∈ a, x.isSpace := by
    intro x hx
    have hx := List.mem_map_of_mem (f := Glyph.char) hx
    rw [ha, List.mem_singleton] at hx
    rw [Glyph.isSpace, hx]
    decide
  obtain ⟨tokens, htokens, hsym⟩ := (h g.pos gs tail hp ht).gap hsp
  have hr : readOpened g k (a ++ (gs ++ tail) ++ []) =
      .ok (.tag .output (⟨.opening .output, g.pos⟩ :: tokens), []) := by
    rw [readOpened, if_neg hn, htag, List.append_nil]
    simp only [htokens]
  have hopens : opens (g :: k :: (a ++ (gs ++ tail))) := by simp [opens, hg, hk]
  have hl : Layout (glyphs (outputTag p))
      [.text [], .tag .output (⟨.opening .output, g.pos⟩ :: tokens), .text []] := by
    have hl := Layout.tag plain_nil hopens hr (.last plain_nil)
    rw [List.nil_append, List.append_nil] at hl
    rw [hgs]
    exact hl
  refine ⟨_, tokenize_of_layout o hl, ?_⟩
  rw [settled, settled, settled_text_nil, kept_between rfl rfl, List.append_nil]
  exact congrArg (.opening .output :: ·) hsym

theorem tokenize_path (o : Options) {p : String} {path : Path} (h : IsPath p path) :
    ∃ ts s, tokenize o (outputTag p) = .ok ts ∧ Steps s path.segments ∧
      symbols ts = .opening .output :: (.word path.root :: s) ++ [.closing .output] := by
  obtain ⟨s, hs, hspell⟩ := h
  obtain ⟨ts, ht, hsym⟩ := tokenize_outputTag o fun opener gs tail hp htail =>
    SpelledOut.tagReads_path hs opener (hp ▸ hspell) htail
  exact ⟨ts, s, ht, hs, hsym⟩

theorem path_phrase {s : List Symbol} {path : Path} (h : Steps s path.segments) :
    NodePhrase (.opening .output :: (.word path.root :: s) ++ [.closing .output])
      (.output (.path path)) := by
  have hp : Phrase .primary (.word path.root :: s) (.path path) := .path path.root h
  exact .output (.conjunction (.negation (.comparison (.filtered (.primary hp)))))

/-- The tag around a path outputs it, however the path is spelled. -/
theorem ofSource_path (o : Options) {p : String} {path : Path} (h : IsPath p path) :
    ofSource o (outputTag p) = .ok ⟨[.output (.path path)]⟩ := by
  obtain ⟨ts, s, ht, hs, hsym⟩ := tokenize_path o h
  have hp : parse ts = .ok [.output (.path path)] := by
    apply parse_complete
    rw [hsym]
    have hn := NodesPhrase.cons (path_phrase hs) .nil
    rwa [List.append_nil] at hn
  rw [ofSource, ht]
  simp only [hp]

end Stencil.Template
