import Stencil.Proofs.LexicalErrors
import Stencil.Proofs.NodeReading
import Stencil.Proofs.OpenBlocks

/-! Where the errors of a source stand. Each is reported at a character of the source, and what it
complains about starts there. -/
namespace Stencil.Template

/-- What an error complains about starts a rest of the source: a fault that keeps the source from
being tokens, a token that is refused, or the keyword of a block without an end. -/
inductive PointsAt (o : Options) (source : String) (e : ParseError) (rest : List Char) : Prop where
  | fault : tokenize o source = .error e → Faulty e.cause rest → PointsAt o source e rest
  | token {ts t lexeme} : tokenize o source = .ok ts → t ∈ ts → e.pos = t.pos →
      Spelling t.symbol lexeme → lexeme <+: rest →
      e.cause.Blames t.symbol ∨ LacksCloser ts t e.cause → PointsAt o source e rest

/-- The tokens of a source are not too few, so a token is to blame or a block lacks its end. -/
theorem parse_blames {o : Options} {source : String} {ts : List Token} {e : ParseError}
    (ht : tokenize o source = .ok ts) (h : parse ts = .error e) :
    ∃ t ∈ ts, e.pos = t.pos ∧ (e.cause.Blames t.symbol ∨ LacksCloser ts t e.cause) := by
  have hin : e.cause.inStream := readNodes_inStream (tokenize_stream ht) h
  rcases parse_complains h with (⟨what, hc⟩ | ⟨t, hm, hp, hb⟩) | ⟨t, hp, hl⟩
  · rw [hc] at hin
    cases hin
  · exact ⟨t, hm, hp, .inl hb⟩
  · have hm : t ∈ ts := by
      obtain ⟨block, before, p, after, rfl, _⟩ := hl
      simp
    exact ⟨t, hm, hp, .inr hl⟩

/-- Every error of a source is reported at one of its characters, and what it complains about
starts there. -/
theorem error_points_at_cause {o : Options} {source : String} {e : ParseError}
    (h : ofSource o source = .error e) :
    ∃ before rest, source.toList = before ++ rest ∧ rest ≠ [] ∧ e.pos = placeAfter before ∧
      PointsAt o source e rest := by
  rw [ofSource] at h
  split at h
  · rename_i he
    cases h
    obtain ⟨before, rest, hs, hn, hp, hf⟩ := tokenize_fault he
    exact ⟨before, rest, hs, hn, hp, .fault he hf⟩
  · rename_i ts ht
    split at h
    · rename_i he
      cases h
      obtain ⟨t, hm, hp, hb⟩ := parse_blames ht he
      have hplaced : Placed [] ts source.toList := (tokenize_spelled ht).placed rfl
      obtain ⟨before, lexeme, rest, hs, hl, hq⟩ := hplaced.lexeme hm
      have hn : lexeme ++ rest ≠ [] := by simp [hl.ne_nil]
      exact ⟨before, lexeme ++ rest, hs, hn, hp.trans hq,
        .token ht hm hp hl (List.prefix_append lexeme rest) hb⟩
    · cases h

/-- A condition without an end is reported at its keyword. -/
theorem error_points_at_cause_open_block :
    let source := "\x7b% if x %\x7d"
    let e : ParseError := ⟨.missingCloser .cond, ⟨1, 4⟩⟩
    ofSource ⟨true, true⟩ source = .error e ∧
    ∃ before rest, source.toList = before ++ rest ∧ rest ≠ [] ∧ e.pos = placeAfter before ∧
      PointsAt ⟨true, true⟩ source e rest := by
  intro source e
  let ts : List Token := [⟨.opening .block, ⟨1, 1⟩⟩, ⟨.keyword .if_, ⟨1, 4⟩⟩, ⟨.word "x", ⟨1, 7⟩⟩,
    ⟨.closing .block, ⟨1, 9⟩⟩]
  let tag : List Glyph := [⟨' ', ⟨1, 3⟩⟩, ⟨'i', ⟨1, 4⟩⟩, ⟨'f', ⟨1, 5⟩⟩, ⟨' ', ⟨1, 6⟩⟩,
    ⟨'x', ⟨1, 7⟩⟩, ⟨' ', ⟨1, 8⟩⟩, ⟨'%', ⟨1, 9⟩⟩, ⟨'\x7d', ⟨1, 10⟩⟩]
  have hread : readTag .block ⟨1, 1⟩ false (tag ++ []) = .ok (ts.tail, []) := by
    have hif : readSymbol false ⟨'i', ⟨1, 4⟩⟩ (tag.drop 2) = .ok (.keyword .if_, tag.drop 3) := by
      rfl
    have hx : readSymbol false ⟨'x', ⟨1, 7⟩⟩ (tag.drop 5) = .ok (.word "x", tag.drop 5) := by rfl
    have h0 : skipSpaces (tag ++ []) = ⟨'i', ⟨1, 4⟩⟩ :: tag.drop 2 := by rfl
    have h1 : skipSpaces (tag.drop 3) = ⟨'x', ⟨1, 7⟩⟩ :: tag.drop 5 := by rfl
    have h2 : skipSpaces (tag.drop 5) = ⟨'%', ⟨1, 9⟩⟩ :: tag.drop 7 := by rfl
    exact readTag_symbol _ h0 rfl hif (readTag_symbol _ h1 rfl hx (readTag_close _ h2 rfl))
  have hopened : readOpened ⟨'\x7b', ⟨1, 1⟩⟩ ⟨'%', ⟨1, 2⟩⟩ (tag ++ []) =
      .ok (.tag .block ts, []) := by
    rw [readOpened, if_neg (by decide)]
    simp only [if_true, hread]
    rfl
  have hg : glyphs source = [] ++ (⟨'\x7b', ⟨1, 1⟩⟩ :: ⟨'%', ⟨1, 2⟩⟩ :: tag ++ []) := by
    simp [source, tag, glyphs, locate, Pos.start, Pos.after]
  have hl : Layout (glyphs source) [.text [], .tag .block ts, .text []] := by
    rw [hg]
    exact .tag plain_nil rfl hopened (.last plain_nil)
  have ht : tokenize ⟨true, true⟩ source = .ok ts := by
    rw [tokenize_of_layout _ hl]
    decide
  have he : ofSource ⟨true, true⟩ source = .error e := by
    have hp : parse ts = .error e := by
      simp [ts, e, parse, readNodes, readBlock, readCondition, readExpr, readAnd, readNot,
        readComparison, readFiltered, readPrimary, extendPath, extendFilters, extendAnd, extendOr,
        Parsed.map, Parsed.close, expect, Frame.block, Frame.pos]
    rw [ofSource, ht]
    simp only [hp]
  exact ⟨he, error_points_at_cause he⟩

end Stencil.Template
