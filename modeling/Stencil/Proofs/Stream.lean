import Stencil.Proofs.LineRule
import Stencil.Proofs.PrintRoundTrip

/-! What the tokens of a source look like: texts, and tags from their opening to their closing
delimiter with no other delimiter and no text in between. -/
namespace Stencil.Template

def Symbol.inTag : Symbol → Bool
  | text _ | opening _ | closing _ => false
  | _ => true

inductive Stream : List Token → Prop where
  | nil : Stream []
  | text {s p ts} : IsText s → Stream ts → Stream (⟨.text s, p⟩ :: ts)
  | tag {tag p inner q ts} : (∀ t ∈ inner, t.symbol.inTag) → Stream ts →
      Stream (⟨.opening tag, p⟩ :: (inner ++ ⟨.closing tag, q⟩ :: ts))

def Cause.isLexical : Cause → Bool
  | unterminatedTag _ | unterminatedComment | unterminatedString | integerOutOfRange _
  | loneColon | unexpectedCharacter _ => true
  | _ => false

variable {gs rest : List Glyph} {s : Symbol}

def Lexes : Except Cause (Symbol × List Glyph) → Prop
  | .ok (s, _) => s.inTag
  | .error cause => cause.isLexical

theorem readNumber_lexes (afterDot negative : Bool) (gs : List Glyph) :
    Lexes (readNumber afterDot negative gs) := by
  unfold readNumber
  dsimp only
  split
  · split
    · rfl
    · split <;> rfl
  · split <;> rfl

theorem readThousands_lexes (gs : List Glyph) : Lexes (readThousands gs) := by
  unfold readThousands
  split
  · split <;> rfl
  · rfl

theorem readSign_lexes (c : Char) (gs : List Glyph) : Lexes (readSign c gs) := by
  unfold readSign
  split
  case h_5 => exact readThousands_lexes gs
  all_goals first | (split <;> rfl) | rfl

theorem readWord_inTag (gs : List Glyph) : (readWord gs).1.inTag := by
  unfold readWord
  dsimp only
  split <;> rfl

theorem readSymbol_lexes (afterDot : Bool) (g : Glyph) (gs : List Glyph) :
    Lexes (readSymbol afterDot g gs) := by
  unfold readSymbol
  split
  · split <;> rfl
  split
  · exact readNumber_lexes afterDot false _
  split
  · exact readNumber_lexes afterDot true _
  split
  · exact readWord_inTag _
  · exact readSign_lexes _ _

theorem readTag_closed {tag : Tag} {opener : Pos} {afterDot : Bool} {tokens : List Token}
    (h : readTag tag opener afterDot gs = .ok (tokens, rest)) :
    ∃ inner q, tokens = inner ++ [⟨.closing tag, q⟩] ∧ ∀ t ∈ inner, t.symbol.inTag := by
  fun_induction readTag tag opener afterDot gs generalizing tokens with
  | case1 => cases h
  | case2 dot gs g r hs =>
    cases h
    exact ⟨[], g.pos, rfl, List.forall_mem_nil _⟩
  | case3 => cases h
  | case4 => cases h
  | case5 dot gs g r hs _ s more hm _ tokens' rest' hr ih =>
    cases h
    obtain ⟨inner, q, rfl, hi⟩ := ih hr
    refine ⟨⟨s, g.pos⟩ :: inner, q, rfl, ?_⟩
    have hl := readSymbol_lexes dot g r
    rw [hm] at hl
    exact List.forall_mem_cons.2 ⟨hl, hi⟩

/-- A tag leaves its delimiters with what it says between them, a comment leaves nothing. -/
theorem readOpened_tokens {g k : Glyph} {p : Piece} (h : readOpened g k gs = .ok (p, rest)) :
    p = .comment ∨ ∃ tag inner q, (∀ t ∈ inner, t.symbol.inTag) ∧
      p = .tag tag (⟨.opening tag, g.pos⟩ :: (inner ++ [⟨.closing tag, q⟩])) := by
  unfold readOpened at h
  split at h
  · split at h <;> cases h
    exact .inl rfl
  · simp only at h
    split at h
    · cases h
    · rename_i ht
      cases h
      obtain ⟨inner, q, rfl, hi⟩ := readTag_closed ht
      exact .inr ⟨_, inner, q, hi, rfl⟩

theorem trimLine_suffix (final : Bool) (gs : List Glyph) : trimLine final gs <:+ gs := by
  rw [trimLine, splitLine_eq]
  split
  · exact List.drop_suffix _ _
  · exact List.suffix_rfl

theorem stripIndent_initial (clean : Bool) (gs : List Glyph) : stripIndent clean gs <+: gs := by
  rw [stripIndent]
  split
  · exact List.rdropWhile_prefix _ _
  · exact List.prefix_rfl

/-- Two characters next to each other stand somewhere in a text. -/
theorem two_of_infix {text : List Glyph} {c d : Char} (h : [c, d] <:+: text.map Glyph.char) :
    ∃ a g k b, text = a ++ g :: k :: b ∧ g.char = c ∧ k.char = d := by
  obtain ⟨a, b, h⟩ := h
  obtain ⟨xs, ys, rfl, hx, _⟩ := List.map_eq_append_iff.1 h.symm
  obtain ⟨xs, zs, rfl, _, hz⟩ := List.map_eq_append_iff.1 hx
  obtain ⟨g, k, rfl, hg, hk⟩ := two_glyphs hz
  exact ⟨xs, g, k, ys, by simp, hg, hk⟩

theorem isText_of_plain {text : List Glyph} (ht : Plain text rest) (hg : gs <:+: text)
    (hn : gs ≠ []) : IsText (textOf gs) := by
  refine ⟨fun h => hn ?_, fun d hd hi => ?_⟩
  · simpa [textOf] using h
  · have hc : ∃ k, opensTag k ∧ d.toList = ['{', k] := by
      simp only [List.mem_cons, List.not_mem_nil, or_false] at hd
      rcases hd with rfl | rfl | rfl
      · exact ⟨'{', rfl, rfl⟩
      · exact ⟨'%', rfl, rfl⟩
      · exact ⟨'#', rfl, rfl⟩
    obtain ⟨c, hc, hd⟩ := hc
    rw [textOf, String.toList_ofList, hd] at hi
    obtain ⟨a, g, k, b, rfl, hg, rfl⟩ := two_of_infix (hi.trans (hg.map Glyph.char))
    have hp := ht a g (k :: b) rfl
    simp [opens, hg, hc] at hp

theorem textTokens_stream {text : List Glyph} (ht : Plain text rest) (hg : gs <:+: text)
    {ts : List Token} (h : Stream ts) : Stream (textTokens gs ++ ts) := by
  cases gs with
  | nil => exact h
  | cons g gs => exact .text (isText_of_plain ht hg (List.cons_ne_nil g gs)) h

/-- Whatever white space is dropped, texts stay texts. -/
theorem settle_text_stream {text : List Glyph} (ht : Plain text rest) {o : Options}
    {dirty afterBlock : Bool} {ps : List Piece}
    (h : ∀ dirty, Stream (settle o dirty false ps)) :
    Stream (settle o dirty afterBlock (.text text :: ps)) := by
  rw [settle]
  refine textTokens_stream ht ?_ (h _)
  have hs : (if o.trim && afterBlock && !dirty then trimLine ps.isEmpty text else text)
      <:+ text := by
    split
    · exact trimLine_suffix _ _
    · exact List.suffix_rfl
  split
  · exact (stripIndent_initial _ _).isInfix.trans hs.isInfix
  · exact hs.isInfix

theorem settle_stream {ps : List Piece} (h : Layout gs ps) (o : Options)
    (dirty afterBlock : Bool) : Stream (settle o dirty afterBlock ps) := by
  induction h generalizing dirty afterBlock with
  | last ht => exact settle_text_stream ht fun _ => .nil
  | @tag text body rest g k p ps ht _ hp _ ih =>
    refine settle_text_stream ht fun dirty => ?_
    rcases readOpened_tokens hp with rfl | ⟨tag, inner, q, hi, rfl⟩
    · exact ih dirty true
    · cases tag with
      | output => simpa [settle] using Stream.tag hi (ih true false)
      | block => simpa [settle] using Stream.tag hi (ih dirty true)

/-- The tokens of a source are those of its texts and tags. -/
theorem tokenize_layout {o : Options} {source : String} {ts : List Token}
    (h : tokenize o source = .ok ts) :
    ∃ ps, Layout (glyphs source) ps ∧ settle o false false ps = ts := by
  rw [tokenize] at h
  split at h
  · cases h
  · rename_i qs hq
    cases h
    obtain ⟨ps, hl, rfl⟩ := layout_of_pieces hq
    exact ⟨ps, hl, (settle_shown hl false false).symm⟩

theorem tokenize_stream {o : Options} {source : String} {ts : List Token}
    (h : tokenize o source = .ok ts) : Stream ts := by
  obtain ⟨ps, hl, rfl⟩ := tokenize_layout h
  exact settle_stream hl o false false

theorem readTag_isLexical {tag : Tag} {opener : Pos} {afterDot : Bool} {e : ParseError}
    (h : readTag tag opener afterDot gs = .error e) : e.cause.isLexical := by
  fun_induction readTag tag opener afterDot gs with
  | case1 =>
    cases h
    rfl
  | case2 => cases h
  | case3 dot gs g r hs _ cause hc =>
    cases h
    have hl := readSymbol_lexes dot g r
    rw [hc] at hl
    exact hl
  | case4 dot gs g r hs _ s more hm _ e he ih =>
    cases h
    exact ih he
  | case5 => cases h

theorem readOpened_isLexical {g k : Glyph} {e : ParseError} (h : readOpened g k gs = .error e) :
    e.cause.isLexical := by
  unfold readOpened at h
  split at h
  · split at h <;> cases h
    rfl
  · simp only at h
    split at h
    · rename_i he
      cases h
      exact readTag_isLexical he
    · cases h

theorem pieces_isLexical {e : ParseError} (h : pieces gs = .error e) : e.cause.isLexical := by
  fun_induction pieces gs with
  | case1 =>
    rename_i he
    cases h
    exact readOpened_isLexical he
  | case2 =>
    rename_i he ih
    cases h
    exact ih he
  | case3 => cases h
  | case4 => cases h

theorem tokenize_isLexical {o : Options} {source : String} {e : ParseError}
    (h : tokenize o source = .error e) : e.cause.isLexical := by
  rw [tokenize] at h
  split at h
  · rename_i he
    cases h
    exact pieces_isLexical he
  · cases h

end Stencil.Template
