import Stencil.Proofs.TokenPlaces

/-! Where a source stops being tokens. Each failure of the reader of pieces is reported at a
character of the source, and what is wrong starts there: a tag, comment or string without an end, an
integer that does not fit, a colon by itself, or a character that starts no symbol. -/
namespace Stencil.Template

inductive Unclosed : List Char → Prop where
  | nil : Unclosed []
  | space {c cs} : Unicode.isSpace c → Unclosed cs → Unclosed (c :: cs)
  | symbol {s cs ds} : s.inTag → Spelling s cs → Unclosed ds → Unclosed (cs ++ ds)

/-- What is wrong with the rest of a source for a lexical cause. -/
def Faulty : Cause → List Char → Prop
  | .unterminatedTag tag, cs => ∃ ds, cs = tag.opener.toList ++ ds ∧ Unclosed ds
  | .unterminatedComment, cs => ['{', '#'] <+: cs ∧ ¬ ['#', '}'] <:+: cs
  | .unterminatedString, cs => ∃ q ds, cs = q :: ds ∧ (q = '"' ∨ q = '\'') ∧
      ∀ body vs more, Quoted q body vs → ds ≠ body ++ q :: more
  | .integerOutOfRange literal, cs => ∃ negative digits ds,
      cs = minus negative ++ digits ++ ds ∧ literal = String.ofList (minus negative ++ digits) ∧
      AreDigits digits ∧ (∀ d ∈ ds.head?, d.isDigit = false) ∧
      Value.ofDigits? negative digits = none
  | .loneColon, cs => ∃ ds, cs = ':' :: ds ∧ (ds.dropWhile Unicode.isSpace).head? ≠ some ','
  | .unexpectedCharacter c, cs => ∃ ds, cs = c :: ds ∧
      ∀ s lexeme, s.inTag → lexeme <+: cs → ¬ Spelling s lexeme
  | _, _ => False

def FaultIn (gs : List Glyph) (e : ParseError) : Prop :=
  ∃ before g rest, gs = before ++ g :: rest ∧ e.pos = g.pos ∧
    Faulty e.cause ((g :: rest).map Glyph.char)

variable {gs hs rest : List Glyph} {e : ParseError} {afterDot : Bool}

theorem FaultIn.suffix (h : FaultIn hs e) (hs : hs <:+ gs) : FaultIn gs e := by
  obtain ⟨as, rfl⟩ := hs
  obtain ⟨before, g, rest, rfl, hp, hf⟩ := h
  exact ⟨as ++ before, g, rest, (List.append_assoc ..).symm, hp, hf⟩

/-- A string that ends is read. -/
theorem readQuoted_of_quoted {quote : Char} (hq : quote ≠ '\\') {cs vs : List Char}
    (h : Quoted quote cs vs) {body more : List Glyph} {q : Glyph} (hb : body.map Glyph.char = cs)
    (hc : q.char = quote) : readQuoted quote (body ++ q :: more) = some (vs, more) := by
  induction h generalizing body with
  | nil =>
    cases List.map_eq_nil_iff.1 hb
    rw [List.nil_append, readQuoted.eq_def]
    simp [hc]
  | char hn hs _ ih =>
    obtain ⟨g, body, rfl, rfl, ht⟩ := List.map_eq_cons_iff.1 hb
    rw [List.cons_append, readQuoted.eq_def]
    simp [hn, hs, ih ht]
  | escape c _ ih =>
    obtain ⟨g, tail, rfl, hg, ht⟩ := List.map_eq_cons_iff.1 hb
    obtain ⟨k, body, rfl, rfl, hbody⟩ := List.map_eq_cons_iff.1 ht
    rw [List.cons_append, List.cons_append, readQuoted.eq_def]
    simp [hg, hq.symm, ih hbody]

theorem readQuoted_faulty {q : Glyph} (hq : q.char = '"' ∨ q.char = '\'')
    (h : readQuoted q.char gs = none) :
    Faulty .unterminatedString ((q :: gs).map Glyph.char) := by
  refine ⟨q.char, gs.map Glyph.char, rfl, hq, fun body vs more hb hd => ?_⟩
  obtain ⟨body, ys, rfl, rfl, hy⟩ := List.map_eq_append_iff.1 hd
  obtain ⟨k, more, rfl, hk, rfl⟩ := List.map_eq_cons_iff.1 hy
  have hn : q.char ≠ '\\' := by
    rcases hq with hq | hq <;> rw [hq] <;> decide
  rw [readQuoted_of_quoted hn hb rfl hk] at h
  cases h

theorem readNumber_faulty {negative : Bool} {cause : Cause} (hd : gs.head?.any Glyph.isDigit)
    (h : readNumber afterDot negative gs = .error cause) :
    Faulty cause (minus negative ++ gs.map Glyph.char) := by
  rcases readNumber_cases afterDot negative gs with ⟨p, d, more, hr, hp, hdigit, -, hx⟩ | ⟨-, hx⟩
  · rw [hx] at h
    cases h
  · rw [hx] at h
    split at h
    · cases h
    · rename_i hn
      cases h
      refine ⟨negative, _, (gs.dropWhile Glyph.isDigit).map Glyph.char, ?_, rfl,
        areDigits_takeWhile hd, not_digit_of_dropWhile gs, hn⟩
      rw [List.append_assoc, ← List.map_append, List.takeWhile_append_dropWhile]

theorem readThousands_faulty {cause : Cause} (h : readThousands gs = .error cause) :
    Faulty cause (':' :: gs.map Glyph.char) := by
  have hm : (gs.map Glyph.char).dropWhile Unicode.isSpace = (skipSpaces gs).map Glyph.char :=
    List.dropWhile_map ..
  unfold readThousands at h
  split at h
  · rename_i g r hr
    split at h
    · cases h
    · rename_i hg
      cases h
      refine ⟨gs.map Glyph.char, rfl, ?_⟩
      rw [hm, hr]
      simpa using hg
  · rename_i hr
    cases h
    refine ⟨gs.map Glyph.char, rfl, ?_⟩
    rw [hm, hr]
    simp

theorem number_starts {negative : Bool} {digits more : List Char} {g : Glyph}
    (hd : AreDigits digits) (h : minus negative ++ digits ++ more <+: (g :: gs).map Glyph.char) :
    g.isDigit ∨ g.char = '-' ∧ gs.head?.any Glyph.isDigit := by
  obtain ⟨d, digits, rfl⟩ := List.exists_cons_of_ne_nil hd.1
  have hdigit : d.isDigit := hd.2 d List.mem_cons_self
  cases negative with
  | false =>
    have hg : d = g.char := (List.cons_prefix_cons.1 h).1
    rw [hg] at hdigit
    exact .inl hdigit
  | true =>
    obtain ⟨hg, h⟩ := List.cons_prefix_cons.1 h
    cases gs with
    | nil => cases List.prefix_nil.1 h
    | cons k gs =>
      have hk : d = k.char := (List.cons_prefix_cons.1 h).1
      rw [hk] at hdigit
      exact .inr ⟨hg.symm, hdigit⟩

theorem compare_starts {op : Comparison} {g : Glyph}
    (h : op.symbol.toList <+: (g :: gs).map Glyph.char) : ∃ r, readSign g.char gs = .ok r := by
  have two {c : Char} (h : [c, '='] <+: (g :: gs).map Glyph.char) :
      g.char = c ∧ startsWith '=' gs := by
    obtain ⟨hg, h⟩ := List.cons_prefix_cons.1 h
    cases gs with
    | nil => cases List.prefix_nil.1 h
    | cons k gs => exact ⟨hg.symm, decide_eq_true (List.cons_prefix_cons.1 h).1.symm⟩
  cases op with
  | eq | ne =>
    obtain ⟨hg, hw⟩ := two h
    rw [hg]
    exact ⟨_, if_pos hw⟩
  | lt | le | gt | ge =>
    rw [← (List.cons_prefix_cons.1 h).1]
    exact ⟨_, rfl⟩

/-- How a symbol within a tag can start. -/
theorem Spelling.starts {s : Symbol} {lexeme : List Char} (h : Spelling s lexeme) (hs : s.inTag)
    {g : Glyph} (hp : lexeme <+: (g :: gs).map Glyph.char) :
    (g.char = '"' ∨ g.char = '\'') ∨ (g.isDigit ∨ g.char = '-' ∧ gs.head?.any Glyph.isDigit) ∨
      g.startsWord ∨ g.char = ':' ∨ ∃ r, readSign g.char gs = .ok r := by
  have one {c : Char} {cs : List Char} (hp : c :: cs <+: (g :: gs).map Glyph.char) :
      g.char = c := (List.cons_prefix_cons.1 hp).1.symm
  cases h with
  | text | opening | closing => cases hs
  | word hn | keyword hn _ =>
    cases lexeme with
    | nil => cases hn
    | cons c cs =>
      refine .inr (.inr (.inl ?_))
      rw [Glyph.startsWord, one hp]
      exact (Bool.and_eq_true_iff.1 hn).1
  | string hq _ => exact .inl (one hp ▸ hq)
  | @int negative digits _ hd _ =>
    rw [← List.append_nil (minus negative ++ digits)] at hp
    exact .inr (.inl (number_starts hd hp))
  | float hd _ => exact .inr (.inl (number_starts hd hp))
  | thousands _ => exact .inr (.inr (.inr (.inl (one hp))))
  | compare op => exact .inr (.inr (.inr (.inr (compare_starts hp))))
  | dot | comma | leftParen | rightParen | leftBracket | rightBracket | pipe =>
    refine .inr (.inr (.inr (.inr ?_)))
    rw [one hp]
    exact ⟨_, rfl⟩

theorem readSign_error {c : Char} {cause : Cause} (h : readSign c gs = .error cause) :
    c = ':' ∧ readThousands gs = .error cause ∨ c ≠ ':' ∧ cause = .unexpectedCharacter c := by
  unfold readSign at h
  split at h
  case h_5 => exact .inl ⟨rfl, h⟩
  case h_1 | h_2 =>
    split at h
    · cases h
    · cases h
      exact .inr ⟨by decide, rfl⟩
  case h_13 =>
    rename_i hcolon _ _ _ _ _ _ _
    cases h
    exact .inr ⟨hcolon, rfl⟩
  all_goals cases h

theorem readSymbol_faulty {g : Glyph} {cause : Cause}
    (h : readSymbol afterDot g gs = .error cause) :
    Faulty cause ((g :: gs).map Glyph.char) := by
  unfold readSymbol at h
  split at h
  · rename_i hq
    split at h
    · cases h
    · rename_i hr
      cases h
      exact readQuoted_faulty (by simpa using hq) hr
  rename_i hquote
  split at h
  · rename_i hd
    have hd : (g :: gs).head?.any Glyph.isDigit := hd
    exact readNumber_faulty hd h
  rename_i hdigit
  split at h
  · rename_i hm
    obtain ⟨hm, hd⟩ := Bool.and_eq_true_iff.1 hm
    have hf := readNumber_faulty hd h
    rw [List.map_cons, of_decide_eq_true hm]
    exact hf
  rename_i hminus
  split at h
  · cases h
  · rename_i hword
    rcases readSign_error h with ⟨hc, ht⟩ | ⟨hc, rfl⟩
    · rw [List.map_cons, hc]
      exact readThousands_faulty ht
    · -- each way in which a symbol can start was ruled out by a test before
      refine ⟨gs.map Glyph.char, rfl, fun s lexeme hs hp hspell => ?_⟩
      rcases hspell.starts hs hp with hq | hn | hw | hcolon | ⟨r, hr⟩
      · exact hquote (by simpa using hq)
      · rcases hn with hd | ⟨hm, hd⟩
        · exact hdigit hd
        · exact hminus (by simp [hm, hd])
      · exact hword hw
      · exact hc hcolon
      · cases h.symm.trans hr

theorem Unclosed.spaces {cs : List Char} (h : Unclosed cs) {gap : List Char}
    (hg : ∀ c ∈ gap, Unicode.isSpace c) : Unclosed (gap ++ cs) := by
  induction gap with
  | nil => exact h
  | cons c gap ih =>
    obtain ⟨hc, hg⟩ := List.forall_mem_cons.1 hg
    exact .space hc (ih hg)

theorem Unclosed.skipSpaces (h : Unclosed ((skipSpaces gs).map Glyph.char)) :
    Unclosed (gs.map Glyph.char) := by
  have hs : ∀ c ∈ (gs.takeWhile Glyph.isSpace).map Glyph.char, Unicode.isSpace c := by
    intro c hc
    obtain ⟨g, hg, rfl⟩ := List.mem_map.1 hc
    exact (List.mem_takeWhile_imp hg : g.isSpace)
  have hu := h.spaces hs
  rwa [← List.map_append, Template.skipSpaces, List.takeWhile_append_dropWhile] at hu

/-- A tag fails because it does not end, which is reported at its opener, or within itself. -/
theorem readTag_fault {tag : Tag} {opener : Pos}
    (h : readTag tag opener afterDot gs = .error e) :
    (e = ⟨.unterminatedTag tag, opener⟩ ∧ Unclosed (gs.map Glyph.char)) ∨ FaultIn gs e := by
  fun_induction readTag tag opener afterDot gs with
  | case1 dot gs hs =>
    cases h
    have hu : Unclosed ((skipSpaces gs).map Glyph.char) := by
      rw [hs]
      exact .nil
    exact .inl ⟨rfl, hu.skipSpaces⟩
  | case2 => cases h
  | case3 dot gs g r hs _ cause hr =>
    cases h
    have hf : FaultIn (g :: r) ⟨cause, g.pos⟩ := ⟨[], g, r, rfl, rfl, readSymbol_faulty hr⟩
    exact .inr (hf.suffix (hs ▸ skipSpaces_suffix gs))
  | case4 dot gs g r hs _ s more hm _ e' he ih =>
    cases h
    rcases ih he with ⟨rfl, hu⟩ | hf
    · obtain ⟨lexeme, rfl, hspell⟩ := readSymbol_spelled hm
      have hl := readSymbol_lexes dot g (lexeme ++ more)
      rw [hm] at hl
      have hu : Unclosed ((skipSpaces gs).map Glyph.char) := by
        rw [hs, ← List.cons_append, List.map_append]
        exact .symbol hl hspell hu
      exact .inl ⟨rfl, hu.skipSpaces⟩
    · exact .inr (hf.suffix ((readSymbol_suffix hm).trans (hs ▸ skipSpaces_suffix gs)))
  | case5 => cases h

theorem dropComment_none (h : dropComment gs = none) :
    ¬ ['#', '}'] <:+: gs.map Glyph.char := by
  induction gs with
  | nil =>
    intro hi
    cases List.infix_nil.1 hi
  | cons g gs ih =>
    rw [dropComment] at h
    split at h
    · cases h
    · rename_i hc
      intro hi
      rcases List.infix_cons_iff.1 hi with hp | hi
      · exact hc (ends_comment_iff.2 hp)
      · exact ih h hi

theorem readOpened_fault {g k : Glyph} (ho : opens (g :: k :: gs))
    (h : readOpened g k gs = .error e) : FaultIn (g :: k :: gs) e := by
  have hg : g.char = '{' := of_decide_eq_true (Bool.and_eq_true_iff.1 ho).1
  unfold readOpened at h
  split at h
  · rename_i hc
    split at h
    · cases h
    · rename_i hd
      cases h
      refine ⟨[], g, k :: gs, rfl, rfl, ?_, ?_⟩
      · simp [hg, hc]
      · rw [List.map_cons, hg]
        exact fun hi => dropComment_none hd (infix_of_brace hi)
  · rename_i hc
    simp only at h
    split at h
    · rename_i he
      cases h
      rcases readTag_fault he with ⟨rfl, hu⟩ | hf
      · refine ⟨[], g, k :: gs, rfl, rfl, gs.map Glyph.char, ?_, hu⟩
        rw [← opener_chars ho hc]
        rfl
      · exact hf.suffix ((List.suffix_cons k gs).trans (List.suffix_cons g _))
    · cases h

theorem pieces_fault (h : pieces gs = .error e) : FaultIn gs e := by
  fun_induction pieces gs with
  | case1 =>
    rename_i gs _ g k rest hs _ he
    cases h
    obtain ⟨hgs, -, hr⟩ := splitOpener_divides gs
    rw [hs] at hgs hr
    have ho : opens (g :: k :: rest) := hr.resolve_left (List.cons_ne_nil _ _)
    exact (readOpened_fault ho he).suffix ⟨_, hgs⟩
  | case2 =>
    rename_i gs _ g k rest hs p more hp _ _ he ih
    cases h
    have hgs := (splitOpener_divides gs).1
    rw [hs] at hgs
    have hm : more <:+ g :: k :: rest :=
      ((readOpened_suffix hp).trans (List.suffix_cons k rest)).trans (List.suffix_cons g _)
    exact (ih he).suffix (hm.trans ⟨_, hgs⟩)
  | case3 => cases h
  | case4 => cases h

/-- A source that cannot be divided into tokens has a fault at a character of its own, and the
position of the error counts the lines and characters before it. -/
theorem tokenize_fault {o : Options} {source : String} (h : tokenize o source = .error e) :
    ∃ before rest, source.toList = before ++ rest ∧ rest ≠ [] ∧ e.pos = placeAfter before ∧
      Faulty e.cause rest := by
  have hf : FaultIn (glyphs source) e := by
    rw [tokenize] at h
    split at h
    · rename_i he
      cases h
      exact pieces_fault he
    · cases h
  obtain ⟨before, g, rest, hg, hp, hf⟩ := hf
  obtain ⟨hc, hl⟩ := locate_eq_append hg
  refine ⟨before.map Glyph.char, (g :: rest).map Glyph.char, hc, by simp, ?_, hf⟩
  rw [hp, pos_of_locate hl.symm]
  exact foldl_after_placeAfter [] _

end Stencil.Template
