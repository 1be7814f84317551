import Stencil.Proofs.Moved

/-! What follows a tag does not matter to its reader: more text after a source leaves the tags of
the source as they are. -/
namespace Stencil.Template

variable {gs rest : List Glyph} {s : Symbol}

/-- What ends before the list does is found in front of more text too. -/
theorem span_append {p : Glyph → Bool} (h : gs.dropWhile p ≠ []) (more : List Glyph) :
    (gs ++ more).takeWhile p = gs.takeWhile p ∧
      (gs ++ more).dropWhile p = gs.dropWhile p ++ more := by
  induction gs with
  | nil => exact absurd rfl h
  | cons g gs ih =>
    by_cases hg : p g
    · rw [List.dropWhile_cons_of_pos hg] at h
      simp [hg, ih h]
    · simp [hg]

theorem skipSpaces_append {g : Glyph} (h : skipSpaces gs = g :: rest) (more : List Glyph) :
    skipSpaces (gs ++ more) = g :: rest ++ more := by
  have hn : gs.dropWhile Glyph.isSpace ≠ [] := by
    rw [← skipSpaces, h]
    exact List.cons_ne_nil g rest
  rw [skipSpaces, (span_append hn more).2, ← skipSpaces, h]

theorem startsWith_append (c : Char) (h : gs ≠ []) (more : List Glyph) :
    startsWith c (gs ++ more) = startsWith c gs := by
  cases gs with
  | nil => exact absurd rfl h
  | cons => rfl

theorem readQuoted_append {quote : Char} {cs : List Char}
    (h : readQuoted quote gs = some (cs, rest)) (more : List Glyph) :
    readQuoted quote (gs ++ more) = some (cs, rest ++ more) := by
  fun_induction readQuoted quote gs generalizing cs with
  | case1 => cases h
  | case2 g gs hq =>
    cases h
    rw [List.cons_append, readQuoted.eq_def]
    simp [hq]
  | case3 => cases h
  | case4 g hn hs e r ih =>
    obtain ⟨⟨cs, r⟩, hr, hc⟩ := Option.map_eq_some_iff.1 h
    cases hc
    rw [List.cons_append, readQuoted.eq_def]
    simp only [if_neg hn, if_pos hs, List.cons_append, ih hr]
    rfl
  | case5 g gs hn hs ih =>
    obtain ⟨⟨cs, r⟩, hr, hc⟩ := Option.map_eq_some_iff.1 h
    cases hc
    rw [List.cons_append, readQuoted.eq_def]
    simp only [if_neg hn, if_neg hs, ih hr]
    rfl

theorem readNumber_append {afterDot negative : Bool}
    (h : readNumber afterDot negative gs = .ok (s, rest)) (hr : 2 ≤ rest.length)
    (more : List Glyph) : readNumber afterDot negative (gs ++ more) = .ok (s, rest ++ more) := by
  have hl := readNumber_length h
  have hn : gs.dropWhile Glyph.isDigit ≠ [] := by
    rw [← List.length_pos_iff_ne_nil]
    omega
  obtain ⟨ht, hd⟩ := span_append hn more
  rw [readNumber] at h ⊢
  rw [ht, hd]
  rcases hm : gs.dropWhile Glyph.isDigit with _ | ⟨p, _ | ⟨d, ms⟩⟩
  · exact absurd hm hn
  · rw [hm] at hl
    exact absurd (Nat.le_trans hr hl) (by simp)
  · rw [hm] at h
    dsimp only [List.cons_append] at h ⊢
    split at h
    · rename_i hc
      cases h
      have hn : (d :: ms).dropWhile Glyph.isDigit ≠ [] := by
        rw [← List.length_pos_iff_ne_nil]
        omega
      obtain ⟨ht, hd⟩ := span_append hn more
      rw [if_pos hc, ← List.cons_append, ht, hd]
    · rename_i hc
      rw [if_neg hc]
      split at h
      · cases h
        rfl
      · cases h

theorem readWord_append (h : readWord gs = (s, rest)) (hr : rest ≠ []) (more : List Glyph) :
    readWord (gs ++ more) = (s, rest ++ more) := by
  rw [readWord] at h
  cases h
  obtain ⟨ht, hd⟩ := span_append hr more
  rw [readWord, ht, hd]

theorem readThousands_append (h : readThousands gs = .ok (s, rest)) (more : List Glyph) :
    readThousands (gs ++ more) = .ok (s, rest ++ more) := by
  unfold readThousands at h ⊢
  split at h
  · rename_i g r hs
    rw [skipSpaces_append hs]
    dsimp only [List.cons_append]
    split at h
    · rename_i hc
      cases h
      rw [if_pos hc]
    · cases h
  · cases h

theorem readSign_append {c : Char} (h : readSign c gs = .ok (s, rest)) (hr : rest ≠ [])
    (more : List Glyph) : readSign c (gs ++ more) = .ok (s, rest ++ more) := by
  have hn : gs ≠ [] := by
    rintro rfl
    exact hr (List.suffix_nil.1 (readSign_suffix h))
  have ht : (gs ++ more).tail = gs.tail ++ more := List.tail_append_of_ne_nil hn
  unfold readSign at h ⊢
  split at h
  case h_5 => exact readThousands_append h more
  case h_13 => cases h
  all_goals first
    | cases h
      rfl
    | rw [startsWith_append '=' hn more, ht]
      split at h <;> cases h <;> simp only [*, if_true, if_false, Bool.false_eq_true]

theorem readSymbol_append {afterDot : Bool} {g : Glyph}
    (h : readSymbol afterDot g gs = .ok (s, rest)) (hr : 2 ≤ rest.length) (more : List Glyph) :
    readSymbol afterDot g (gs ++ more) = .ok (s, rest ++ more) := by
  have hl := readSymbol_length h
  have hn : rest ≠ [] := by
    rw [← List.length_pos_iff_ne_nil]
    omega
  have hg : (gs ++ more).head?.any Glyph.isDigit = gs.head?.any Glyph.isDigit := by
    cases gs with
    | nil => exact absurd (List.eq_nil_of_length_eq_zero (Nat.le_zero.1 hl)) hn
    | cons => rfl
  rw [readSymbol] at h ⊢
  rw [hg]
  split at h
  · rename_i hq
    rw [if_pos hq]
    split at h
    · rename_i hc
      cases h
      rw [readQuoted_append hc]
    · cases h
  rename_i hq
  rw [if_neg hq]
  split at h
  · rename_i hd
    rw [if_pos hd]
    exact readNumber_append h hr more
  rename_i hd
  rw [if_neg hd]
  split at h
  · rename_i hm
    rw [if_pos hm]
    exact readNumber_append h hr more
  rename_i hm
  rw [if_neg hm]
  split at h
  · rename_i hw
    have hs := readWord_append (Except.ok.inj h) hn more
    rw [if_pos hw, ← List.cons_append, hs]
  · rename_i hw
    rw [if_neg hw]
    exact readSign_append h hn more

/-- A closing delimiter takes two characters, the second of which is a brace. -/
theorem closesAt_brace {tag : Tag} {g : Glyph} (h : tag.closesAt g gs) :
    ∃ b more, gs = b :: more ∧ b.char = '\x7d' := by
  cases gs with
  | nil => cases tag <;> simp [Tag.closesAt, startsWith] at h
  | cons b more => cases tag <;> simp_all [Tag.closesAt, startsWith]

theorem closesAt_append (tag : Tag) (g : Glyph) (h : gs ≠ []) (more : List Glyph) :
    tag.closesAt g (gs ++ more) = tag.closesAt g gs := by
  cases tag <;> simp [Tag.closesAt, startsWith_append _ h]

variable {tag : Tag} {opener : Pos} {afterDot : Bool} {tokens : List Token}

/-- A tag ends with a brace. -/
theorem readTag_brace (h : readTag tag opener afterDot gs = .ok (tokens, rest)) :
    ∃ g b, [g, b] ++ rest <:+ gs ∧ b.char = '\x7d' := by
  fun_induction readTag tag opener afterDot gs generalizing tokens with
  | case1 => cases h
  | case2 dot gs g r hs hc =>
    cases h
    obtain ⟨b, more, rfl, hb⟩ := closesAt_brace hc
    have hsuf := skipSpaces_suffix gs
    rw [hs] at hsuf
    exact ⟨g, b, hsuf, hb⟩
  | case3 => cases h
  | case4 => cases h
  | case5 dot gs g r hs hc s more hm hlt tokens rest hr ih =>
    cases h
    obtain ⟨g', b, hsuf, hb⟩ := ih hr
    exact ⟨g', b, hsuf.trans ((readSymbol_suffix hm).trans (hs ▸ skipSpaces_suffix gs)), hb⟩

theorem readTag_append (h : readTag tag opener afterDot gs = .ok (tokens, rest))
    (later : List Glyph) :
    readTag tag opener afterDot (gs ++ later) = .ok (tokens, rest ++ later) := by
  fun_induction readTag tag opener afterDot gs generalizing tokens with
  | case1 => cases h
  | case2 dot gs g r hs hc =>
    cases h
    obtain ⟨b, more, rfl, _⟩ := closesAt_brace hc
    rw [readTag_eq, skipSpaces_append hs]
    dsimp only [List.cons_append]
    rw [← List.cons_append, closesAt_append _ _ (List.cons_ne_nil b more), if_pos hc]
    rfl
  | case3 => cases h
  | case4 => cases h
  | case5 dot gs g r hs hc s more hm hlt tokens rest hr ih =>
    cases h
    obtain ⟨_, _, hsuf, _⟩ := readTag_brace hr
    have hl : 2 ≤ more.length := Nat.le_trans (by simp) hsuf.length_le
    have hn : r ≠ [] := by
      have := readSymbol_length hm
      rw [← List.length_pos_iff_ne_nil]
      omega
    rw [readTag_eq, skipSpaces_append hs]
    dsimp only [List.cons_append]
    rw [closesAt_append _ _ hn, if_neg hc, readSymbol_append hm hl]
    dsimp only
    rw [ih hr]

theorem dropComment_brace (h : dropComment gs = some rest) :
    ∃ g b, [g, b] ++ rest <:+ gs ∧ b.char = '\x7d' := by
  induction gs with
  | nil => cases h
  | cons g gs ih =>
    rw [dropComment] at h
    split at h
    · cases h
      cases gs with
      | nil => simp_all [startsWith]
      | cons b gs => exact ⟨g, b, List.suffix_rfl, by simp_all [startsWith]⟩
    · obtain ⟨c, b, hs, hb⟩ := ih h
      exact ⟨c, b, hs.trans (List.suffix_cons g gs), hb⟩

theorem dropComment_append (h : dropComment gs = some rest) (later : List Glyph) :
    dropComment (gs ++ later) = some (rest ++ later) := by
  induction gs with
  | nil => cases h
  | cons g gs ih =>
    have hn : gs ≠ [] := by
      rintro rfl
      simp [dropComment, startsWith] at h
    rw [dropComment] at h
    rw [List.cons_append, dropComment, startsWith_append _ hn, List.tail_append_of_ne_nil hn]
    split at h
    · rename_i hc
      cases h
      rw [if_pos hc]
    · rename_i hc
      rw [if_neg hc, ih h]

variable {g k : Glyph} {p : Piece}

theorem readOpened_append (h : readOpened g k gs = .ok (p, rest)) (later : List Glyph) :
    readOpened g k (gs ++ later) = .ok (p, rest ++ later) := by
  rw [readOpened] at h ⊢
  split at h
  · rename_i hk
    rw [if_pos hk]
    split at h
    · rename_i hc
      cases h
      rw [← List.cons_append, dropComment_append hc]
    · cases h
  · rename_i hk
    rw [if_neg hk]
    dsimp only at h ⊢
    split at h
    · cases h
    · rename_i ht
      cases h
      rw [readTag_append ht]

theorem readOpened_brace {body : List Glyph} (h : readOpened g k (body ++ rest) = .ok (p, rest)) :
    ∃ a b, body = a ++ [b] ∧ b.char = '\x7d' := by
  have hb : ∃ b, b :: rest <:+ body ++ rest ∧ b.char = '\x7d' := by
    rw [readOpened] at h
    split at h
    · split at h
      · rename_i hc
        cases h
        obtain ⟨c, b, ⟨a, ha⟩, hb⟩ := dropComment_brace hc
        cases a with
        | nil => exact ⟨b, (List.cons.inj ha).2 ▸ List.suffix_rfl, hb⟩
        | cons x a => exact ⟨b, ⟨a ++ [c], by simpa using (List.cons.inj ha).2⟩, hb⟩
      · cases h
    · dsimp only at h
      split at h
      · cases h
      · rename_i ht
        cases h
        obtain ⟨c, b, hs, hb⟩ := readTag_brace ht
        exact ⟨b, (List.suffix_cons c _).trans hs, hb⟩
  obtain ⟨b, ⟨a, ha⟩, hb⟩ := hb
  have he : body ++ rest = (a ++ [b]) ++ rest := by
    rw [← ha, List.append_assoc, List.singleton_append]
  exact ⟨a, b, List.append_cancel_right he, hb⟩

def endsLine (gs : List Glyph) : Bool := gs.getLast?.any isLineFeed

theorem endsLine_append (as : List Glyph) {bs : List Glyph} (h : bs ≠ []) :
    endsLine (as ++ bs) = endsLine bs := by
  rw [endsLine, List.getLast?_append_of_ne_nil as h, endsLine]

/-- A tag does not end a line. -/
theorem endsLine_rest {text body : List Glyph} (h : readOpened g k (body ++ rest) = .ok (p, rest))
    (hl : endsLine (text ++ (g :: k :: body ++ rest))) : endsLine rest := by
  obtain ⟨a, b, rfl, hb⟩ := readOpened_brace h
  cases rest with
  | nil =>
    rw [endsLine_append _ (by simp), List.append_nil, ← List.cons_append, ← List.cons_append,
      endsLine_append _ (List.cons_ne_nil b [])] at hl
    simp [endsLine, isLineFeed, hb] at hl
  | cons x rest =>
    rwa [← List.append_assoc, endsLine_append _ (List.cons_ne_nil x rest)] at hl

/-- What ends in a line feed ends in a text that does. -/
theorem Layout.endsLine {ps : List Piece} (h : Layout gs ps) (hl : endsLine gs) :
    ∃ before text, ps = before ++ [.text text] ∧ text <:+ gs ∧ Template.endsLine text := by
  induction h with
  | @last text _ => exact ⟨[], text, rfl, List.suffix_rfl, hl⟩
  | @tag text body rest g k p ps _ _ hp _ ih =>
    obtain ⟨before, last, rfl, hs, ht⟩ := ih (endsLine_rest hp hl)
    have hr : rest <:+ text ++ (g :: k :: body ++ rest) := ⟨text ++ g :: k :: body, by simp⟩
    exact ⟨.text text :: p :: before, last, rfl, hs.trans hr, ht⟩

theorem plain_later {text : List Glyph} (h : Plain text (g :: rest)) (later : List Glyph) :
    Plain text (g :: rest ++ later) := by
  induction text with
  | nil => exact plain_nil
  | cons x text ih =>
    obtain ⟨hx, ht⟩ := plain_cons.1 h
    refine plain_cons.2 ⟨?_, ih ht⟩
    cases text <;> exact hx

/-- No tag starts where a line ends. -/
theorem plain_append {text next : List Glyph} (h : Plain text []) (hl : endsLine text)
    (hn : Plain next rest) : Plain (text ++ next) rest := by
  induction text with
  | nil => cases hl
  | cons x text ih =>
    obtain ⟨hx, ht⟩ := plain_cons.1 h
    cases text with
    | nil =>
      have hc : x.char = '\n' := by simpa [endsLine, isLineFeed] using hl
      have ho (gs : List Glyph) : opens (x :: gs) = false := by cases gs <;> simp [opens, hc]
      exact plain_cons.2 ⟨ho _, hn⟩
    | cons y text =>
      rw [← List.singleton_append, endsLine_append _ (List.cons_ne_nil y text)] at hl
      exact plain_cons.2 ⟨hx, ih ht hl⟩

variable {hs next : List Glyph} {after : List Piece}

/-- The texts of two sources that meet at the end of a line are one text. -/
theorem Layout.append {ps before : List Piece} {text : List Glyph} (h : Layout gs ps)
    (hps : ps = before ++ [.text text]) (hl : Template.endsLine text)
    (hn : Layout hs (.text next :: after)) :
    Layout (gs ++ hs) (before ++ .text (text ++ next) :: after) := by
  induction h generalizing before with
  | @last text' ht =>
    cases before with
    | cons p before => simp at hps
    | nil =>
      cases hps
      cases hn with
      | last hu => exact .last (plain_append ht hl hu)
      | @tag _ body rest g k p ps hu ho hp hr =>
        rw [← List.append_assoc]
        exact .tag (plain_append ht hl hu) ho hp hr
  | @tag text' body rest g k p ps ht ho hp _ ih =>
    -- a tag comes after the first text, so that the last text is another one
    match before with
    | [] => simp at hps
    | [_] =>
      cases hps
      exact absurd rfl (readOpened_not_text hp)
    | _ :: _ :: before =>
      cases hps
      have hp := readOpened_append hp hs
      rw [List.append_assoc] at hp
      have ht : Plain text' (g :: k :: body ++ (rest ++ hs)) := by simpa using plain_later ht hs
      have hlayout := Layout.tag ht ho hp (ih rfl)
      simpa using hlayout

theorem pieces_later_error {ps : List Piece} {e : ParseError} (h : Layout gs ps)
    (hl : Template.endsLine gs) (he : pieces hs = .error e) : pieces (gs ++ hs) = .error e := by
  induction h with
  | @last text ht =>
    rcases pieces_cases hs with ⟨_, _, hp⟩ | ⟨next, g, k, rest, hs', hp⟩
    · rw [hp] at he
      cases he
    · obtain ⟨hn, hd, ho⟩ := splitOpener_divides hs
      rw [hs'] at hn hd ho
      have hsplit : splitOpener (text ++ hs) = (text ++ next, g :: k :: rest) := by
        rw [← hn, ← List.append_assoc]
        exact splitOpener_plain (plain_append ht hl hd) ho
      rw [hp] at he
      rw [pieces_opened hsplit]
      cases hr : readOpened g k rest with
      | error e' =>
        rw [hr] at he
        exact he
      | ok r =>
        rw [hr] at he
        simp only [Except.bind] at he ⊢
        cases hq : pieces r.2 with
        | error e' =>
          rw [hq] at he
          exact he
        | ok ps =>
          rw [hq] at he
          cases he
  | @tag text body rest g k p ps ht ho hp _ ih =>
    have ht : Plain text (g :: k :: body ++ rest ++ hs) := plain_later ht hs
    have hsplit : splitOpener (text ++ (g :: k :: body ++ rest) ++ hs) =
        (text, g :: k :: (body ++ rest ++ hs)) := by
      rw [List.append_assoc]
      exact splitOpener_plain ht (.inr ho)
    rw [pieces_opened hsplit, readOpened_append hp hs]
    dsimp only [Except.bind]
    rw [ih (endsLine_rest hp hl)]
    rfl

end Stencil.Template
