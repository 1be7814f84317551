import Stencil.Proofs.LaterText
import Stencil.Proofs.Places
import Stencil.Proofs.Stream

/-! Two sources one after the other, the first of full lines. The tokens of the whole are those of
the first and then those of the second, where a text that ends the first and one that begins the
second become one text. -/
namespace Stencil.Template

/-- Tokens one after the other. Two texts that touch become one. Texts with a comment or trimmed
white space between them do not touch, and stay two. -/
def join (ts us : List Token) : List Token :=
  match ts.getLast?, us with
  | some ⟨.text s, p⟩, ⟨.text t, q⟩ :: more =>
    if p.past s = q then ts.dropLast ++ ⟨.text (s ++ t), p⟩ :: more else ts ++ us
  | _, _ => ts ++ us

theorem join_touching (ts : List Token) (s t : String) (p : Pos) (us : List Token) :
    join (ts ++ [⟨.text s, p⟩]) (⟨.text t, p.past s⟩ :: us) =
      ts ++ ⟨.text (s ++ t), p⟩ :: us := by
  simp [join]

theorem join_apart {ts us : List Token}
    (h : ∀ t ∈ ts, ∀ u ∈ us, ∀ s v, t.symbol = .text s → u.symbol = .text v →
      t.pos.past s ≠ u.pos) : join ts us = ts ++ us := by
  unfold join
  split
  · rename_i s p t q more ht
    rw [if_neg]
    exact h _ (List.mem_of_getLast? ht) _ List.mem_cons_self s t rfl rfl
  · rfl

variable {o : Options} {before after : List Piece} {gs hs text next : List Glyph}

/-- A text loses white space by whether anything comes next, and whether it is a block tag or a
comment. -/
theorem kept_congr {after' : List Piece} (he : after.isEmpty = after'.isEmpty)
    (hb : after.head?.any Piece.isBlock = after'.head?.any Piece.isBlock) :
    kept o before gs after = kept o before gs after' := by
  have ht : trimmed o before gs after = trimmed o before gs after' := by
    rw [trimmed, trimmed, trims, trims, he]
  rw [kept, kept, ht, hb]

theorem trimmed_suffix : trimmed o before gs after <:+ gs := by
  rw [trimmed]
  split
  · exact List.drop_suffix _ _
  · exact List.suffix_rfl

theorem kept_infix : kept o before gs after <:+: gs := by
  rw [kept]
  split
  · exact (List.rdropWhile_prefix _ _).isInfix.trans trimmed_suffix.isInfix
  · exact trimmed_suffix.isInfix

theorem settled_text_nil : settled o before [.text []] = [] := by
  have hk : kept o before [] [] = [] := List.infix_nil.1 kept_infix
  rw [settled, hk]
  rfl

/-- The tokens before a text do not depend on it. -/
theorem settled_append (o : Options) (before xs : List Piece) (text : List Glyph)
    (after : List Piece) :
    settled o before (xs ++ .text text :: after) =
      settled o before (xs ++ [.text []]) ++ settled o (before ++ xs) (.text text :: after) := by
  induction xs generalizing before with
  | nil => simp [settled_text_nil]
  | cons p xs ih =>
    have ih := ih (before ++ [p])
    rw [List.append_assoc, List.singleton_append] at ih
    cases p with
    | comment => exact ih
    | tag tag tokens =>
      refine Eq.trans ?_ (List.append_assoc tokens _ _).symm
      exact congrArg (tokens ++ ·) ih
    | text gs =>
      have hk : kept o before gs (xs ++ .text text :: after) =
          kept o before gs (xs ++ [.text []]) :=
        kept_congr (by cases xs <;> rfl) (by cases xs <;> rfl)
      refine Eq.trans ?_ (List.append_assoc (textTokens _) _ _).symm
      exact congrArg₂ (textTokens · ++ ·) hk ih

theorem settled_congr {earlier : List Piece} (hc : clean before = clean earlier)
    (hb : before.getLast?.any Piece.isBlock = earlier.getLast?.any Piece.isBlock)
    (ps : List Piece) : settled o before ps = settled o earlier ps := by
  rw [← settle_eq_settled, ← settle_eq_settled, hc, hb]

theorem endsLine_any (h : endsLine text) : text.any isLineFeed := by
  rw [endsLine] at h
  cases hg : text.getLast? with
  | none => simp [hg] at h
  | some g =>
    rw [hg] at h
    exact List.any_eq_true.2 ⟨g, List.mem_of_getLast? hg, h⟩

theorem lineLength_append (h : text.any isLineFeed) (next : List Glyph) :
    lineLength (text ++ next) = lineLength text ∧ lineLength text ≤ text.length := by
  have hd : text.dropWhile (!isLineFeed ·) ≠ [] := by
    obtain ⟨g, hg, hf⟩ := List.any_eq_true.1 h
    intro hn
    have := List.dropWhile_eq_nil_iff.1 hn g hg
    simp [hf] at this
  constructor
  · rw [lineLength, (span_append hd next).1, lineLength]
  · have hl := congrArg List.length
      (List.takeWhile_append_dropWhile (p := (!isLineFeed ·)) (l := text))
    have hp := List.length_pos_iff_ne_nil.2 hd
    rw [List.length_append] at hl
    rw [lineLength]
    omega

/-- What is dropped at the start of a full line does not depend on the next line. -/
theorem trimmed_append (hl : text.any isLineFeed) (next : List Glyph) (after : List Piece) :
    trimmed o before (text ++ next) after = trimmed o before text [] ++ next := by
  obtain ⟨hn, hle⟩ := lineLength_append hl next
  have ht : trims o before (text ++ next) after = trims o before text [] := by
    rw [trims, trims, hn, List.take_append_of_le_length hle, List.any_append, hl]
    simp
  rw [trimmed, trimmed, ht, hn, List.drop_append_of_le_length hle]
  split <;> rfl

theorem lastLine_endsLine (h : endsLine text) : lastLine text = [] := by
  refine List.rtakeWhile_eq_nil_iff.2 fun hn => ?_
  rw [endsLine, List.getLast?_eq_getLast_of_ne_nil hn] at h
  simpa using h

theorem lastLine_suffix (h : lastLine text = []) (hs : gs <:+ text) : lastLine gs = [] := by
  obtain ⟨as, rfl⟩ := hs
  refine List.rtakeWhile_eq_nil_iff.2 fun hn => ?_
  have hl := List.rtakeWhile_eq_nil_iff.1 h (List.append_ne_nil_of_right_ne_nil as hn)
  rwa [List.getLast_append_of_right_ne_nil _ _ hn] at hl

/-- The last line of a text that follows full lines is its own. -/
theorem lastLine_lines (h : lastLine text = []) (next : List Glyph) :
    lastLine (text ++ next) = lastLine next ∧
      fullLines (text ++ next) = text ++ fullLines next := by
  have hl : lastLine (text ++ next) = lastLine next := by
    by_cases hn : next.any isLineFeed
    · exact lastLine_append text hn
    · have hn : next.any isLineFeed = false := Bool.eq_false_iff.2 hn
      have ha : lastLine (text ++ next) = lastLine text ++ next :=
        rtakeWhile_append_of_all text fun g hg => by simpa using List.any_eq_false.1 hn g hg
      rw [ha, h, lastLine_eq_self hn, List.nil_append]
  refine ⟨hl, ?_⟩
  have hf := fullLines_append_lastLine (text ++ next)
  have hn : text ++ next = text ++ fullLines next ++ lastLine next := by
    rw [List.append_assoc, fullLines_append_lastLine]
  rw [hl] at hf
  exact List.append_cancel_right (hf.trans hn)

/-- The line that follows a full line is clean, or not, by itself. -/
theorem clean_endsLine (hl : endsLine text) (next : List Glyph) :
    clean (before ++ [.text (text ++ next)]) = clean [.text next] := by
  have hn := clean_text [] next
  rw [List.nil_append] at hn
  rw [hn, clean_text, (lastLine_lines (lastLine_endsLine hl) next).1, List.any_append,
    endsLine_any hl]
  simp [clean]

theorem kept_last : kept o before text [] = trimmed o before text [] := by simp [kept]

theorem trimmed_first : trimmed o [] next after = next := by simp [trimmed, trims]

/-- A text can be cut at the end of a line: what is kept of it is what is kept of its parts. -/
theorem kept_append (hl : endsLine text) (next : List Glyph) (after : List Piece) :
    kept o before (text ++ next) after = kept o before text [] ++ kept o [] next after := by
  have hsuf : trimmed o before text [] <:+ text := trimmed_suffix
  have hs := lastLine_suffix (lastLine_endsLine hl) hsuf
  obtain ⟨hline, hfull⟩ := lastLine_lines hs next
  rw [kept_last, kept, kept, trimmed_append (endsLine_any hl), trimmed_first, clean_endsLine hl,
    hline, hfull]
  simp only [List.nil_append]
  split <;> rfl

def Piece.tokens : Piece → List Token
  | .tag _ tokens => tokens
  | _ => []

variable {g k : Glyph} {p : Piece} {ps : List Piece} {rest : List Glyph}

theorem settled_opened (h : readOpened g k gs = .ok (p, rest)) (ps : List Piece) :
    settled o before (p :: ps) = p.tokens ++ settled o (before ++ [p]) ps := by
  cases p with
  | text gs => exact absurd rfl (readOpened_not_text h)
  | _ => rfl

theorem readOpened_no_text (h : readOpened g k gs = .ok (p, rest)) {t : Token}
    (ht : t ∈ p.tokens) (s : String) : t.symbol ≠ .text s := by
  rcases readOpened_tokens h with rfl | ⟨tag, inner, q, hi, rfl⟩
  · cases ht
  · intro hs
    rcases List.mem_cons.1 ht with rfl | ht
    · cases hs
    rcases List.mem_append.1 ht with ht | ht
    · have hi := hi t ht
      rw [hs] at hi
      cases hi
    · rw [List.mem_singleton.1 ht] at hs
      cases hs

theorem mem_textTokens {t : Token} :
    t ∈ textTokens gs ↔ ∃ g gs', gs = g :: gs' ∧ t = ⟨.text (textOf gs), g.pos⟩ := by
  cases gs with
  | nil => simp [textTokens]
  | cons g gs => simp [textTokens]

/-- A text starts at a character of the source. -/
theorem text_starts (h : Layout gs ps) {t : Token} (ht : t ∈ settled o before ps) {s : String}
    (hs : t.symbol = .text s) : ∃ x ∈ gs, t.pos = x.pos := by
  have of_text {text : List Glyph} {before after : List Piece}
      (ht : t ∈ textTokens (kept o before text after)) : ∃ x ∈ text, t.pos = x.pos := by
    obtain ⟨g, gs', hg, rfl⟩ := mem_textTokens.1 ht
    exact ⟨g, kept_infix.mem (hg ▸ List.mem_cons_self), rfl⟩
  induction h generalizing before with
  | last =>
    rw [settled, settled, List.append_nil] at ht
    exact of_text ht
  | @tag text body rest g k p ps _ _ hp _ ih =>
    rw [settled, settled_opened hp] at ht
    rcases List.mem_append.1 ht with ht | ht
    · obtain ⟨x, hx, hpos⟩ := of_text ht
      exact ⟨x, List.mem_append_left _ hx, hpos⟩
    rcases List.mem_append.1 ht with ht | ht
    · exact absurd hs (readOpened_no_text hp ht s)
    · obtain ⟨x, hx, hpos⟩ := ih ht
      exact ⟨x, by simp [hx], hpos⟩

/-- A text before the last one ends where a character of the source stands. -/
theorem text_ends (h : Layout gs ps) (hps : ps = before ++ [.text text]) (hl : Located gs)
    {earlier : List Piece} {t : Token} (ht : t ∈ settled o earlier (before ++ [.text []]))
    {s : String} (hs : t.symbol = .text s) : ∃ x ∈ gs, t.pos.past s = x.pos := by
  induction h generalizing before earlier with
  | last =>
    cases before with
    | cons p before => simp at hps
    | nil =>
      rw [List.nil_append, settled_text_nil] at ht
      cases ht
  | @tag text' body rest g k p ps _ _ hp _ ih =>
    match before with
    | [] => simp at hps
    | [_] =>
      cases hps
      exact absurd rfl (readOpened_not_text hp)
    | _ :: _ :: before =>
      cases hps
      rw [List.cons_append, List.cons_append, settled, settled_opened hp] at ht
      rcases List.mem_append.1 ht with ht | ht
      · obtain ⟨x, w, hx, rfl⟩ := mem_textTokens.1 ht
        cases hs
        rw [hx]
        exact hl.past_infix (hx ▸ kept_infix)
      rcases List.mem_append.1 ht with ht | ht
      · exact absurd hs (readOpened_no_text hp ht s)
      · obtain ⟨x, hx, hpos⟩ := ih rfl (hl.of_infix ⟨text' ++ g :: k :: body, [], by simp⟩) ht
        exact ⟨x, by simp [hx], hpos⟩

/-- A text that does not come first starts at a character other than the first. -/
theorem later_text_starts (h : Layout hs (.text next :: after)) {t : Token}
    (ht : t ∈ settled o before after) {s : String} (hs' : t.symbol = .text s) :
    ∃ x more, hs = x :: more ∧ ∃ y ∈ more, t.pos = y.pos := by
  cases h with
  | last => cases ht
  | @tag _ body rest g k p ps _ _ hp hr =>
    rw [settled_opened hp] at ht
    rcases List.mem_append.1 ht with ht | ht
    · exact absurd hs' (readOpened_no_text hp ht s)
    · obtain ⟨y, hy, hpos⟩ := text_starts hr ht hs'
      cases next with
      | nil => exact ⟨g, _, rfl, y, by simp [hy], hpos⟩
      | cons x next => exact ⟨x, _, rfl, y, by simp [hy], hpos⟩

theorem textOf_append (as bs : List Glyph) : textOf (as ++ bs) = textOf as ++ textOf bs := by
  simp [textOf]

theorem Layout.text_start (h : Layout hs (.text next :: after)) : next <+: hs := by
  cases h with
  | last => exact List.prefix_rfl
  | tag => exact List.prefix_append ..

/-- Of two texts on either side of a seam the tokens are joined, and no others are: those in front
end at characters before the seam, and those behind start at characters after the first one. -/
theorem join_seam {left right : List Glyph} {front back : List Token} (hl : Located (gs ++ hs))
    (hleft : left <:+ gs) (hright : right <+: hs)
    (hf : ∀ t ∈ front, ∀ s, t.symbol = .text s → ∃ x ∈ gs, t.pos.past s = x.pos)
    (hb : ∀ t ∈ back, ∀ s, t.symbol = .text s →
      ∃ x more, hs = x :: more ∧ ∃ y ∈ more, t.pos = y.pos) :
    join (front ++ textTokens left) (textTokens right ++ back) =
      front ++ (textTokens (left ++ right) ++ back) := by
  obtain ⟨as, rfl⟩ := hleft
  cases left with
  | nil =>
    have hr : ∀ t ∈ textTokens right ++ back, ∀ s, t.symbol = .text s →
        ∃ y ∈ hs, t.pos = y.pos := by
      intro t ht s hs'
      rcases List.mem_append.1 ht with ht | ht
      · obtain ⟨y, w, rfl, rfl⟩ := mem_textTokens.1 ht
        exact ⟨y, hright.mem List.mem_cons_self, rfl⟩
      · obtain ⟨x, more, rfl, y, hy, hpos⟩ := hb t ht s hs'
        exact ⟨y, List.mem_cons_of_mem x hy, hpos⟩
    rw [textTokens, List.append_nil, List.nil_append, join_apart]
    intro t ht u hu s v hs hv
    obtain ⟨x, hx, hpast⟩ := hf t ht s hs
    obtain ⟨y, hy, hpos⟩ := hr u hu v hv
    rw [hpast, hpos]
    exact hl.ne hx hy
  | cons x w =>
    have hw {ys : List Glyph} (h : ys <+: hs) : Located (x :: w ++ ys) := by
      obtain ⟨zs, rfl⟩ := h
      exact hl.of_infix ⟨as, zs, by simp⟩
    cases right with
    | nil =>
      rw [List.append_nil, textTokens, textTokens, List.nil_append, join_apart, List.append_assoc]
      intro t ht u hu s v hs' hv
      obtain ⟨z, more, rfl, y, hy, hpos⟩ := hb u hu v hv
      rw [hpos]
      rcases List.mem_append.1 ht with ht | ht
      · obtain ⟨x, hx, hpast⟩ := hf t ht s hs'
        rw [hpast]
        exact hl.ne hx (List.mem_cons_of_mem z hy)
      · cases List.mem_singleton.1 ht
        cases hs'
        have hz : Located ([z] ++ more) := hl.of_infix ⟨as ++ x :: w, [], by simp⟩
        rw [(hw List.prefix_rfl).past]
        exact hz.ne List.mem_cons_self hy
    | cons y v =>
      have hj := join_touching front (textOf (x :: w)) (textOf (y :: v)) x.pos back
      rw [(hw hright).past, ← textOf_append] at hj
      exact hj

/-- The tokens of two layouts that meet at the end of a line. -/
theorem settled_join (hg : Layout gs (before ++ [.text text])) (hs' : text <:+ gs)
    (ht : endsLine text) (hh : Layout hs (.text next :: after)) (hl : Located (gs ++ hs)) :
    settled o [] (before ++ .text (text ++ next) :: after) =
      join (settled o [] (before ++ [.text text])) (settled o [] (.text next :: after)) := by
  have hb : settled o (before ++ [.text (text ++ next)]) after = settled o [.text next] after :=
    settled_congr (clean_endsLine ht next) (by simp [Piece.isBlock]) after
  rw [settled_append o [] before, settled_append o [] before text []]
  simp only [settled, List.nil_append, List.append_nil]
  rw [hb, kept_append ht]
  refine (join_seam hl ?_ ?_ ?_ ?_).symm
  · rw [kept_last]
    exact trimmed_suffix.trans hs'
  · rw [kept, trimmed_first]
    split
    · exact (List.rdropWhile_prefix _ _).trans hh.text_start
    · exact hh.text_start
  · intro t ht s hsym
    exact text_ends hg rfl (hl.of_infix (List.prefix_append gs hs).isInfix) ht hsym
  · intro t ht s hsym
    exact later_text_starts hh ht hsym

theorem tokensOf_of_layout (o : Options) (h : Layout gs ps) :
    tokensOf o gs = .ok (settled o [] ps) := by
  rw [tokensOf, h.pieces]
  exact congrArg Except.ok ((settle_shown h false false).trans (settle_eq_settled o [] ps))

theorem Layout.first_text (h : Layout gs ps) : ∃ text after, ps = .text text :: after := by
  cases h with
  | last => exact ⟨_, _, rfl⟩
  | tag => exact ⟨_, _, rfl⟩

/-- What follows full lines is read by itself. -/
theorem tokensOf_append {ts : List Token} (hl : Located (gs ++ hs)) (he : endsLine gs)
    (h : tokensOf o gs = .ok ts) : tokensOf o (gs ++ hs) = (tokensOf o hs).map (join ts) := by
  cases hq : pieces gs with
  | error e =>
    rw [tokensOf, hq] at h
    cases h
  | ok qs =>
    obtain ⟨ps, hg, _⟩ := layout_of_pieces hq
    rw [tokensOf_of_layout o hg] at h
    cases h
    cases hr : pieces hs with
    | error e =>
      rw [tokensOf, tokensOf, hr, pieces_later_error hg he hr]
      rfl
    | ok rs =>
      obtain ⟨ps', hh, _⟩ := layout_of_pieces hr
      obtain ⟨next, after, rfl⟩ := hh.first_text
      obtain ⟨before, text, rfl, hs', ht⟩ := hg.endsLine he
      rw [tokensOf_of_layout o hh, tokensOf_of_layout o (hg.append rfl ht hh),
        settled_join hg hs' ht hh hl]
      rfl

end Stencil.Template
