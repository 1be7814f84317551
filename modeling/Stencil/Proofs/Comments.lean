import Stencil.Proofs.LexicalErrors
import Stencil.Proofs.TouchingTexts

/-! Comments leave no trace. A line that holds nothing but a comment has no tokens, so that a source
says the same with it and without it. -/
namespace Stencil.Template

def commentLine (indent body : String) : String := indent ++ "\x7b#" ++ body ++ "#\x7d\n"

/-- A comment body ends where its closing delimiter starts. The `#` of the opener counts as the
first half of a closer, so that a body does not start with a brace. -/
def IsCommentBody (body : String) : Prop :=
  ¬ ['#', '}'] <:+: body.toList ∧ ¬ ['}'] <+: body.toList

instance (body : String) : Decidable (IsCommentBody body) :=
  inferInstanceAs (Decidable (_ ∧ _))

variable {gs rest : List Glyph} {indent body : String}

/-- A comment is read up to its first closer. -/
theorem dropComment_closed {cs : List Char} (hc : ¬ ['#', '}'] <:+: cs)
    (hg : gs.map Glyph.char = cs ++ ['#', '}']) : dropComment gs = some [] := by
  induction cs generalizing gs with
  | nil =>
    obtain ⟨g, k, rfl, hg, hk⟩ := two_glyphs hg
    simp [dropComment, startsWith, hg, hk]
  | cons c cs ih =>
    obtain ⟨g, gs, rfl, rfl, htail⟩ := List.map_eq_cons_iff.1 hg
    have hn : ¬ ['#', '}'] <+: (g :: gs).map Glyph.char := by
      rw [hg]
      intro hp
      cases cs with
      | nil => simp at hp
      | cons d cs =>
        obtain ⟨rest, hp⟩ := hp
        obtain ⟨hc', hp⟩ := List.cons.inj hp
        obtain ⟨hd, -⟩ := List.cons.inj hp
        exact hc ⟨[], cs, by rw [← hc', ← hd]; rfl⟩
    rw [dropComment, if_neg (ends_comment_iff.not.2 hn)]
    exact ih (fun hi => hc (hi.trans (List.suffix_cons _ _).isInfix)) htail

theorem IsCommentBody.hash (h : IsCommentBody body) : ¬ ['#', '}'] <:+: '#' :: body.toList := by
  intro hi
  rcases List.infix_cons_iff.1 hi with hp | hi
  · exact h.2 (List.cons_prefix_cons.1 hp).2
  · exact h.1 hi

theorem plain_of_no_brace (h : ∀ g ∈ gs, g.char ≠ '{') : Plain gs rest := by
  rintro before g after rfl
  have hg := h g (by simp)
  cases ha : after ++ rest with
  | nil => simp [opens, ha]
  | cons k more => simp [opens, ha, hg]

/-- An indented comment and the end of its line. -/
theorem layout_commentLine (hi : ∀ c ∈ indent.toList, c = ' ' ∨ c = '\t') (hb : IsCommentBody body)
    (hg : gs.map Glyph.char = (commentLine indent body).toList) :
    ∃ text nl, text.all isIndent ∧ isLineFeed nl ∧
      Layout gs [.text text, .comment, .text [nl]] := by
  have hl : (commentLine indent body).toList =
      indent.toList ++ ('{' :: '#' :: ((body.toList ++ ['#', '}']) ++ ['\n'])) := by
    simp [commentLine]
  rw [hl] at hg
  obtain ⟨text, more, rfl, ht, hg⟩ := List.map_eq_append_iff.1 hg
  obtain ⟨g, more, rfl, hgc, hg⟩ := List.map_eq_cons_iff.1 hg
  obtain ⟨k, more, rfl, hkc, hg⟩ := List.map_eq_cons_iff.1 hg
  obtain ⟨closed, more, rfl, hclosed, hg⟩ := List.map_eq_append_iff.1 hg
  obtain ⟨nl, rfl, hn⟩ := List.map_eq_singleton_iff.1 hg
  have hindent : ∀ g ∈ text, g.char = ' ' ∨ g.char = '\t' := fun g hm =>
    hi _ (ht ▸ List.mem_map_of_mem hm)
  have hread : readOpened g k (closed ++ [nl]) = .ok (.comment, [nl]) := by
    have hd : dropComment (k :: closed) = some [] := by
      refine dropComment_closed hb.hash ?_
      rw [List.map_cons, hkc, hclosed, List.cons_append]
    rw [readOpened, if_pos hkc, ← List.cons_append, dropComment_append hd]
    rfl
  refine ⟨text, nl, ?_, ?_, .tag (plain_of_no_brace ?_) ?_ hread (.last (plain_of_no_brace ?_))⟩
  · refine List.all_eq_true.2 fun g hm => ?_
    rcases hindent g hm with h | h <;> simp [isIndent, h]
  · simp [isLineFeed, hn]
  · intro g hm hc
    rcases hindent g hm with h | h <;> simp [h] at hc
  · simp [opens, opensTag, hgc, hkc]
  · simp [hn]

/-- The indentation goes with the comment, and so does the end of the line. -/
theorem settled_commentLine {text : List Glyph} {nl : Glyph} (ht : text.all isIndent)
    (hn : isLineFeed nl) :
    settled ⟨true, true⟩ [] [.text text, .comment, .text [nl]] = [] := by
  have hf : text.any isLineFeed = false := by
    refine List.any_eq_false.2 fun g hg => ?_
    have hi := List.all_eq_true.1 ht g hg
    simp only [isIndent, Bool.or_eq_true, decide_eq_true_eq] at hi
    rcases hi with h | h <;> simp [isLineFeed, h]
  have hl := lastLine_eq_self hf
  have hclean : clean [.text text] := by
    have hc := clean_text [] text
    rw [List.nil_append, hl, isSpace_of_indent ht] at hc
    rw [hc, hf]
    rfl
  have hfull : fullLines text = [] := by
    have ha := fullLines_append_lastLine text
    rw [hl] at ha
    simpa using ha
  have hindent : kept ⟨true, true⟩ [] text [.comment, .text [nl]] = [] := by
    simp [kept, trimmed_first, hl, ht, hfull, hclean, Piece.isBlock]
  have hline : kept ⟨true, true⟩ [.text text, .comment] [nl] [] = [] := by
    have hs : isTrimmable nl := by
      simp only [isLineFeed, decide_eq_true_eq] at hn
      simp [isTrimmable, hn]
    simp [kept_last, trimmed, trims, hclean, Piece.isBlock, lineLength, hn, hs]
  simp [settled, hindent, hline, textTokens]

theorem tokenize_commentLine (hi : ∀ c ∈ indent.toList, c = ' ' ∨ c = '\t')
    (hb : IsCommentBody body) : tokenize ⟨true, true⟩ (commentLine indent body) = .ok [] := by
  obtain ⟨text, nl, ht, hn, hl⟩ := layout_commentLine hi hb (map_char_locate Pos.start _)
  rw [tokenize_of_layout _ hl, settled_commentLine ht hn]

variable {a : String} {ts : List Token}

/-- After full lines, and before whatever comes next, a line with only a comment on it changes
neither the symbols, once texts that touch are joined, nor the nodes, nor what they render to. -/
theorem comment_line_vanishes (ha : a = "" ∨ ['\n'] <:+ a.toList)
    (h : tokenize ⟨true, true⟩ a = .ok ts) (hi : ∀ c ∈ indent.toList, c = ' ' ∨ c = '\t')
    (hb : IsCommentBody body) (b : String) :
    let whole := a ++ (commentLine indent body ++ b)
    placeless ((tokenize ⟨true, true⟩ whole).map (fuse ∘ symbols)) =
        placeless ((tokenize ⟨true, true⟩ (a ++ b)).map (fuse ∘ symbols)) ∧
      placeless ((ofSource ⟨true, true⟩ whole).map letterTemplate) =
        placeless ((ofSource ⟨true, true⟩ (a ++ b)).map letterTemplate) ∧
      ∀ params, placeless ((ofSource ⟨true, true⟩ whole).map (·.render params)) =
        placeless ((ofSource ⟨true, true⟩ (a ++ b)).map (·.render params)) := by
  intro whole
  have ht : placeless ((tokenize ⟨true, true⟩ whole).map (fuse ∘ symbols)) =
      placeless ((tokenize ⟨true, true⟩ (a ++ b)).map (fuse ∘ symbols)) := by
    have hl : ['\n'] <:+ (commentLine indent body).toList :=
      ⟨(indent ++ "\x7b#" ++ body ++ "#\x7d").toList, by simp [commentLine]⟩
    rw [tokenize_append ha h, tokenize_append ha h,
      tokenize_append (.inr hl) (tokenize_commentLine hi hb)]
    cases tokenize ⟨true, true⟩ b with
    | error e => rfl
    | ok us =>
      have hs (us : List Token) :
          (fuse ∘ symbols) (join ts us) = fuse (symbols ts ++ symbols us) := fuse_join ts us
      simp only [movedBy, Except.map, hs, join_nil, symbols_moved]
  exact ⟨ht, ofSource_fused ht, render_letters (ofSource_fused ht)⟩

theorem tokenize_two_lines : tokenize ⟨true, true⟩ "x\ny" = .ok [⟨.text "x\ny", ⟨1, 1⟩⟩] := by
  have hl : Layout (glyphs "x\ny") [.text [⟨'x', ⟨1, 1⟩⟩, ⟨'\n', ⟨1, 2⟩⟩, ⟨'y', ⟨2, 1⟩⟩]] :=
    .last (plain_cons.2 ⟨rfl, plain_cons.2 ⟨rfl, plain_cons.2 ⟨rfl, plain_nil⟩⟩⟩)
  rw [tokenize_of_layout _ hl]
  decide

/-- Markers, braces and line ends in the comment do not matter. -/
theorem comment_line_vanishes_markers :
    placeless ((tokenize ⟨true, true⟩
        ("x\n" ++ (commentLine " \t" "\x7b\x7b \n\x7b% \x7d #" ++ "y"))).map (fuse ∘ symbols)) =
        .ok [.text "x\ny"] ∧
      ∀ params, placeless ((ofSource ⟨true, true⟩
        ("x\n" ++ (commentLine " \t" "\x7b\x7b \n\x7b% \x7d #" ++ "y"))).map (·.render params)) =
        .ok (.ok "x\ny") := by
  have hb : IsCommentBody "\x7b\x7b \n\x7b% \x7d #" := by
    simp only [IsCommentBody, String.reduceToList]
    decide
  obtain ⟨ht, -, hr⟩ := comment_line_vanishes (.inr ⟨['x'], rfl⟩) tokenize_line
    (by simp : ∀ c ∈ " \t".toList, c = ' ' ∨ c = '\t') hb "y"
  have hs : "x\n" ++ "y" = "x\ny" := by
    apply String.toList_injective
    simp
  rw [hs, tokenize_two_lines] at ht
  have ho : ofSource ⟨true, true⟩ "x\ny" = .ok ⟨[.text "x\ny"]⟩ := by
    rw [ofSource, tokenize_two_lines]
    cbv
  refine ⟨ht, fun params => ?_⟩
  have hr := hr params
  rw [hs, ho] at hr
  exact hr

/-- A body that starts with a brace closes its comment at once, and the rest of the line is text. -/
theorem comment_line_of_brace :
    tokenize ⟨true, true⟩ "" = .ok [] ∧ ¬ ['#', '}'] <:+: "\x7d".toList ∧
      placeless ((tokenize ⟨true, true⟩ ("" ++ (commentLine "" "\x7d" ++ ""))).map
        (fuse ∘ symbols)) = .ok [.text "#\x7d\n"] ∧
      placeless ((tokenize ⟨true, true⟩ ("" ++ "")).map (fuse ∘ symbols)) = .ok [] := by
  have hr : readOpened ⟨'\x7b', ⟨1, 1⟩⟩ ⟨'#', ⟨1, 2⟩⟩
      ([⟨'\x7d', ⟨1, 3⟩⟩] ++ [⟨'#', ⟨1, 4⟩⟩, ⟨'\x7d', ⟨1, 5⟩⟩, ⟨'\n', ⟨1, 6⟩⟩]) =
      .ok (.comment, [⟨'#', ⟨1, 4⟩⟩, ⟨'\x7d', ⟨1, 5⟩⟩, ⟨'\n', ⟨1, 6⟩⟩]) := by rfl
  have hl : Layout (glyphs "\x7b#\x7d#\x7d\n")
      [.text [], .comment, .text [⟨'#', ⟨1, 4⟩⟩, ⟨'\x7d', ⟨1, 5⟩⟩, ⟨'\n', ⟨1, 6⟩⟩]] :=
    .tag plain_nil rfl hr
      (.last (plain_cons.2 ⟨rfl, plain_cons.2 ⟨rfl, plain_cons.2 ⟨rfl, plain_nil⟩⟩⟩))
  have hs : "" ++ (commentLine "" "\x7d" ++ "") = "\x7b#\x7d#\x7d\n" := by
    apply String.toList_injective
    simp [commentLine]
  have hb : ¬ ['#', '}'] <:+: "\x7d".toList := by
    simp only [String.reduceToList]
    decide
  have ht : tokenize ⟨true, true⟩ "\x7b#\x7d#\x7d\n" = .ok [⟨.text "#\x7d\n", ⟨1, 4⟩⟩] := by
    rw [tokenize_of_layout _ hl]
    decide
  refine ⟨tokenize_empty _, hb, ?_, ?_⟩
  · rw [hs, ht]
    rfl
  · rw [String.empty_append, tokenize_empty]
    rfl

end Stencil.Template
