import Mathlib.Data.List.DropRight
import Stencil.Proofs.Layout

/-! White space around tags by lines of the source. What is dropped from a text is decided by the
raw texts and tags on either side of it, with no state carried from text to text. -/
namespace Stencil.Template

def Piece.isBlock : Piece → Bool
  | .tag .block _ | .comment => true
  | _ => false

def Piece.leaves : Piece → List (Option Glyph)
  | .text gs => gs.map some
  | .tag .output _ => [none]
  | _ => []

/-- After the last line feed in the texts there is no output, and white space only. -/
def clean (before : List Piece) : Bool :=
  ((before.flatMap Piece.leaves).rtakeWhile (!·.any isLineFeed)).all (·.any Glyph.isSpace)

def lineLength (gs : List Glyph) : Nat := (gs.takeWhile (!isLineFeed ·)).length + 1

/-- Whether a text loses its first line: a block tag or comment comes before it on a line that
holds nothing else, and up to the line's end there is only white space. -/
def trims (o : Options) (before : List Piece) (gs : List Glyph) (after : List Piece) : Bool :=
  o.trim && before.getLast?.any Piece.isBlock && clean before.dropLast &&
    (gs.any isLineFeed || after.isEmpty) && (gs.take (lineLength gs)).all isTrimmable

def trimmed (o : Options) (before : List Piece) (gs : List Glyph) (after : List Piece) :
    List Glyph :=
  if trims o before gs after then gs.drop (lineLength gs) else gs

/-- What is left of a text when the indentation of a block tag or comment that comes next, with
nothing before it on its line, is dropped too. -/
def kept (o : Options) (before : List Piece) (gs : List Glyph) (after : List Piece) : List Glyph :=
  let left := trimmed o before gs after
  if o.lstrip && after.head?.any Piece.isBlock && clean (before ++ [.text gs]) &&
    (lastLine left).all isIndent then fullLines left else left

def settled (o : Options) (before : List Piece) : List Piece → List Token
  | [] => []
  | .text gs :: after =>
    textTokens (kept o before gs after) ++ settled o (before ++ [.text gs]) after
  | .tag tag tokens :: after => tokens ++ settled o (before ++ [.tag tag tokens]) after
  | .comment :: after => settled o (before ++ [.comment]) after

variable {gs : List Glyph} {before after : List Piece} {o : Options}

theorem splitLine_eq (gs : List Glyph) :
    splitLine gs = (gs.take (lineLength gs), gs.drop (lineLength gs)) := by
  induction gs with
  | nil => rfl
  | cons g gs ih =>
    rw [splitLine, lineLength]
    by_cases hg : isLineFeed g
    · simp [hg]
    · simp [hg, ih, lineLength]

theorem rtakeWhile_append_of_all {α : Type} {p : α → Bool} (xs : List α) {ys : List α}
    (h : ∀ y ∈ ys, p y) : (xs ++ ys).rtakeWhile p = xs.rtakeWhile p ++ ys := by
  rw [List.rtakeWhile, List.reverse_append, List.takeWhile_append_of_pos (by simpa using h),
    List.reverse_append, List.reverse_reverse, List.rtakeWhile]

theorem rtakeWhile_append_of_not_all {α : Type} {p : α → Bool} (xs : List α) {ys : List α}
    (h : ¬ ∀ y ∈ ys, p y) : (xs ++ ys).rtakeWhile p = ys.rtakeWhile p := by
  have hn : (ys.reverse.takeWhile p).length ≠ ys.reverse.length := by
    intro hl
    have he := (List.takeWhile_prefix p).eq_of_length hl
    rw [List.takeWhile_eq_self_iff] at he
    exact h (by simpa using he)
  rw [List.rtakeWhile, List.reverse_append, List.takeWhile_append, if_neg hn, List.rtakeWhile]

theorem lastLine_eq_self (h : gs.any isLineFeed = false) : lastLine gs = gs := by
  refine List.rtakeWhile_eq_self_iff.2 fun g hg => ?_
  simpa using List.any_eq_false.1 h g hg

theorem lastLine_append (xs : List Glyph) (h : gs.any isLineFeed) :
    lastLine (xs ++ gs) = lastLine gs := by
  refine rtakeWhile_append_of_not_all xs fun hn => ?_
  obtain ⟨g, hg, hf⟩ := List.any_eq_true.1 h
  simpa [hf] using hn g hg

theorem fullLines_append_lastLine (gs : List Glyph) : fullLines gs ++ lastLine gs = gs :=
  List.rdropWhile_append_rtakeWhile

theorem not_line_feed_of_mem_lastLine {g : Glyph} (h : g ∈ lastLine gs) : isLineFeed g = false := by
  simpa using List.mem_rtakeWhile_imp h

theorem fullLines_any (gs : List Glyph) : (fullLines gs).any isLineFeed = gs.any isLineFeed := by
  conv_rhs => rw [← fullLines_append_lastLine gs, List.any_append]
  have h : (lastLine gs).any isLineFeed = false :=
    List.any_eq_false.2 fun g hg => by simp [not_line_feed_of_mem_lastLine hg]
  rw [h, Bool.or_false]

theorem lastLine_fullLines (gs : List Glyph) : lastLine (fullLines gs) = [] := by
  refine List.rtakeWhile_eq_nil_iff.2 fun hn => ?_
  exact List.rdropWhile_last_not _ _ hn

/-- The line is clean after a text by the text's last line, and without a line feed in it only
if it was clean before. -/
theorem clean_text (before : List Piece) (gs : List Glyph) :
    clean (before ++ [.text gs]) =
      ((gs.any isLineFeed || clean before) && (lastLine gs).all Glyph.isSpace) := by
  have hl : (gs.map some).rtakeWhile (!·.any isLineFeed) = (lastLine gs).map some := by
    rw [List.rtakeWhile, ← List.map_reverse, List.takeWhile_map, ← List.map_reverse]
    rfl
  rw [clean, List.flatMap_append, List.flatMap_singleton, Piece.leaves]
  by_cases h : gs.any isLineFeed
  · rw [rtakeWhile_append_of_not_all, hl, h]
    · simp [Function.comp_def]
    · intro hn
      obtain ⟨g, hg, hf⟩ := List.any_eq_true.1 h
      simpa [hf] using hn (some g) (List.mem_map_of_mem hg)
  · have h : gs.any isLineFeed = false := Bool.eq_false_iff.2 h
    rw [rtakeWhile_append_of_all, lastLine_eq_self h, h, clean]
    · simp [Function.comp_def]
    · intro x hx
      obtain ⟨g, hg, rfl⟩ := List.mem_map.1 hx
      simpa using List.any_eq_false.1 h g hg

theorem clean_output (before : List Piece) (tokens : List Token) :
    clean (before ++ [.tag .output tokens]) = false := by
  rw [clean, List.flatMap_append, rtakeWhile_append_of_all]
  · simp [Piece.leaves]
  · simp [Piece.leaves]

theorem clean_block (before : List Piece) {p : Piece} (h : p.isBlock) :
    clean (before ++ [p]) = clean before := by
  have hp : p.leaves = [] := by
    cases p with
    | text => cases h
    | comment => rfl
    | tag tag tokens =>
      cases tag with
      | output => cases h
      | block => rfl
  rw [clean, List.flatMap_append, List.flatMap_singleton, hp, List.append_nil, clean]

theorem clean_dropLast (h : before.getLast?.any Piece.isBlock) :
    clean before.dropLast = clean before := by
  rcases List.eq_nil_or_concat before with rfl | ⟨earlier, p, rfl⟩
  · rfl
  · rw [List.concat_eq_append] at h ⊢
    rw [List.getLast?_concat] at h
    rw [List.dropLast_concat, clean_block earlier h]

theorem dirties_clean (before : List Piece) (gs : List Glyph) :
    dirties (!clean before) gs = !clean (before ++ [.text gs]) := by
  rw [clean_text, dirties]
  simp

theorem lastLine_all_append {xs : List Glyph} (h : xs.all Glyph.isSpace) (gs : List Glyph) :
    (lastLine (xs ++ gs)).all Glyph.isSpace = (lastLine gs).all Glyph.isSpace := by
  by_cases hg : gs.any isLineFeed
  · rw [lastLine_append xs hg]
  · have hg : gs.any isLineFeed = false := Bool.eq_false_iff.2 hg
    have hs : lastLine (xs ++ gs) = lastLine xs ++ gs :=
      rtakeWhile_append_of_all xs fun g hm => by simpa using List.any_eq_false.1 hg g hm
    have hx : (lastLine xs).all Glyph.isSpace :=
      List.all_eq_true.2 fun g hm =>
        List.all_eq_true.1 h g ((List.rtakeWhile_suffix _ xs).mem hm)
    rw [hs, lastLine_eq_self hg, List.all_append, hx, Bool.true_and]

theorem isSpace_of_isTrimmable {g : Glyph} (h : isTrimmable g) : g.isSpace := by
  simp only [isTrimmable, Bool.or_eq_true, decide_eq_true_eq] at h
  rw [Glyph.isSpace]
  rcases h with ((h | h) | h) | h <;> rw [h] <;> decide

theorem isTrimmable_of_isIndent {g : Glyph} (h : isIndent g) : isTrimmable g := by
  simp only [isIndent, Bool.or_eq_true, decide_eq_true_eq] at h
  rcases h with h | h <;> simp [isTrimmable, h]

theorem dirties_trimmed (o : Options) (before : List Piece) (gs : List Glyph)
    (after : List Piece) :
    dirties (!clean before) (trimmed o before gs after) = dirties (!clean before) gs := by
  rw [trimmed]
  split
  · rename_i h
    simp only [trims, Bool.and_eq_true] at h
    obtain ⟨⟨⟨⟨_, hb⟩, hc⟩, _⟩, ht⟩ := h
    have hs : (gs.take (lineLength gs)).all Glyph.isSpace :=
      List.all_eq_true.2 fun g hg => isSpace_of_isTrimmable (List.all_eq_true.1 ht g hg)
    have hl := lastLine_all_append hs (gs.drop (lineLength gs))
    rw [List.take_append_drop] at hl
    rw [← clean_dropLast hb, hc, dirties, dirties, hl]
    simp
  · rfl

theorem isSpace_of_indent (h : gs.all isIndent) : gs.all Glyph.isSpace :=
  List.all_eq_true.2 fun g hg =>
    isSpace_of_isTrimmable (isTrimmable_of_isIndent (List.all_eq_true.1 h g hg))

theorem dirties_kept (o : Options) (before : List Piece) (gs : List Glyph) (after : List Piece) :
    dirties (!clean before) (kept o before gs after) = !clean (before ++ [.text gs]) := by
  rw [← dirties_clean, ← dirties_trimmed o before gs after, kept]
  split
  · rename_i h
    have hs := isSpace_of_indent (Bool.and_eq_true_iff.1 h).2
    rw [dirties, dirties, fullLines_any, lastLine_fullLines, hs]
    rfl
  · rfl

theorem trimmed_eq (o : Options) (before : List Piece) (gs : List Glyph) (after : List Piece) :
    (if o.trim && before.getLast?.any Piece.isBlock && !!clean before then
      trimLine after.isEmpty gs else gs) = trimmed o before gs after := by
  rw [trimmed, trims, trimLine, splitLine_eq, Bool.not_not]
  by_cases hb : before.getLast?.any Piece.isBlock
  · rw [hb, clean_dropLast hb]
    cases o.trim <;> cases clean before <;> simp
  · simp [hb]

theorem startsBlock_eq (ps : List Piece) : startsBlock ps = ps.head?.any Piece.isBlock := by
  cases ps with
  | nil => rfl
  | cons p ps =>
    cases p with
    | text | comment => rfl
    | tag tag => cases tag <;> rfl

theorem kept_eq (o : Options) (before : List Piece) (gs : List Glyph) (after : List Piece) :
    (if o.lstrip && startsBlock after then
      stripIndent (!!clean before) (trimmed o before gs after)
      else trimmed o before gs after) = kept o before gs after := by
  have hd := dirties_trimmed o before gs after
  rw [dirties_clean before gs] at hd
  rw [kept, stripIndent, startsBlock_eq, Bool.not_not]
  generalize trimmed o before gs after = left at hd ⊢
  -- the two conditions differ only where the last line holds more than spaces and tabs
  by_cases hi : (lastLine left).all isIndent
  · have hc : clean (before ++ [.text gs]) = (left.any isLineFeed || clean before) := by
      rw [dirties, isSpace_of_indent hi] at hd
      simpa using (congrArg (!·) hd).symm
    rw [hc, hi]
    cases o.lstrip <;> cases after.head?.any Piece.isBlock <;> simp
  · simp [hi]

/-- The flags of the reader say what the pieces before the present one say. -/
theorem settle_eq_settled (o : Options) (before ps : List Piece) :
    settle o (!clean before) (before.getLast?.any Piece.isBlock) ps = settled o before ps := by
  induction ps generalizing before with
  | nil => rfl
  | cons p ps ih =>
    have hn := ih (before ++ [p])
    rw [List.getLast?_concat] at hn
    cases p with
    | text gs =>
      -- the reader sets its flag by the text that is left, the rule by the raw text
      rw [settle, settled, trimmed_eq, kept_eq, dirties_kept, ← hn]
      rfl
    | comment =>
      rw [clean_block before rfl] at hn
      rw [settle, settled, ← hn]
      rfl
    | tag tag tokens =>
      rw [settled, ← hn]
      cases tag with
      | output =>
        rw [clean_output, settle]
        rfl
      | block =>
        rw [clean_block before rfl, settle]
        rfl

theorem settle_empty (o : Options) (dirty afterBlock : Bool) (ps : List Piece) :
    settle o dirty afterBlock (.text [] :: ps) = settle o dirty false ps := by
  have ht : ∀ final, trimLine final [] = [] := fun _ => ite_self _
  have hs : ∀ clean, stripIndent clean [] = [] := fun _ => ite_self _
  have hd : dirties dirty [] = dirty := Bool.or_false dirty
  rw [settle, ht, ite_self]
  simp only [hs, ite_self]
  rw [hd]
  rfl

/-- A tag does not look at what comes right before it. -/
theorem settle_tag {p : Piece} (hp : ∀ gs, p ≠ .text gs) {dirty : Bool} {ps qs : List Piece}
    (h : ∀ dirty afterBlock, settle o dirty afterBlock ps = settle o dirty afterBlock qs)
    (a b : Bool) : settle o dirty a (p :: ps) = settle o dirty b (p :: qs) := by
  cases p with
  | text gs => exact absurd rfl (hp gs)
  | comment => exact h dirty true
  | tag tag tokens =>
    cases tag with
    | output => exact congrArg (tokens ++ ·) (h true false)
    | block => exact congrArg (tokens ++ ·) (h dirty true)

theorem startsBlock_cons (p : Piece) (ps qs : List Piece) :
    startsBlock (p :: ps) = startsBlock (p :: qs) := by
  rw [startsBlock_eq, startsBlock_eq]
  rfl

theorem settle_shown {ps : List Piece} (h : Layout gs ps) (dirty afterBlock : Bool) :
    settle o dirty afterBlock (shown ps) = settle o dirty afterBlock ps := by
  induction h generalizing dirty afterBlock with
  | @last text _ =>
    rw [shown_text]
    split
    · rename_i hn
      rw [hn, settle_empty]
      rfl
    · rfl
  | @tag text body rest g k p ps _ _ hp _ ih =>
    have ht : ∀ gs, p ≠ .text gs := fun gs => readOpened_not_text hp
    rw [shown_cons, shown_tag hp, shown_text]
    split
    · rename_i hn
      rw [hn, settle_empty]
      exact settle_tag ht ih _ _
    · rw [List.singleton_append, settle, settle, startsBlock_cons p (shown ps) ps,
        settle_tag ht ih false false]
      rfl

theorem tokenize_of_layout {source : String} {ps : List Piece} (o : Options)
    (h : Layout (glyphs source) ps) : tokenize o source = .ok (settled o [] ps) := by
  rw [tokenize, h.pieces]
  exact congrArg Except.ok ((settle_shown h false false).trans (settle_eq_settled o [] ps))

/-- A source has the tokens of its texts and tags, where each text has lost the rest of the line
of the block tag or comment before it and the indentation of the one after it, exactly where
these lines hold nothing else. -/
theorem tokenize_by_lines (o : Options) (source : String) (ts : List Token) :
    tokenize o source = .ok ts ↔ ∃ ps, Layout (glyphs source) ps ∧ settled o [] ps = ts := by
  constructor
  · intro h
    rw [tokenize] at h
    split at h
    · cases h
    · rename_i qs hq
      cases h
      obtain ⟨ps, hl, rfl⟩ := layout_of_pieces hq
      exact ⟨ps, hl, ((settle_shown hl false false).trans (settle_eq_settled o [] ps)).symm⟩
  · rintro ⟨ps, hl, rfl⟩
    exact tokenize_of_layout o hl

end Stencil.Template
