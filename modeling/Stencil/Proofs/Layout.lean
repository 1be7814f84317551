import Stencil.Template.Lexer

/-! A template as texts and tags in turn, the texts of any length. The division of a source is
stated apart from the reader, which leaves the empty texts out. -/
namespace Stencil.Template

variable {gs rest text : List Glyph}

def opens : List Glyph → Bool
  | g :: k :: _ => g.char = '{' && opensTag k.char
  | _ => false

def Plain (text rest : List Glyph) : Prop :=
  ∀ a g b, text = a ++ g :: b → opens (g :: b ++ rest) = false

/-- A text, and as often as there is a tag, the tag and the text after it. -/
inductive Layout : List Glyph → List Piece → Prop where
  | last {text : List Glyph} : Plain text [] → Layout text [.text text]
  | tag {text body rest : List Glyph} {g k p ps} : Plain text (g :: k :: body ++ rest) →
      opens (g :: k :: body) → readOpened g k (body ++ rest) = .ok (p, rest) → Layout rest ps →
      Layout (text ++ (g :: k :: body ++ rest)) (.text text :: p :: ps)

def shown (ps : List Piece) : List Piece := ps.filter (· ≠ .text [])

theorem splitOpener_cons (g : Glyph) (gs : List Glyph) :
    splitOpener (g :: gs) =
      if opens (g :: gs) then ([], g :: gs)
      else (g :: (splitOpener gs).1, (splitOpener gs).2) := by
  have h : (g.char = '{' && gs.head?.any (opensTag ·.char)) = opens (g :: gs) := by
    cases gs with
    | nil => simp [opens]
    | cons k gs => simp [opens]
  rw [splitOpener]
  simp only [h]

theorem plain_nil : Plain [] rest := by
  rintro (_ | _) _ _ h <;> cases h

theorem plain_cons {g : Glyph} :
    Plain (g :: text) rest ↔ opens (g :: text ++ rest) = false ∧ Plain text rest := by
  constructor
  · intro h
    refine ⟨h [] g text rfl, fun a k b hab => ?_⟩
    exact h (g :: a) k b (by rw [hab]; rfl)
  · rintro ⟨hg, h⟩ a k b hab
    cases a with
    | nil =>
      cases hab
      exact hg
    | cons c a =>
      cases hab
      exact h a k b rfl

theorem splitOpener_plain (h : Plain text rest) (hr : rest = [] ∨ opens rest) :
    splitOpener (text ++ rest) = (text, rest) := by
  induction text with
  | nil =>
    rcases hr with rfl | hr
    · rfl
    · cases rest with
      | nil => rfl
      | cons g rest => rw [List.nil_append, splitOpener_cons, if_pos hr]
  | cons g text ih =>
    obtain ⟨hg, h⟩ := plain_cons.1 h
    rw [List.cons_append] at hg ⊢
    rw [splitOpener_cons, hg, ih h]
    rfl

theorem splitOpener_divides (gs : List Glyph) :
    (splitOpener gs).1 ++ (splitOpener gs).2 = gs ∧
      Plain (splitOpener gs).1 (splitOpener gs).2 ∧
      ((splitOpener gs).2 = [] ∨ opens (splitOpener gs).2) := by
  induction gs with
  | nil => exact ⟨rfl, plain_nil, .inl rfl⟩
  | cons g gs ih =>
    obtain ⟨hs, hp, hr⟩ := ih
    rw [splitOpener_cons]
    by_cases ho : opens (g :: gs)
    · rw [if_pos ho]
      exact ⟨rfl, plain_nil, .inr ho⟩
    · rw [if_neg ho]
      refine ⟨congrArg (g :: ·) hs, plain_cons.2 ⟨?_, hp⟩, hr⟩
      rw [List.cons_append, hs]
      exact Bool.eq_false_iff.2 ho

theorem skipSpaces_suffix (gs : List Glyph) : skipSpaces gs <:+ gs := List.dropWhile_suffix _

theorem readQuoted_suffix {quote : Char} {cs : List Char}
    (h : readQuoted quote gs = some (cs, rest)) : rest <:+ gs := by
  fun_induction readQuoted quote gs generalizing cs with
  | case1 => cases h
  | case2 g gs =>
    cases h
    exact List.suffix_cons g _
  | case3 => cases h
  | case4 g _ _ e r ih =>
    obtain ⟨⟨cs', r'⟩, hr, he⟩ := Option.map_eq_some_iff.1 h
    cases he
    exact ((ih hr).trans (List.suffix_cons e r)).trans (List.suffix_cons g _)
  | case5 g gs _ _ ih =>
    obtain ⟨⟨cs', r'⟩, hr, he⟩ := Option.map_eq_some_iff.1 h
    cases he
    exact (ih hr).trans (List.suffix_cons g gs)

theorem readNumber_suffix {afterDot negative : Bool} {s : Symbol}
    (h : readNumber afterDot negative gs = .ok (s, rest)) : rest <:+ gs := by
  have hd : gs.dropWhile Glyph.isDigit <:+ gs := List.dropWhile_suffix _
  unfold readNumber at h
  simp only at h
  split at h
  · rename_i p d more hr
    rw [hr] at hd
    split at h
    · cases h
      exact ((List.dropWhile_suffix _).trans (List.suffix_cons p _)).trans hd
    · split at h
      · cases h
        rw [hr]
        exact hd
      · cases h
  · split at h
    · cases h
      exact hd
    · cases h

theorem readThousands_suffix {s : Symbol} (h : readThousands gs = .ok (s, rest)) :
    rest <:+ gs := by
  unfold readThousands at h
  split at h
  · rename_i g r hr
    split at h
    · cases h
      exact (List.suffix_cons g rest).trans (hr ▸ skipSpaces_suffix gs)
    · cases h
  · cases h

theorem readSign_suffix {c : Char} {s : Symbol} (h : readSign c gs = .ok (s, rest)) :
    rest <:+ gs := by
  have ht : gs.tail <:+ gs := List.tail_suffix gs
  have hr : gs <:+ gs := List.suffix_rfl
  unfold readSign at h
  split at h
  case h_5 => exact readThousands_suffix h
  all_goals first | (split at h <;> cases h <;> assumption) | (cases h <;> assumption)

theorem readSymbol_suffix {afterDot : Bool} {g : Glyph} {s : Symbol}
    (h : readSymbol afterDot g gs = .ok (s, rest)) : rest <:+ g :: gs := by
  have hg : gs <:+ g :: gs := List.suffix_cons g gs
  unfold readSymbol at h
  split at h
  · split at h
    · rename_i hq
      cases h
      exact (readQuoted_suffix hq).trans hg
    · cases h
  split at h
  · exact readNumber_suffix h
  split at h
  · exact (readNumber_suffix h).trans hg
  split at h
  · cases h
    exact List.dropWhile_suffix _
  · exact (readSign_suffix h).trans hg

theorem readTag_suffix {tag : Tag} {opener : Pos} {afterDot : Bool} {tokens : List Token}
    (h : readTag tag opener afterDot gs = .ok (tokens, rest)) : rest <:+ gs := by
  fun_induction readTag tag opener afterDot gs generalizing tokens with
  | case1 => cases h
  | case2 dot gs g r hs =>
    cases h
    exact ((List.tail_suffix r).trans (List.suffix_cons g r)).trans (hs ▸ skipSpaces_suffix gs)
  | case3 => cases h
  | case4 => cases h
  | case5 dot gs g r hs _ s more hm _ tokens' rest' hr ih =>
    cases h
    exact ((ih hr).trans (readSymbol_suffix hm)).trans (hs ▸ skipSpaces_suffix gs)

theorem dropComment_suffix {g : Glyph} (h : dropComment (g :: gs) = some rest) :
    rest <:+ gs := by
  induction gs generalizing g with
  | nil => simp [dropComment, startsWith] at h
  | cons k gs ih =>
    rw [dropComment] at h
    split at h
    · cases h
      exact List.suffix_cons k gs
    · exact (ih h).trans (List.suffix_cons k gs)

theorem readOpened_suffix {g k : Glyph} {p : Piece} (h : readOpened g k gs = .ok (p, rest)) :
    rest <:+ gs := by
  unfold readOpened at h
  split at h
  · split at h
    · rename_i hc
      cases h
      exact dropComment_suffix hc
    · cases h
  · simp only at h
    split at h
    · cases h
    · rename_i ht
      cases h
      exact readTag_suffix ht

theorem readOpened_not_text {g k : Glyph} {p : Piece} (h : readOpened g k gs = .ok (p, rest)) :
    p ≠ .text text := by
  unfold readOpened at h
  split at h
  · split at h <;> cases h
    exact Piece.noConfusion
  · simp only at h
    split at h <;> cases h
    exact Piece.noConfusion

theorem shown_cons (p : Piece) (ps : List Piece) : shown (p :: ps) = shown [p] ++ shown ps :=
  List.filter_append [p] ps

theorem shown_text (text : List Glyph) :
    shown [.text text] = if text = [] then [] else [.text text] := by
  by_cases h : text = []
  · subst h
    rfl
  · simp [shown, h]

theorem shown_tag {g k : Glyph} {p : Piece} (h : readOpened g k gs = .ok (p, rest))
    (ps : List Piece) : shown (p :: ps) = p :: shown ps := by
  have hp : p ≠ .text [] := readOpened_not_text h
  exact List.filter_cons_of_pos (by simpa using hp)

theorem pieces_last (h : splitOpener gs = (text, [])) : pieces gs = .ok (shown [.text text]) := by
  rw [pieces, shown_text]
  split
  · rename_i hs
    rw [h] at hs
    cases hs
  · rw [h]

/-- The reader goes on after the tag that it finds. -/
theorem pieces_opened {g k : Glyph} (h : splitOpener gs = (text, g :: k :: rest)) :
    pieces gs = (readOpened g k rest).bind fun r =>
      (pieces r.2).map (shown [.text text] ++ r.1 :: ·) := by
  have ht : (splitOpener gs).1 = text := congrArg Prod.fst h
  rw [pieces, shown_text]
  split
  · rename_i g' k' rest' hs
    rw [h] at hs
    cases hs
    split
    · rename_i he
      rw [he]
      rfl
    · rename_i p more hp
      simp only [hp, ht, Except.bind]
      cases pieces more <;> rfl
  · rename_i hs
    exact absurd (congrArg Prod.snd h) (hs g k rest)

theorem Layout.pieces {ps : List Piece} (h : Layout gs ps) : pieces gs = .ok (shown ps) := by
  induction h with
  | @last text ht =>
    have hs := splitOpener_plain ht (.inl rfl)
    rw [List.append_nil] at hs
    exact pieces_last hs
  | @tag text body rest g k p ps ht ho hp _ ih =>
    have hs : splitOpener (text ++ (g :: k :: body ++ rest)) = (text, g :: k :: (body ++ rest)) :=
      splitOpener_plain ht (.inr ho)
    rw [pieces_opened hs, hp, shown_cons (.text text) (p :: ps), shown_tag hp]
    simp only [Except.bind, ih]
    rfl

theorem opens_two (h : opens gs) : ∃ g k rest, gs = g :: k :: rest := by
  match gs with
  | [] => cases h
  | [_] => cases h
  | g :: k :: rest => exact ⟨g, k, rest, rfl⟩

theorem layout_of_pieces {qs : List Piece} (h : pieces gs = .ok qs) :
    ∃ ps, Layout gs ps ∧ qs = shown ps := by
  fun_induction pieces gs generalizing qs with
  | case1 => cases h
  | case2 => cases h
  | case3 =>
    rename_i gs _ _ _ g k rest hs p more hp _ _ hq ih
    cases h
    obtain ⟨ps, hps, rfl⟩ := ih hq
    obtain ⟨hgs, ht, ho⟩ := splitOpener_divides gs
    obtain ⟨body, rfl⟩ := readOpened_suffix hp
    rw [hs] at hgs ht ho
    have ho : opens (g :: k :: body) := ho.resolve_left (List.cons_ne_nil _ _)
    refine ⟨_, Eq.mp (congrArg (Layout · _) hgs) (.tag ht ho hp hps), ?_⟩
    rw [shown_cons (.text _) (p :: ps), shown_tag hp, shown_text]
    rfl
  | case4 =>
    rename_i gs _ _ _ hs
    cases h
    obtain ⟨hgs, ht, hr | ho⟩ := splitOpener_divides gs
    · rw [hr] at ht
      rw [hr, List.append_nil] at hgs
      refine ⟨_, Eq.mp (congrArg (Layout · _) hgs) (.last ht), ?_⟩
      rw [shown_text]
      rfl
    · obtain ⟨g, k, rest, hr⟩ := opens_two ho
      exact (hs g k rest hr).elim

end Stencil.Template
