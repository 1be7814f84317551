import Stencil.Proofs.Seam

/-! How symbols are spelled, as characters alone. Whatever is read from a tag or dropped from a text
is accounted for: the characters that were read are the spellings of the tokens in their order, each
where its token stands, with white space and comments between them. -/
namespace Stencil.Template

inductive Quoted (quote : Char) : List Char → List Char → Prop where
  | nil : Quoted quote [] []
  | char {c cs vs} : c ≠ quote → c ≠ '\\' → Quoted quote cs vs → Quoted quote (c :: cs) (c :: vs)
  | escape {cs vs} (c) : Quoted quote cs vs → Quoted quote ('\\' :: c :: cs) (unescape c ++ vs)

def AreDigits (cs : List Char) : Prop := cs ≠ [] ∧ ∀ c ∈ cs, c.isDigit

instance (cs : List Char) : Decidable (AreDigits cs) :=
  decidable_of_iff (cs ≠ [] ∧ cs.all Char.isDigit) (and_congr_right fun _ => List.all_eq_true)

def minus (negative : Bool) : List Char := if negative then ['-'] else []

def floatOf (negative : Bool) (digits places : List Char) : Float :=
  let x := Decimal.toFloat ⟨Nat.ofDigitChars 10 (digits ++ places) 0, -places.length⟩
  if negative then -x else x

inductive Spelling : Symbol → List Char → Prop where
  | text {cs} : cs ≠ [] → Spelling (.text (String.ofList cs)) cs
  | opening (tag) : Spelling (.opening tag) tag.opener.toList
  | closing (tag) : Spelling (.closing tag) tag.closer.toList
  | word {cs} : isName cs → Keyword.ofWord? (String.ofList cs) = none →
      Spelling (.word (String.ofList cs)) cs
  | keyword {cs k} : isName cs → Keyword.ofWord? (String.ofList cs) = some k →
      Spelling (.keyword k) cs
  | string {q cs vs} : q = '"' ∨ q = '\'' → Quoted q cs vs →
      Spelling (.string (String.ofList vs)) (q :: cs ++ [q])
  | int {negative digits n} : AreDigits digits → Value.ofDigits? negative digits = some n →
      Spelling (.int n) (minus negative ++ digits)
  | float {negative digits places} : AreDigits digits → AreDigits places →
      Spelling (.float (floatOf negative digits places)) (minus negative ++ digits ++ '.' :: places)
  | thousands {cs} : (∀ c ∈ cs, Unicode.isSpace c) → Spelling .thousands (':' :: cs ++ [','])
  | compare (op) : Spelling (.compare op) op.symbol.toList
  | dot : Spelling .dot ['.']
  | comma : Spelling .comma [',']
  | leftParen : Spelling .leftParen ['(']
  | rightParen : Spelling .rightParen [')']
  | leftBracket : Spelling .leftBracket ['[']
  | rightBracket : Spelling .rightBracket [']']
  | pipe : Spelling .pipe ['|']

def IsComment (cs : List Char) : Prop :=
  ['{', '#'] <+: cs ∧ ['#', '}'] <:+ cs ∧ ¬ ['#', '}'] <:+: cs.dropLast

inductive Skipped : List Char → Prop where
  | nil : Skipped []
  | space {c cs} : Unicode.isSpace c → Skipped cs → Skipped (c :: cs)
  | comment {cs ds} : IsComment cs → Skipped ds → Skipped (cs ++ ds)

/-- The characters are spellings of the tokens, each from where its token stands. -/
inductive Spells : List Glyph → List Token → Prop where
  | nil {gap : List Glyph} : Skipped (gap.map Glyph.char) → Spells gap []
  | token {gap lexeme rest : List Glyph} {g s ts} : Skipped (gap.map Glyph.char) →
      Spelling s ((g :: lexeme).map Glyph.char) → Spells rest ts →
      Spells (gap ++ (g :: lexeme ++ rest)) (⟨s, g.pos⟩ :: ts)

variable {gs rest : List Glyph} {s : Symbol} {ts : List Token}

theorem Spelling.ne_nil {cs : List Char} (h : Spelling s cs) : cs ≠ [] := by
  cases h with
  | text hn => exact hn
  | opening tag => cases tag <;> decide
  | closing tag => cases tag <;> decide
  | compare op => cases op <;> decide
  | word hn | keyword hn _ =>
    rintro rfl
    cases hn
  | int hd _ => simp [hd.1]
  | _ => simp

theorem Skipped.append {cs ds : List Char} (hc : Skipped cs) (hd : Skipped ds) :
    Skipped (cs ++ ds) := by
  induction hc with
  | nil => exact hd
  | space h _ ih => exact .space h ih
  | comment h _ ih =>
    rw [List.append_assoc]
    exact .comment h ih

theorem skipped_spaces {gap : List Glyph} (h : ∀ g ∈ gap, g.isSpace) :
    Skipped (gap.map Glyph.char) := by
  induction gap with
  | nil => exact .nil
  | cons g gap ih =>
    obtain ⟨hg, h⟩ := List.forall_mem_cons.1 h
    exact .space hg (ih h)

/-- What is skipped may stand before the first lexeme. -/
theorem Spells.skip {gap : List Glyph} (hg : Skipped (gap.map Glyph.char)) (h : Spells gs ts) :
    Spells (gap ++ gs) ts := by
  cases h with
  | nil hn =>
    refine .nil ?_
    rw [List.map_append]
    exact hg.append hn
  | token hn hs hr =>
    rw [← List.append_assoc]
    refine .token ?_ hs hr
    rw [List.map_append]
    exact hg.append hn

theorem Spells.lexeme {g : Glyph} {lexeme : List Glyph}
    (hs : Spelling s ((g :: lexeme).map Glyph.char)) (h : Spells rest ts) :
    Spells (g :: lexeme ++ rest) (⟨s, g.pos⟩ :: ts) := by
  have hn : Skipped (([] : List Glyph).map Glyph.char) := .nil
  exact .token hn hs h

theorem readQuoted_spelled {quote : Char} {vs : List Char}
    (h : readQuoted quote gs = some (vs, rest)) :
    ∃ body q, gs = body ++ q :: rest ∧ q.char = quote ∧ Quoted quote (body.map Glyph.char) vs := by
  fun_induction readQuoted quote gs generalizing vs with
  | case1 => cases h
  | case2 g gs hq =>
    cases h
    exact ⟨[], g, rfl, hq, .nil⟩
  | case3 => cases h
  | case4 g hq hs e gs ih =>
    obtain ⟨⟨vs', rest'⟩, hr, he⟩ := Option.map_eq_some_iff.1 h
    cases he
    obtain ⟨body, q, rfl, hc, hb⟩ := ih hr
    refine ⟨g :: e :: body, q, rfl, hc, ?_⟩
    rw [List.map_cons, List.map_cons, hs]
    exact .escape e.char hb
  | case5 g gs hq hs ih =>
    obtain ⟨⟨vs', rest'⟩, hr, he⟩ := Option.map_eq_some_iff.1 h
    cases he
    obtain ⟨body, q, rfl, hc, hb⟩ := ih hr
    exact ⟨g :: body, q, rfl, hc, .char hq hs hb⟩

theorem areDigits_takeWhile (h : gs.head?.any Glyph.isDigit) :
    AreDigits ((gs.takeWhile Glyph.isDigit).map Glyph.char) := by
  constructor
  · cases gs with
    | nil => cases h
    | cons g gs => simp [List.takeWhile_cons_of_pos (show g.isDigit from h)]
  · intro c hc
    obtain ⟨g, hg, rfl⟩ := List.mem_map.1 hc
    exact (List.mem_takeWhile_imp hg : g.isDigit)

theorem not_digit_of_dropWhile (gs : List Glyph) :
    ∀ d ∈ ((gs.dropWhile Glyph.isDigit).map Glyph.char).head?, d.isDigit = false := by
  intro d hd
  rw [List.head?_map] at hd
  obtain ⟨g, hg, rfl⟩ := Option.map_eq_some_iff.1 hd
  have hn := List.head?_dropWhile_not Glyph.isDigit gs
  rw [hg] at hn
  exact hn

/-- A point and a digit follow the digits of a number, and it is not an index after a dot. -/
def hasPlaces (afterDot : Bool) : List Char → Bool
  | p :: d :: _ => !afterDot && p = '.' && d.isDigit
  | _ => false

/-- A number is a float if a point and a digit follow its digits, and an integer otherwise. -/
theorem readNumber_cases (afterDot negative : Bool) (gs : List Glyph) :
    (∃ p d more, gs.dropWhile Glyph.isDigit = p :: d :: more ∧ p.char = '.' ∧ d.isDigit ∧
      afterDot = false ∧ readNumber afterDot negative gs = .ok (.float (floatOf negative
        ((gs.takeWhile Glyph.isDigit).map Glyph.char)
        (((d :: more).takeWhile Glyph.isDigit).map Glyph.char)),
        (d :: more).dropWhile Glyph.isDigit)) ∨
    hasPlaces afterDot ((gs.dropWhile Glyph.isDigit).map Glyph.char) = false ∧
    readNumber afterDot negative gs =
      match Value.ofDigits? negative ((gs.takeWhile Glyph.isDigit).map Glyph.char) with
      | some n => .ok (.int n, gs.dropWhile Glyph.isDigit)
      | none => .error (.integerOutOfRange
          (String.ofList (minus negative ++ (gs.takeWhile Glyph.isDigit).map Glyph.char))) := by
  have hm (ds : List Char) : minus negative ++ ds = if negative then '-' :: ds else ds := by
    cases negative <;> rfl
  rw [readNumber, hm]
  simp only
  split
  · rename_i p d more hr
    split
    · rename_i hp
      simp only [Bool.and_eq_true, decide_eq_true_eq, Bool.not_eq_true'] at hp
      exact .inl ⟨p, d, more, hr, hp.1.2, hp.2, hp.1.1, rfl⟩
    · rename_i hp
      exact .inr ⟨by rw [hr]; exact Bool.eq_false_iff.2 hp, rfl⟩
  · rename_i hr
    refine .inr ⟨?_, rfl⟩
    match hc : gs.dropWhile Glyph.isDigit with
    | [] => rfl
    | [_] => rfl
    | p :: d :: more => exact absurd hc (hr p d more)

theorem readNumber_spelled {afterDot negative : Bool} (hd : gs.head?.any Glyph.isDigit)
    (h : readNumber afterDot negative gs = .ok (s, rest)) :
    ∃ lexeme, gs = lexeme ++ rest ∧ Spelling s (minus negative ++ lexeme.map Glyph.char) := by
  have hw := areDigits_takeWhile hd
  have hgs := (List.takeWhile_append_dropWhile (p := Glyph.isDigit) (l := gs)).symm
  rcases readNumber_cases afterDot negative gs with ⟨p, d, more, hr, hp, hdigit, -, hx⟩ | ⟨-, hx⟩
  · rw [hx] at h
    cases h
    have hplaces : AreDigits (((d :: more).takeWhile Glyph.isDigit).map Glyph.char) :=
      areDigits_takeWhile hdigit
    refine ⟨gs.takeWhile Glyph.isDigit ++ p :: (d :: more).takeWhile Glyph.isDigit, ?_, ?_⟩
    · rw [List.append_assoc, List.cons_append, List.takeWhile_append_dropWhile, ← hr]
      exact hgs
    · rw [List.map_append, List.map_cons, hp, ← List.append_assoc]
      exact .float hw hplaces
  · rw [hx] at h
    split at h
    · rename_i n hn
      cases h
      exact ⟨gs.takeWhile Glyph.isDigit, hgs, .int hw hn⟩
    · cases h

theorem readWord_spelled {g : Glyph} (hg : g.startsWord) (h : readWord (g :: gs) = (s, rest)) :
    ∃ lexeme, gs = lexeme ++ rest ∧ Spelling s ((g :: lexeme).map Glyph.char) := by
  have hc : g.continuesWord := by
    simp only [Glyph.startsWord, Glyph.continuesWord, Unicode.isAlphanumeric, Bool.or_eq_true]
      at hg ⊢
    exact hg.imp_right Or.inl
  have hn : isName ((g :: gs.takeWhile Glyph.continuesWord).map Glyph.char) := by
    rw [List.map_cons, isName, Bool.and_eq_true]
    refine ⟨hg, List.all_eq_true.2 fun c hc => ?_⟩
    obtain ⟨d, hd, rfl⟩ := List.mem_map.1 hc
    exact (List.mem_takeWhile_imp hd : d.continuesWord)
  rw [readWord, List.takeWhile_cons_of_pos hc, List.dropWhile_cons_of_pos hc, textOf] at h
  obtain ⟨hs, hr⟩ := Prod.mk.inj h
  refine ⟨gs.takeWhile Glyph.continuesWord, ?_, ?_⟩
  · rw [← hr, List.takeWhile_append_dropWhile]
  · rw [← hs]
    split
    · exact .keyword hn ‹_›
    · exact .word hn ‹_›

theorem readThousands_spelled (h : readThousands gs = .ok (s, rest)) :
    ∃ lexeme, gs = lexeme ++ rest ∧ Spelling s (':' :: lexeme.map Glyph.char) := by
  unfold readThousands at h
  split at h
  · rename_i g r hr
    split at h
    · rename_i hg
      cases h
      refine ⟨gs.takeWhile Glyph.isSpace ++ [g], ?_, ?_⟩
      · rw [List.append_assoc, List.singleton_append, ← hr, skipSpaces,
          List.takeWhile_append_dropWhile]
      · rw [List.map_append, List.map_singleton, hg]
        refine .thousands fun c hc => ?_
        obtain ⟨d, hd, rfl⟩ := List.mem_map.1 hc
        exact (List.mem_takeWhile_imp hd : d.isSpace)
    · cases h
  · cases h

theorem startsWith_cons {c : Char} (h : startsWith c gs) : ∃ k, gs = k :: gs.tail ∧ k.char = c := by
  cases gs with
  | nil => cases h
  | cons k gs => exact ⟨k, rfl, by simpa [startsWith] using h⟩

theorem readSign_spelled {c : Char} (h : readSign c gs = .ok (s, rest)) :
    ∃ lexeme, gs = lexeme ++ rest ∧ Spelling s (c :: lexeme.map Glyph.char) := by
  have two {op : Comparison} {c : Char} (hop : op.symbol.toList = [c, '='])
      (hw : startsWith '=' gs) : ∃ lexeme, gs = lexeme ++ gs.tail ∧
        Spelling (.compare op) (c :: lexeme.map Glyph.char) := by
    obtain ⟨k, hk, hkc⟩ := startsWith_cons hw
    refine ⟨[k], hk, ?_⟩
    rw [List.map_singleton, hkc, ← hop]
    exact .compare op
  have one {s : Symbol} {c : Char} (hs : Spelling s [c]) :
      ∃ lexeme, gs = lexeme ++ gs ∧ Spelling s (c :: lexeme.map Glyph.char) := ⟨[], rfl, hs⟩
  unfold readSign at h
  split at h
  · split at h
    · cases h
      exact two rfl ‹_›
    · cases h
  · split at h
    · cases h
      exact two rfl ‹_›
    · cases h
  · split at h
    · cases h
      exact two rfl ‹_›
    · cases h
      exact one (.compare .lt)
  · split at h
    · cases h
      exact two rfl ‹_›
    · cases h
      exact one (.compare .gt)
  · exact readThousands_spelled h
  · cases h
    exact one .dot
  · cases h
    exact one .comma
  · cases h
    exact one .leftParen
  · cases h
    exact one .rightParen
  · cases h
    exact one .leftBracket
  · cases h
    exact one .rightBracket
  · cases h
    exact one .pipe
  · cases h

theorem readSymbol_spelled {afterDot : Bool} {g : Glyph}
    (h : readSymbol afterDot g gs = .ok (s, rest)) :
    ∃ lexeme, gs = lexeme ++ rest ∧ Spelling s ((g :: lexeme).map Glyph.char) := by
  unfold readSymbol at h
  split at h
  · rename_i hq
    split at h
    · rename_i vs r hr
      cases h
      obtain ⟨body, q, rfl, hc, hb⟩ := readQuoted_spelled hr
      refine ⟨body ++ [q], by simp, ?_⟩
      rw [List.map_cons, List.map_append, List.map_singleton, hc]
      exact .string (by simpa using hq) hb
    · cases h
  split at h
  · rename_i hd
    have hd : (g :: gs).head?.any Glyph.isDigit := hd
    obtain ⟨lexeme, hl, hs⟩ := readNumber_spelled hd h
    cases lexeme with
    | nil => exact absurd rfl hs.ne_nil
    | cons k lexeme =>
      obtain ⟨rfl, rfl⟩ := List.cons.inj hl
      exact ⟨lexeme, rfl, hs⟩
  split at h
  · rename_i hm
    obtain ⟨hm, hd⟩ := Bool.and_eq_true_iff.1 hm
    obtain ⟨lexeme, hl, hs⟩ := readNumber_spelled hd h
    refine ⟨lexeme, hl, ?_⟩
    rw [List.map_cons, of_decide_eq_true hm]
    exact hs
  split at h
  · rename_i hw
    exact readWord_spelled hw (Except.ok.inj h)
  · exact readSign_spelled h

theorem closesAt_spelled {tag : Tag} {g : Glyph} (h : tag.closesAt g gs) :
    ∃ k, gs = k :: gs.tail ∧ Spelling (.closing tag) ([g, k].map Glyph.char) := by
  have hs : g.char = tag.closer.toList.head! ∧ startsWith '}' gs := by
    cases tag <;> simpa [Tag.closesAt, Tag.closer] using h
  obtain ⟨k, hk, hc⟩ := startsWith_cons hs.2
  refine ⟨k, hk, ?_⟩
  rw [List.map_cons, List.map_singleton, hs.1, hc]
  cases tag with
  | output => exact .closing .output
  | block => exact .closing .block

theorem skipSpaces_skipped {g : Glyph} (h : skipSpaces gs = g :: rest) :
    ∃ gap, gs = gap ++ g :: rest ∧ Skipped (gap.map Glyph.char) := by
  refine ⟨gs.takeWhile Glyph.isSpace, ?_, skipped_spaces fun g hg => List.mem_takeWhile_imp hg⟩
  rw [← h, skipSpaces, List.takeWhile_append_dropWhile]

theorem readTag_spelled {tag : Tag} {opener : Pos} {afterDot : Bool} {tokens : List Token}
    (h : readTag tag opener afterDot gs = .ok (tokens, rest)) (hr : Spells rest ts) :
    Spells gs (tokens ++ ts) := by
  fun_induction readTag tag opener afterDot gs generalizing tokens with
  | case1 => cases h
  | case2 dot gs g r hs hc =>
    cases h
    obtain ⟨gap, rfl, hg⟩ := skipSpaces_skipped hs
    obtain ⟨k, hk, hspell⟩ := closesAt_spelled hc
    rw [hk]
    have hr : Spells ([g, k] ++ r.tail) (⟨.closing tag, g.pos⟩ :: ts) := .lexeme hspell hr
    exact hr.skip hg
  | case3 => cases h
  | case4 => cases h
  | case5 dot gs g r hs _ s more hm _ tokens' rest' ht ih =>
    cases h
    obtain ⟨gap, rfl, hg⟩ := skipSpaces_skipped hs
    obtain ⟨lexeme, rfl, hspell⟩ := readSymbol_spelled hm
    exact (Spells.lexeme hspell (ih ht)).skip hg

theorem ends_comment_iff {g : Glyph} : (g.char = '#' && startsWith '}' gs) ↔
    ['#', '}'] <+: (g :: gs).map Glyph.char := by
  cases gs with
  | nil => simp [startsWith]
  | cons k gs =>
    simp only [startsWith, List.map_cons, List.cons_prefix_cons, Bool.and_eq_true,
      decide_eq_true_eq]
    constructor
    · rintro ⟨hg, hk⟩
      exact ⟨hg.symm, hk.symm, List.nil_prefix⟩
    · rintro ⟨hg, hk, -⟩
      exact ⟨hg.symm, hk.symm⟩

/-- A comment ends where the first `#` before a closing brace stands. -/
theorem dropComment_spelled (h : dropComment gs = some rest) :
    ∃ body, gs = body ++ rest ∧ ['#', '}'] <:+ body.map Glyph.char ∧
      ¬ ['#', '}'] <:+: (body.map Glyph.char).dropLast := by
  induction gs with
  | nil => cases h
  | cons g gs ih =>
    rw [dropComment] at h
    split at h
    · rename_i hc
      obtain ⟨hg, hw⟩ := Bool.and_eq_true_iff.1 hc
      obtain ⟨k, hk, hkc⟩ := startsWith_cons hw
      cases h
      refine ⟨[g, k], congrArg (g :: ·) hk, ?_, ?_⟩
      · simp [of_decide_eq_true hg, hkc]
      · intro hi
        have := hi.length_le
        simp at this
    · rename_i hc
      obtain ⟨body, rfl, hsuf, hno⟩ := ih h
      refine ⟨g :: body, rfl, hsuf.trans (List.suffix_cons _ _), ?_⟩
      have hne : body.map Glyph.char ≠ [] := by
        intro hn
        rw [hn] at hsuf
        cases List.suffix_nil.1 hsuf
      have hb : (g :: body).map Glyph.char <+: (g :: (body ++ rest)).map Glyph.char :=
        (List.prefix_append (g :: body) rest).map Glyph.char
      have hl := (List.dropLast_prefix ((g :: body).map Glyph.char)).trans hb
      rw [List.map_cons, List.dropLast_cons_of_ne_nil hne] at hl ⊢
      rw [List.infix_cons_iff]
      rintro (hp | hi)
      · exact hc (ends_comment_iff.2 (hp.trans hl))
      · exact hno hi

/-- The end of a comment does not start with a brace. -/
theorem infix_of_brace {cs : List Char} (h : ['#', '}'] <:+: '{' :: cs) : ['#', '}'] <:+: cs := by
  rcases List.infix_cons_iff.1 h with hp | hi
  · have := (List.cons_prefix_cons.1 hp).1
    cases this
  · exact hi

/-- The characters that open a tag are its delimiter. -/
theorem opener_chars {g k : Glyph} (ho : opens (g :: k :: gs)) (hk : ¬ k.char = '#') :
    [g.char, k.char] = (if k.char = '%' then Tag.block else Tag.output).opener.toList := by
  obtain ⟨hg, hc⟩ := Bool.and_eq_true_iff.1 ho
  have hc : k.char = '{' ∨ k.char = '%' := by
    simp only [opensTag, Bool.or_eq_true, decide_eq_true_eq] at hc
    exact hc.resolve_right hk
  rw [of_decide_eq_true hg]
  rcases hc with hc | hc <;> rw [hc] <;> rfl

/-- What a tag or comment was read from spells its tokens. -/
theorem readOpened_spelled {g k : Glyph} {p : Piece} (ho : opens (g :: k :: gs))
    (h : readOpened g k gs = .ok (p, rest)) (hr : Spells rest ts) :
    Spells (g :: k :: gs) (p.tokens ++ ts) := by
  have hg : g.char = '{' := of_decide_eq_true (Bool.and_eq_true_iff.1 ho).1
  unfold readOpened at h
  split at h
  · rename_i hc
    split at h
    · rename_i hd
      cases h
      obtain ⟨body, hb, hsuf, hno⟩ := dropComment_spelled hd
      have hcomment : IsComment ((g :: body).map Glyph.char) := by
        cases body with
        | nil => cases List.suffix_nil.1 hsuf
        | cons k' body =>
          obtain ⟨rfl, -⟩ := List.cons.inj hb
          refine ⟨by simp [hg, hc], hsuf.trans (List.suffix_cons _ _), ?_⟩
          rw [List.map_cons, hg, List.dropLast_cons_of_ne_nil (by simp)]
          exact fun hi => hno (infix_of_brace hi)
      rw [hb, ← List.cons_append]
      refine hr.skip ?_
      have hs := Skipped.comment hcomment .nil
      rwa [List.append_nil] at hs
    · cases h
  · rename_i hc
    simp only at h
    split at h
    · cases h
    · rename_i tokens r ht
      cases h
      have hr : Spells gs (tokens ++ ts) := readTag_spelled ht hr
      change Spells ([g, k] ++ gs) _
      refine .lexeme ?_ hr
      rw [List.map_cons, List.map_singleton, opener_chars ho hc]
      exact .opening _

/-- A text loses nothing but white space at its ends. -/
theorem kept_between_spaces (o : Options) (before : List Piece) (text : List Glyph)
    (after : List Piece) :
    ∃ front back, text = front ++ (kept o before text after ++ back) ∧
      (∀ g ∈ front, g.isSpace) ∧ ∀ g ∈ back, g.isSpace := by
  have htrimmed : ∃ front, text = front ++ trimmed o before text after ∧
      ∀ g ∈ front, g.isSpace := by
    rw [trimmed]
    split
    · rename_i ht
      have ht := (Bool.and_eq_true_iff.1 ht).2
      exact ⟨text.take (lineLength text), (List.take_append_drop _ _).symm, fun g hg =>
        isSpace_of_isTrimmable (List.all_eq_true.1 ht g hg)⟩
    · exact ⟨[], rfl, List.forall_mem_nil _⟩
  have hkept : ∃ back, trimmed o before text after = kept o before text after ++ back ∧
      ∀ g ∈ back, g.isSpace := by
    rw [kept]
    split
    · rename_i hi
      have hi := isSpace_of_indent (Bool.and_eq_true_iff.1 hi).2
      exact ⟨lastLine (trimmed o before text after), (fullLines_append_lastLine _).symm,
        List.all_eq_true.1 hi⟩
    · exact ⟨[], (List.append_nil _).symm, List.forall_mem_nil _⟩
  obtain ⟨front, hf, hfront⟩ := htrimmed
  obtain ⟨back, hb, hback⟩ := hkept
  exact ⟨front, back, hb ▸ hf, hfront, hback⟩

theorem textTokens_spelled (gs : List Glyph) (h : Spells rest ts) :
    Spells (gs ++ rest) (textTokens gs ++ ts) := by
  cases gs with
  | nil => exact h
  | cons g gs => exact .lexeme (.text (by simp)) h

theorem kept_spelled (o : Options) (before : List Piece) (text : List Glyph) (after : List Piece)
    (h : Spells rest ts) :
    Spells (text ++ rest) (textTokens (kept o before text after) ++ ts) := by
  -- what was dropped at either end of the text goes into the gaps next to its lexeme
  obtain ⟨front, back, ht, hfront, hback⟩ := kept_between_spaces o before text after
  have hs := textTokens_spelled (kept o before text after) (h.skip (skipped_spaces hback))
  have hs := hs.skip (skipped_spaces hfront)
  rwa [← List.append_assoc, ← List.append_assoc, List.append_assoc front, ← ht] at hs

theorem Layout.spelled {ps : List Piece} (h : Layout gs ps) (o : Options)
    (before : List Piece) : Spells gs (settled o before ps) := by
  induction h generalizing before with
  | @last text _ =>
    have hn : Spells [] [] := .nil .nil
    have hs := kept_spelled o before text [] hn
    rwa [List.append_nil] at hs
  | @tag text body rest g k p ps _ ho hp _ ih =>
    rw [settled, settled_opened hp]
    have ho : opens (g :: k :: (body ++ rest)) := ho
    exact kept_spelled o before text (p :: ps) (readOpened_spelled ho hp (ih _))

end Stencil.Template
