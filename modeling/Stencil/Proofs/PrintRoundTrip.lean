import Stencil.Proofs.Layout
import Stencil.Proofs.Printing

/-! Reading a template that was written from its symbols gives the symbols again. -/
namespace Stencil.Template

inductive Part where
  | text (s : String)
  | tag (tag : Tag) (inner : List Symbol)
  deriving DecidableEq, Repr

def Part.symbols : Part → List Symbol
  | .text s => [.text s]
  | .tag t inner => .opening t :: inner ++ [.closing t]

def blanks (n : Nat) : String := String.ofList (List.replicate n ' ')

def spaced (inner : List Symbol) : String := " ".intercalate (inner.map Symbol.written)

def Part.written (margin : Nat) : Part → String
  | .text s => s
  | .tag t inner => t.opener ++ blanks margin ++ spaced inner ++ blanks margin ++ t.closer

def print (margin : Nat) (parts : List Part) : String :=
  String.join (parts.map (Part.written margin))

def IsText (s : String) : Prop :=
  s ≠ "" ∧ ∀ d ∈ ["\x7b\x7b", "\x7b%", "\x7b#"], ¬ d.toList <:+: s.toList

/-- No two texts meet, and a text before a tag does not end in a brace that would open it. -/
inductive Writable : List Part → Prop where
  | nil : Writable []
  | tag {inner parts} (tag) : (∀ s ∈ inner, s.IsInner) → Writable parts →
      Writable (.tag tag inner :: parts)
  | last {s} : IsText s → Writable [.text s]
  | text {s tag inner parts} : IsText s → ¬ ['{'] <:+ s.toList →
      Writable (.tag tag inner :: parts) → Writable (.text s :: .tag tag inner :: parts)

variable {gs rest : List Glyph} {tag : Tag} {opener : Pos} (afterDot : Bool)

theorem skipSpaces_blanks {n : Nat} (h : gs.map Glyph.char = List.replicate n ' ') :
    skipSpaces (gs ++ rest) = skipSpaces rest := by
  refine List.dropWhile_append_of_pos fun g hg => ?_
  have hc : g.char ∈ List.replicate n ' ' := h ▸ List.mem_map_of_mem hg
  rw [Glyph.isSpace, (List.mem_replicate.1 hc).2]
  decide

theorem readTag_close {g : Glyph} (hs : skipSpaces gs = g :: rest) (hc : tag.closesAt g rest) :
    readTag tag opener afterDot gs = .ok ([⟨.closing tag, g.pos⟩], rest.tail) := by
  rw [readTag]
  split
  · rename_i hn
    cases hs.symm.trans hn
  · rename_i hn
    cases hs.symm.trans hn
    rw [if_pos hc]

theorem readTag_symbol {g : Glyph} {s : Symbol} {more rest' : List Glyph} {tokens : List Token}
    (hs : skipSpaces gs = g :: rest) (hc : tag.closesAt g rest = false)
    (hg : readSymbol afterDot g rest = .ok (s, more))
    (hm : readTag tag opener (s = .dot) more = .ok (tokens, rest')) :
    readTag tag opener afterDot gs = .ok (⟨s, g.pos⟩ :: tokens, rest') := by
  rw [readTag]
  split
  · rename_i hn
    cases hs.symm.trans hn
  · rename_i hn
    cases hs.symm.trans hn
    rw [if_neg (Bool.eq_false_iff.1 hc)]
    split
    · rename_i he
      cases he.symm.trans hg
    · rename_i he
      cases he.symm.trans hg
      rw [hm]

theorem closesAt_of_starts {g : Glyph} (h : startsInner g.char) :
    tag.closesAt g gs = false := by
  simp only [startsInner, Bool.and_eq_true, decide_eq_true_eq] at h
  cases tag <;> simp [Tag.closesAt, h.1.2, h.2]

theorem not_space_of_starts {g : Glyph} (h : startsInner g.char) : g.isSpace = false := by
  simp only [startsInner, Bool.and_eq_true, Bool.not_eq_true'] at h
  exact h.1.1

@[simp] theorem toList_blanks (n : Nat) : (blanks n).toList = List.replicate n ' ' :=
  String.toList_ofList

@[simp] theorem spaced_nil : spaced [] = "" := rfl

theorem toList_spaced (s : Symbol) (inner : List Symbol) :
    (spaced (s :: inner)).toList = s.written.toList ++
      (List.replicate (min 1 inner.length) ' ' ++ (spaced inner).toList) := by
  cases inner with
  | nil =>
    rw [spaced, List.map_singleton, String.intercalate_singleton]
    simp
  | cons k inner =>
    have hm : min 1 (k :: inner).length = 1 := by simp only [List.length_cons]; omega
    rw [spaced, List.map_cons, List.map_cons, String.intercalate_cons_cons, hm]
    simp [spaced]

theorem skipSpaces_cons {g : Glyph} (h : g.isSpace = false) : skipSpaces (g :: gs) = g :: gs :=
  List.dropWhile_cons_of_neg (by simp [h])

theorem Tag.closer_closes (h : gs.map Glyph.char = tag.closer.toList) (rest : List Glyph) :
    ∃ g k, gs = [g, k] ∧ g.isSpace = false ∧ tag.closesAt g (k :: rest) ∧
      Ends (g :: k :: rest) := by
  cases tag with
  | output =>
    obtain ⟨g, k, rfl, hg, hk⟩ := two_glyphs (c := '}') (d := '}') h
    refine ⟨g, k, rfl, ?_, by simp [closesAt, startsWith, hg, hk], g, _, rfl, .inr (.inl hg)⟩
    rw [Glyph.isSpace, hg]
    decide
  | block =>
    obtain ⟨g, k, rfl, hg, hk⟩ := two_glyphs (c := '%') (d := '}') h
    refine ⟨g, k, rfl, ?_, by simp [closesAt, startsWith, hg, hk], g, _, rfl, .inr (.inr hg)⟩
    rw [Glyph.isSpace, hg]
    decide

theorem ends_of_space {cs : List Char} (h : gs.map Glyph.char = ' ' :: cs) :
    Ends (gs ++ rest) := by
  obtain ⟨g, gs, rfl, hg, _⟩ := List.map_eq_cons_iff.1 h
  exact ⟨g, gs ++ rest, rfl, .inl hg⟩

/-- What is written after a symbol of a tag starts with a space or with the tag's end. -/
theorem ends_of_written {inner : List Symbol} {margin : Nat}
    (h : gs.map Glyph.char = List.replicate (min 1 inner.length) ' ' ++
      ((spaced inner).toList ++ (List.replicate margin ' ' ++ tag.closer.toList)))
    (rest : List Glyph) : Ends (gs ++ rest) := by
  cases inner with
  | nil =>
    cases margin with
    | zero =>
      obtain ⟨g, k, rfl, _, _, he⟩ := Tag.closer_closes (by simpa using h) rest
      exact he
    | succ margin => exact ends_of_space (by simpa [List.replicate_succ] using h)
  | cons s inner =>
    have hm : min 1 (s :: inner).length = 1 := by simp only [List.length_cons]; omega
    rw [hm] at h
    exact ends_of_space h

theorem readTag_written {inner : List Symbol} (hi : ∀ s ∈ inner, s.IsInner) {lead margin : Nat}
    (h : gs.map Glyph.char = List.replicate lead ' ' ++
      ((spaced inner).toList ++ (List.replicate margin ' ' ++ tag.closer.toList))) :
    ∃ tokens, readTag tag opener afterDot (gs ++ rest) = .ok (tokens, rest) ∧
      tokens.map Token.symbol = inner ++ [.closing tag] := by
  -- on the symbols to come: after each the rest is written the same way, with other spaces first
  induction inner generalizing gs lead afterDot with
  | nil =>
    obtain ⟨as, gs, rfl, ha, h⟩ := List.map_eq_append_iff.1 h
    rw [spaced_nil, String.toList_empty, List.nil_append] at h
    obtain ⟨bs, cl, rfl, hb, h⟩ := List.map_eq_append_iff.1 h
    obtain ⟨g, k, rfl, hg, hc, _⟩ := Tag.closer_closes h rest
    refine ⟨_, readTag_close afterDot ?_ hc, rfl⟩
    rw [List.append_assoc, skipSpaces_blanks ha, List.append_assoc, skipSpaces_blanks hb]
    exact skipSpaces_cons hg
  | cons s inner ih =>
    rw [toList_spaced, List.append_assoc, List.append_assoc] at h
    obtain ⟨bs, gs, rfl, hb, h⟩ := List.map_eq_append_iff.1 h
    obtain ⟨sg, more, rfl, hs, h⟩ := List.map_eq_append_iff.1 h
    have hi' := fun k hk => hi k (List.mem_cons_of_mem s hk)
    have hi := hi s List.mem_cons_self
    obtain ⟨tokens, ht, hk⟩ := ih (s = .dot) hi' h
    obtain ⟨g, gs, rfl, hg⟩ := reads_written afterDot hi hs
      (ends_of_written h rest)
    have hc : startsInner g.char := by
      obtain ⟨c, cs, hw, hc⟩ := Symbol.written_starts hi
      cases hs.trans hw
      exact hc
    refine ⟨⟨s, g.pos⟩ :: tokens, readTag_symbol afterDot ?_ (closesAt_of_starts hc) hg ht, ?_⟩
    · rw [List.append_assoc, skipSpaces_blanks hb, List.append_assoc]
      exact skipSpaces_cons (not_space_of_starts hc)
    · rw [List.map_cons, hk]
      rfl

theorem Tag.opener_opens (h : gs.map Glyph.char = tag.opener.toList) :
    ∃ g k, gs = [g, k] ∧ g.char = '{' ∧ opensTag k.char ∧ k.char ≠ '#' ∧
      (if k.char = '%' then block else output) = tag := by
  cases tag with
  | output =>
    obtain ⟨g, k, rfl, hg, hk⟩ := two_glyphs (c := '{') (d := '{') h
    exact ⟨g, k, rfl, hg, by rw [hk]; decide, by rw [hk]; decide, by rw [hk]; rfl⟩
  | block =>
    obtain ⟨g, k, rfl, hg, hk⟩ := two_glyphs (c := '{') (d := '%') h
    exact ⟨g, k, rfl, hg, by rw [hk]; decide, by rw [hk]; decide, by rw [hk]; rfl⟩

/-- The tag that was written comes first, and what follows it is left. -/
theorem readOpened_written {inner : List Symbol} (hi : ∀ s ∈ inner, s.IsInner) {margin : Nat}
    (h : gs.map Glyph.char = (Part.written margin (.tag tag inner)).toList)
    (rest : List Glyph) :
    ∃ g k body tokens, gs = g :: k :: body ∧ opens gs ∧
      readOpened g k (body ++ rest) = .ok (.tag tag tokens, rest) ∧
      tokens.map Token.symbol = Part.symbols (.tag tag inner) := by
  simp only [Part.written, String.toList_append, List.append_assoc, toList_blanks] at h
  obtain ⟨ds, body, rfl, hd, hb⟩ := List.map_eq_append_iff.1 h
  obtain ⟨g, k, rfl, hg, ho, hk, ht⟩ := Tag.opener_opens hd
  obtain ⟨tokens, hr, hs⟩ : ∃ tokens, readTag tag g.pos false (body ++ rest) = .ok (tokens, rest) ∧
      tokens.map Token.symbol = inner ++ [.closing tag] := readTag_written false hi hb
  refine ⟨g, k, body, ⟨.opening tag, g.pos⟩ :: tokens, rfl, ?_, ?_, ?_⟩
  · simp [opens, hg, ho]
  · rw [readOpened, if_neg hk, ht]
    simp only [hr]
  · rw [List.map_cons, hs]
    rfl

theorem plain_of_isText {s : String} (hs : IsText s) (h : gs.map Glyph.char = s.toList)
    (hr : rest = [] ∨ ¬ ['{'] <:+ s.toList) : Plain gs rest := by
  rintro a g b rfl
  obtain ⟨_, hd⟩ := hs
  rw [← h, List.map_append, List.map_cons] at hd hr
  rw [Bool.eq_false_iff]
  intro ho
  cases b with
  | nil =>
    cases rest with
    | nil => cases ho
    | cons k rest =>
      have hg : g.char = '{' := of_decide_eq_true (Bool.and_eq_true_iff.1 ho).1
      rcases hr with hn | hn
      · cases hn
      · exact hn ⟨a.map Glyph.char, by rw [hg, List.map_nil]⟩
  | cons k b =>
    simp only [opens, List.cons_append, Bool.and_eq_true, decide_eq_true_eq, opensTag,
      Bool.or_eq_true] at ho
    obtain ⟨hg, (hk | hk) | hk⟩ := ho
    · exact hd "\x7b\x7b" (by simp) ⟨a.map Glyph.char, b.map Glyph.char, by simp [hg, hk]⟩
    · exact hd "\x7b%" (by simp) ⟨a.map Glyph.char, b.map Glyph.char, by simp [hg, hk]⟩
    · exact hd "\x7b#" (by simp) ⟨a.map Glyph.char, b.map Glyph.char, by simp [hg, hk]⟩

theorem pieces_text {text : List Glyph} (ht : Plain text gs) (ho : opens gs) :
    pieces (text ++ gs) = (pieces gs).map (shown [.text text] ++ ·) := by
  obtain ⟨g, k, rest, rfl⟩ := opens_two ho
  have hg : splitOpener (g :: k :: rest) = ([], g :: k :: rest) :=
    splitOpener_plain plain_nil (.inr ho)
  rw [pieces_opened (splitOpener_plain ht (.inr ho)), pieces_opened hg]
  cases readOpened g k rest with
  | error e => rfl
  | ok r =>
    simp only [Except.bind]
    cases pieces r.2 <;> rfl

theorem print_cons (margin : Nat) (p : Part) (parts : List Part) :
    (print margin (p :: parts)).toList =
      (p.written margin).toList ++ (print margin parts).toList := by
  rw [print, List.map_cons, String.join_cons, String.toList_append]
  rfl

theorem text_symbols {s : String} (hs : IsText s) (h : gs.map Glyph.char = s.toList) :
    shown [.text gs] = [.text gs] ∧ (textTokens gs).map Token.symbol = [.text s] := by
  cases gs with
  | nil => exact absurd (String.toList_eq_nil_iff.1 h.symm) hs.1
  | cons g gs =>
    refine ⟨rfl, ?_⟩
    rw [textTokens, textOf, h, String.ofList_toList]
    rfl

theorem print_opens {margin : Nat} {inner : List Symbol} {parts : List Part}
    (h : gs.map Glyph.char = (print margin (.tag tag inner :: parts)).toList) : opens gs := by
  simp only [print_cons, Part.written, String.toList_append, List.append_assoc] at h
  obtain ⟨ds, body, rfl, hd, _⟩ := List.map_eq_append_iff.1 h
  obtain ⟨g, k, rfl, hg, ho, _⟩ := Tag.opener_opens hd
  simp [opens, hg, ho]

theorem pieces_written {parts : List Part} (h : Writable parts) (margin : Nat) :
    ∀ {gs : List Glyph}, gs.map Glyph.char = (print margin parts).toList →
      ∃ ps, pieces gs = .ok ps ∧ ∀ dirty afterBlock,
        (settle ⟨false, false⟩ dirty afterBlock ps).map Token.symbol =
          parts.flatMap Part.symbols := by
  induction h with
  | nil =>
    intro gs h
    cases List.map_eq_nil_iff.1 h
    exact ⟨_, pieces_last rfl, fun _ _ => rfl⟩
  | @tag inner parts t hi hp ih =>
    intro gs h
    rw [print_cons] at h
    obtain ⟨gt, more, rfl, ht, hm⟩ := List.map_eq_append_iff.1 h
    obtain ⟨g, k, body, tokens, rfl, ho, hr, hs⟩ := readOpened_written hi ht more
    obtain ⟨ps, hps, hsettle⟩ := ih hm
    have hsplit : splitOpener (g :: k :: body ++ more) = ([], g :: k :: (body ++ more)) :=
      splitOpener_plain plain_nil (.inr ho)
    refine ⟨.tag t tokens :: ps, ?_, ?_⟩
    · rw [pieces_opened hsplit, hr]
      simp only [Except.bind, hps]
      rfl
    · intro dirty afterBlock
      rw [List.flatMap_cons, ← hs]
      cases t with
      | output => rw [settle, List.map_append, hsettle]
      | block => rw [settle, List.map_append, hsettle]
  | @last s hs =>
    intro gs h
    have h : gs.map Glyph.char = s.toList := by
      rw [h, print_cons]
      exact List.append_nil _
    have hsplit : splitOpener (gs ++ []) = (gs, []) :=
      splitOpener_plain (plain_of_isText hs h (.inl rfl)) (.inl rfl)
    rw [List.append_nil] at hsplit
    obtain ⟨hg, ht⟩ := text_symbols hs h
    refine ⟨[.text gs], hg ▸ pieces_last hsplit, fun dirty afterBlock => ?_⟩
    exact (congrArg (List.map _) (List.append_nil (textTokens gs))).trans ht
  | @text s t inner parts hs he hp ih =>
    intro gs h
    rw [print_cons] at h
    obtain ⟨text, more, rfl, ht, hm⟩ := List.map_eq_append_iff.1 h
    obtain ⟨ps, hps, hsettle⟩ := ih hm
    obtain ⟨hg, hsymbols⟩ := text_symbols hs ht
    refine ⟨.text text :: ps, ?_, fun dirty afterBlock => ?_⟩
    · rw [pieces_text (plain_of_isText hs ht (.inr he)) (print_opens hm), hps, hg]
      rfl
    · rw [List.flatMap_cons, ← hsettle (dirties dirty text) false]
      exact List.map_append.trans (congrArg (· ++ _) hsymbols)

theorem map_char_locate (p : Pos) (cs : List Char) : (locate p cs).map Glyph.char = cs := by
  induction cs generalizing p with
  | nil => rfl
  | cons c cs ih => rw [locate, List.map_cons, ih]

/-- A template that is written from its symbols is read as these symbols. -/
theorem tokenize_print {parts : List Part} (h : Writable parts) (margin : Nat) :
    (tokenize ⟨false, false⟩ (print margin parts)).map (·.map Token.symbol) =
      .ok (parts.flatMap Part.symbols) := by
  obtain ⟨ps, hp, hs⟩ := pieces_written h margin (map_char_locate Pos.start _)
  rw [tokenize, glyphs, hp]
  exact congrArg Except.ok (hs false false)

/-- A number after a dot, the least integer, and a string that holds a delimiter and a quote. -/
theorem tokenize_print_delimiters :
    let parts : List Part := [.text "a \x7d ",
      .tag .output [.word "x", .dot, .int 0, .pipe, .word "f"],
      .tag .block [.keyword .if_, .string "%\x7d\"\\", .compare .le, .int Int64.minValue],
      .text "\x7b"]
    Writable parts ∧
    print 1 parts = "a \x7d \x7b\x7b x . 0 | f \x7d\x7d" ++
      "\x7b% if \"%\x7d\\\"\\\\\" <= -9223372036854775808 %\x7d\x7b" ∧
    (tokenize ⟨false, false⟩ (print 1 parts)).map (·.map Token.symbol) =
      .ok (parts.flatMap Part.symbols) := by
  intro parts
  have hw : Writable parts := by
    refine .text ⟨by decide, by decide⟩ (by decide)
      (.tag _ ?_ (.tag _ ?_ (.last ⟨by decide, by decide⟩)))
    · simp only [List.forall_mem_cons, Symbol.IsInner]
      exact ⟨by decide, trivial, trivial, trivial, by decide, by simp⟩
    · simp [Symbol.IsInner]
  exact ⟨hw, by decide, tokenize_print hw 1⟩

end Stencil.Template
