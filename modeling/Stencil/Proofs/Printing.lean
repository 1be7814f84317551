import Stencil.Proofs.Characters
import Stencil.Proofs.Integers
import Stencil.Template.Lexer

/-! Templates written from their symbols, and each symbol read back. What follows a symbol within
a tag is a space or the tag's end, and neither goes on with it. -/
namespace Stencil.Template

def escaped (cs : List Char) : List Char :=
  cs.flatMap fun c => if c = '"' || c = '\\' then ['\\', c] else [c]

namespace Symbol

def written : Symbol → String
  | text s => s
  | opening tag => tag.opener
  | closing tag => tag.closer
  | word name => name
  | keyword k => k.spelling
  | string s => String.ofList ('"' :: escaped s.toList ++ ['"'])
  | int n => toString n.toInt
  | float _ => ""
  | dot => "."
  | comma => ","
  | leftParen => "("
  | rightParen => ")"
  | leftBracket => "["
  | rightBracket => "]"
  | pipe => "|"
  | thousands => ":,"
  | compare op => op.symbol

end Symbol

def isName : List Char → Bool
  | [] => false
  | c :: cs => (c = '_' || Unicode.isAlphabetic c) &&
    cs.all fun d => d = '_' || Unicode.isAlphanumeric d

def Symbol.IsInner : Symbol → Prop
  | .word name => isName name.toList ∧ Keyword.ofWord? name = none
  | .text _ | .opening _ | .closing _ | .float _ => False
  | _ => True

/-- What may follow a symbol: a space or the first character of a closing delimiter. -/
def Ends (rest : List Glyph) : Prop :=
  ∃ g more, rest = g :: more ∧ (g.char = ' ' ∨ g.char = '}' ∨ g.char = '%')

variable {gs rest : List Glyph} (afterDot : Bool)

theorem not_continuesWord_of_isSpace {g : Glyph} (h : g.isSpace) : g.continuesWord = false := by
  have hu : g.char ≠ '_' := by
    intro hu
    rw [Glyph.isSpace, hu] at h
    exact absurd h (by decide)
  rw [Glyph.continuesWord, Unicode.not_isAlphanumeric_of_isSpace h]
  simp [hu]

theorem Ends.startsWith (h : Ends rest) {c : Char} (hc : c ∉ [' ', '}', '%']) :
    startsWith c rest = false := by
  obtain ⟨g, more, rfl, hg⟩ := h
  rw [Template.startsWith, decide_eq_false_iff_not]
  rintro rfl
  exact hc (by simpa using hg)

def Breaks (rest : List Glyph) : Prop :=
  ∃ g more, rest = g :: more ∧ g.continuesWord = false

theorem Ends.breaks (h : Ends rest) : Breaks rest := by
  obtain ⟨g, more, rfl, hg⟩ := h
  refine ⟨g, more, rfl, ?_⟩
  rcases hg with hg | hg | hg <;> rw [Glyph.continuesWord, hg] <;> decide

theorem takeWhile_breaks {p : Glyph → Bool} (h : ∀ g ∈ gs, p g) (hr : Breaks rest)
    (hp : ∀ g : Glyph, p g → g.continuesWord) :
    (gs ++ rest).takeWhile p = gs ∧ (gs ++ rest).dropWhile p = rest := by
  obtain ⟨g, more, rfl, hg⟩ := hr
  refine span_stop h fun a ha => ?_
  cases ha
  rw [Bool.eq_false_iff]
  intro h
  rw [hp g h] at hg
  cases hg

theorem readQuoted_escaped {cs : List Char} {q : Glyph} (hq : q.char = '"')
    (h : gs.map Glyph.char = escaped cs) :
    readQuoted '"' (gs ++ q :: rest) = some (cs, rest) := by
  induction cs generalizing gs with
  | nil =>
    cases List.map_eq_nil_iff.1 h
    rw [List.nil_append, readQuoted.eq_def]
    simp [hq]
  | cons c cs ih =>
    rw [escaped, List.flatMap_cons] at h
    by_cases hc : c = '"' || c = '\\'
    · rw [if_pos hc, List.cons_append, List.cons_append, List.nil_append] at h
      obtain ⟨g, gs, rfl, hg, h⟩ := List.map_eq_cons_iff.1 h
      obtain ⟨e, gs, rfl, he, h⟩ := List.map_eq_cons_iff.1 h
      have hu : unescape c = [c] := by
        rcases (by simpa using hc : c = '"' ∨ c = '\\') with rfl | rfl <;> rfl
      rw [List.cons_append, readQuoted.eq_def]
      simp [hg, he, ih h, hu]
    · rw [if_neg hc, List.cons_append, List.nil_append] at h
      obtain ⟨g, gs, rfl, hg, h⟩ := List.map_eq_cons_iff.1 h
      rw [List.cons_append, readQuoted.eq_def]
      simp only [Bool.or_eq_true, decide_eq_true_eq, not_or] at hc
      simp [hg, hc, ih h]

theorem readNumber_digits {digits : List Glyph} (hd : ∀ g ∈ digits, g.isDigit)
    (hr : Breaks rest) (hp : afterDot ∨ startsWith '.' rest = false) (negative : Bool) {n : Int64}
    (hn : Value.ofDigits? negative (digits.map Glyph.char) = some n) :
    readNumber afterDot negative (digits ++ rest) = .ok (.int n, rest) := by
  obtain ⟨hw, hs⟩ := takeWhile_breaks hd hr fun g hg => by
    rw [Glyph.continuesWord, Unicode.isAlphanumeric_of_isDigit hg, Bool.or_true]
  rw [readNumber, hw, hs]
  simp only [hn]
  split
  · rename_i p d more
    have hp : (!afterDot && p.char = '.') = false := by
      rcases hp with hp | hp
      · rw [hp]
        rfl
      · rw [startsWith] at hp
        rw [hp, Bool.and_false]
    rw [hp]
    rfl
  · rfl

def Reads (gs : List Glyph) (s : Symbol) (rest : List Glyph) : Prop :=
  ∃ g gs', gs = g :: gs' ∧ readSymbol afterDot g (gs' ++ rest) = .ok (s, rest)

inductive NumberStarts : Bool → List Glyph → List Glyph → Prop where
  | digit {gs : List Glyph} : gs.head?.any Glyph.isDigit → NumberStarts false gs gs
  | signed {g : Glyph} {gs : List Glyph} : g.char = '-' → gs.head?.any Glyph.isDigit →
      NumberStarts true gs (g :: gs)

theorem NumberStarts.read {negative : Bool} {ds : List Glyph} {g : Glyph}
    (h : NumberStarts negative ds (g :: gs)) :
    readSymbol afterDot g gs = readNumber afterDot negative ds := by
  cases h with
  | digit hd =>
    have hd : g.isDigit := hd
    have hq : g.char ≠ '"' ∧ g.char ≠ '\'' := by
      constructor <;> rintro he <;> rw [Glyph.isDigit, he] at hd <;> exact absurd hd (by decide)
    simp [readSymbol, hq, hd]
  | signed hg hd =>
    have hn : g.isDigit = false := by
      rw [Glyph.isDigit, hg]
      rfl
    simp [readSymbol, hg, hd, hn]

theorem reads_digits {negative : Bool} {digits : List Char} {n : Int64}
    (hd : digits ≠ [] ∧ ∀ c ∈ digits, c.isDigit)
    (hn : Value.ofDigits? negative digits = some n)
    (h : gs.map Glyph.char = (if negative then ['-'] else []) ++ digits) (hr : Breaks rest)
    (hp : afterDot ∨ startsWith '.' rest = false) : Reads afterDot gs (.int n) rest := by
  obtain ⟨signs, ds, rfl, hs, rfl⟩ := List.map_eq_append_iff.1 h
  have hg : ∀ g ∈ ds, g.isDigit := fun g hg => hd.2 g.char (List.mem_map_of_mem hg)
  have hv := readNumber_digits afterDot hg hr hp negative hn
  have hne : ds ≠ [] := fun he => hd.1 (List.map_eq_nil_iff.2 he)
  obtain ⟨g, ds, rfl⟩ := List.exists_cons_of_ne_nil hne
  have hd : (g :: (ds ++ rest)).head?.any Glyph.isDigit := hg g List.mem_cons_self
  cases negative with
  | false =>
    cases List.map_eq_nil_iff.1 hs
    exact ⟨g, ds, rfl, (NumberStarts.read afterDot (.digit hd)).trans hv⟩
  | true =>
    obtain ⟨m, rfl, hm⟩ := List.map_eq_singleton_iff.1 hs
    exact ⟨m, g :: ds, rfl, (NumberStarts.read afterDot (.signed hm hd)).trans hv⟩

theorem reads_int {n : Int64} (h : gs.map Glyph.char = (toString n.toInt).toList)
    (hr : Ends rest) : Reads afterDot gs (.int n) rest := by
  have hp : startsWith '.' rest = false := hr.startsWith (by decide)
  have hd (m : Nat) : Nat.toDigits 10 m ≠ [] ∧ ∀ c ∈ Nat.toDigits 10 m, c.isDigit :=
    ⟨Nat.toDigits_ne_nil, fun _ => Value.isDigit_of_toDigits⟩
  rcases Value.toList_toString n.toInt with ⟨m, hn, hs⟩ | ⟨m, -, hn, hs⟩
  · have hv : Value.ofDigits? false (Nat.toDigits 10 m) = some n := Value.ofDigits?_toDigits hn
    exact reads_digits afterDot (hd m) hv (h.trans hs) hr.breaks (.inr hp)
  · have hv : Value.ofDigits? true (Nat.toDigits 10 m) = some n := Value.ofDigits?_toDigits hn
    exact reads_digits afterDot (hd m) hv (h.trans hs) hr.breaks (.inr hp)

def startsSign (c : Char) : Bool :=
  c ≠ '"' && c ≠ '\'' && !c.isDigit && c ≠ '-' && !(c = '_' || Unicode.isAlphabetic c)

theorem readSymbol_sign {g : Glyph} (h : startsSign g.char) :
    readSymbol afterDot g gs = readSign g.char gs := by
  simp only [startsSign, Bool.and_eq_true, decide_eq_true_eq, Bool.not_eq_true'] at h
  obtain ⟨⟨⟨⟨hq, ha⟩, hd⟩, hm⟩, hw⟩ := h
  simp [readSymbol, Glyph.isDigit, Glyph.startsWord, hq, ha, hd, hm, hw]

theorem readSymbol_startsWord {g : Glyph} (h : g.startsWord) :
    readSymbol afterDot g gs = .ok (readWord (g :: gs)) := by
  have hn : ∀ c, (c = '_' || Unicode.isAlphabetic c) = false → g.char ≠ c := by
    rintro c hc rfl
    rw [Glyph.startsWord, hc] at h
    cases h
  have hd : g.isDigit = false := by
    rw [Bool.eq_false_iff]
    intro hg
    refine hn g.char ?_ rfl
    rw [Unicode.not_isAlphabetic_of_isDigit hg, Bool.or_false, decide_eq_false_iff_not]
    rintro hu
    rw [Glyph.isDigit, hu] at hg
    cases hg
  have hq : g.char ≠ '"' := hn _ (by decide)
  have ha : g.char ≠ '\'' := hn _ (by decide)
  have hm : g.char ≠ '-' := hn _ (by decide)
  simp [readSymbol, hq, ha, hd, hm, h]

theorem reads_name {name : String} (hn : isName name.toList)
    (h : gs.map Glyph.char = name.toList) (hr : Breaks rest) :
    Reads afterDot gs ((Keyword.ofWord? name).elim (.word name) .keyword) rest := by
  have ht : textOf gs = name := by rw [textOf, h, String.ofList_toList]
  rw [← h] at hn
  cases gs with
  | nil => cases hn
  | cons g gs =>
    obtain ⟨hc, hd⟩ := Bool.and_eq_true_iff.1 hn
    have hw : ∀ k ∈ g :: gs, k.continuesWord := by
      intro k hk
      rcases List.mem_cons.1 hk with rfl | hk
      · simp only [Bool.or_eq_true] at hc
        simpa [Glyph.continuesWord, Unicode.isAlphanumeric] using hc.imp_right .inl
      · exact List.all_eq_true.1 hd _ (List.mem_map_of_mem hk)
    obtain ⟨hl, hs⟩ := takeWhile_breaks hw hr fun _ => id
    rw [List.cons_append] at hl hs
    refine ⟨g, gs, rfl, (readSymbol_startsWord afterDot hc).trans ?_⟩
    rw [readWord, hl, hs, ht]
    cases Keyword.ofWord? name <;> rfl

theorem isName_spelling (k : Keyword) : isName k.spelling.toList := by
  cases k <;> decide

theorem ofWord?_spelling (k : Keyword) : Keyword.ofWord? k.spelling = some k := by
  cases k <;> decide

theorem two_glyphs {c d : Char} (h : gs.map Glyph.char = [c, d]) :
    ∃ g k : Glyph, gs = [g, k] ∧ g.char = c ∧ k.char = d := by
  obtain ⟨g, gs, rfl, hg, h⟩ := List.map_eq_cons_iff.1 h
  obtain ⟨k, rfl, hk⟩ := List.map_eq_singleton_iff.1 h
  exact ⟨g, k, rfl, hg, hk⟩

theorem reads_sign {c : Char} {s : Symbol} (hc : startsSign c) (h : gs.map Glyph.char = [c])
    (hs : readSign c rest = .ok (s, rest)) : Reads afterDot gs s rest := by
  obtain ⟨g, rfl, rfl⟩ := List.map_eq_singleton_iff.1 h
  exact ⟨g, [], rfl, (readSymbol_sign afterDot hc).trans hs⟩

theorem reads_signs {c d : Char} {s : Symbol} (hc : startsSign c)
    (h : gs.map Glyph.char = [c, d])
    (hs : ∀ k : Glyph, k.char = d → readSign c (k :: rest) = .ok (s, rest)) :
    Reads afterDot gs s rest := by
  obtain ⟨g, k, rfl, rfl, hk⟩ := two_glyphs h
  exact ⟨g, [k], rfl, (readSymbol_sign afterDot hc).trans (hs k hk)⟩

theorem reads_thousands (h : gs.map Glyph.char = [':', ',']) :
    Reads afterDot gs .thousands rest := by
  refine reads_signs afterDot (by decide) h fun k hk => ?_
  have hs : k.isSpace = false := by rw [Glyph.isSpace, hk]; decide
  simp [readSign, readThousands, skipSpaces, hs, hk]

/-- A comparison of two signs is taken whole, one of a single sign does not take what follows. -/
theorem reads_compare {op : Comparison} (h : gs.map Glyph.char = op.symbol.toList)
    (hr : Ends rest) : Reads afterDot gs (.compare op) rest := by
  have hn : startsWith '=' rest = false := hr.startsWith (by decide)
  have hy : ∀ k : Glyph, k.char = '=' → startsWith '=' (k :: rest) = true := by
    intro k hk
    simp [startsWith, hk]
  cases op with
  | lt => exact reads_sign afterDot (c := '<') (by decide) h (by simp [readSign, hn])
  | gt => exact reads_sign afterDot (c := '>') (by decide) h (by simp [readSign, hn])
  | eq =>
    refine reads_signs afterDot (c := '=') (d := '=') (by decide) h fun k hk => ?_
    simp [readSign, hy k hk]
  | ne =>
    refine reads_signs afterDot (c := '!') (d := '=') (by decide) h fun k hk => ?_
    simp [readSign, hy k hk]
  | le =>
    refine reads_signs afterDot (c := '<') (d := '=') (by decide) h fun k hk => ?_
    simp [readSign, hy k hk]
  | ge =>
    refine reads_signs afterDot (c := '>') (d := '=') (by decide) h fun k hk => ?_
    simp [readSign, hy k hk]

theorem reads_string {s : String} (h : gs.map Glyph.char = '"' :: escaped s.toList ++ ['"']) :
    Reads afterDot gs (.string s) rest := by
  obtain ⟨g, gs, rfl, hg, h⟩ := List.map_eq_cons_iff.1 h
  obtain ⟨body, qs, rfl, hb, h⟩ := List.map_eq_append_iff.1 h
  obtain ⟨q, rfl, hq⟩ := List.map_eq_singleton_iff.1 h
  refine ⟨g, _, rfl, ?_⟩
  rw [List.append_assoc, List.singleton_append]
  simp [readSymbol, hg, readQuoted_escaped hq hb, String.ofList_toList]

/-- A symbol is read from what is written for it. -/
theorem reads_written {s : Symbol} (hs : s.IsInner) (h : gs.map Glyph.char = s.written.toList)
    (hr : Ends rest) : Reads afterDot gs s rest := by
  cases s with
  | text | opening | closing | float => cases hs
  | word name =>
    have hn := reads_name afterDot hs.1 h hr.breaks
    rwa [hs.2, Option.elim_none] at hn
  | keyword k =>
    have hn := reads_name afterDot (isName_spelling k) h hr.breaks
    rwa [ofWord?_spelling, Option.elim_some] at hn
  | string s => exact reads_string afterDot (h.trans String.toList_ofList)
  | int n => exact reads_int afterDot h hr
  | thousands => exact reads_thousands afterDot h
  | compare op => exact reads_compare afterDot h hr
  | dot => exact reads_sign afterDot (c := '.') (by decide) h rfl
  | comma => exact reads_sign afterDot (c := ',') (by decide) h rfl
  | leftParen => exact reads_sign afterDot (c := '(') (by decide) h rfl
  | rightParen => exact reads_sign afterDot (c := ')') (by decide) h rfl
  | leftBracket => exact reads_sign afterDot (c := '[') (by decide) h rfl
  | rightBracket => exact reads_sign afterDot (c := ']') (by decide) h rfl
  | pipe => exact reads_sign afterDot (c := '|') (by decide) h rfl

def startsInner (c : Char) : Bool := !Unicode.isSpace c && c ≠ '}' && c ≠ '%'

theorem startsInner_of {p : Char → Bool} (hs : ∀ c, Unicode.isSpace c → p c = false)
    (hb : p '}' = false) (hp : p '%' = false) {c : Char} (h : p c) : startsInner c := by
  have hc : Unicode.isSpace c = false := by
    rw [Bool.eq_false_iff]
    intro hc
    rw [hs c hc] at h
    cases h
  have hne : c ≠ '}' ∧ c ≠ '%' := by
    constructor <;> rintro rfl
    · cases hb.symm.trans h
    · cases hp.symm.trans h
  simp [startsInner, hc, hne]

theorem isDigit_starts {c : Char} (h : c.isDigit) : startsInner c :=
  startsInner_of (fun _ => Unicode.not_isDigit_of_isSpace) (by decide) (by decide) h

theorem isName_starts {cs : List Char} (h : isName cs) :
    ∃ c ds, cs = c :: ds ∧ startsInner c := by
  cases cs with
  | nil => cases h
  | cons c cs =>
    refine ⟨c, cs, rfl, ?_⟩
    rcases Bool.or_eq_true_iff.1 (Bool.and_eq_true_iff.1 h).1 with hu | ha
    · rw [decide_eq_true_eq] at hu
      rw [hu]
      decide
    · exact startsInner_of (fun _ => Unicode.not_isAlphabetic_of_isSpace) (by decide)
        (by decide) ha

theorem toString_starts (n : Int) : ∃ c cs, (toString n).toList = c :: cs ∧ startsInner c := by
  rcases Value.toList_toString n with ⟨m, -, h⟩ | ⟨m, -, -, h⟩
  · obtain ⟨c, cs, hc⟩ := List.exists_cons_of_ne_nil (Nat.toDigits_ne_nil (n := m) (b := 10))
    refine ⟨c, cs, h.trans hc, ?_⟩
    exact isDigit_starts (Value.isDigit_of_toDigits (hc ▸ List.mem_cons_self))
  · exact ⟨_, _, h, by decide⟩

theorem Symbol.written_starts {s : Symbol} (h : s.IsInner) :
    ∃ c cs, s.written.toList = c :: cs ∧ startsInner c := by
  cases s with
  | text | opening | closing | float => cases h
  | word name => exact isName_starts h.1
  | keyword k => exact isName_starts (isName_spelling k)
  | int n => exact toString_starts n.toInt
  | string s => exact ⟨_, _, String.toList_ofList, by decide⟩
  | compare op => cases op <;> exact ⟨_, _, rfl, by decide⟩
  | _ => exact ⟨_, _, rfl, by decide⟩

end Stencil.Template
