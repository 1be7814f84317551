import Stencil.Template.Token

/-! The tokens of a template. It is first divided into raw texts and tags, and then the white space
around tags is dropped: a line that holds only block tags and comments leaves neither its line feed
nor its indentation. -/
namespace Stencil.Template

def Glyph.isSpace (g : Glyph) : Bool := Unicode.isSpace g.char

def Glyph.isDigit (g : Glyph) : Bool := g.char.isDigit

def Glyph.startsWord (g : Glyph) : Bool := g.char = '_' || Unicode.isAlphabetic g.char

def Glyph.continuesWord (g : Glyph) : Bool := g.char = '_' || Unicode.isAlphanumeric g.char

def skipSpaces (gs : List Glyph) : List Glyph := gs.dropWhile Glyph.isSpace

def unescape (c : Char) : List Char :=
  match c with
  | 'n' => ['\n']
  | 't' => ['\t']
  | 'r' => ['\r']
  | '\\' => ['\\']
  | '"' => ['"']
  | '\'' => ['\'']
  -- an unknown escape keeps its backslash
  | _ => ['\\', c]

def readQuoted (quote : Char) : List Glyph → Option (List Char × List Glyph)
  | [] => none
  | g :: gs =>
    if g.char = quote then some ([], gs)
    else if g.char = '\\' then
      match gs with
      | [] => none
      | e :: rest => (readQuoted quote rest).map fun r => (unescape e.char ++ r.1, r.2)
    else (readQuoted quote gs).map fun r => (g.char :: r.1, r.2)

def readNumber (afterDot negative : Bool) (gs : List Glyph) : Except Cause (Symbol × List Glyph) :=
  let whole := gs.takeWhile Glyph.isDigit
  let rest := gs.dropWhile Glyph.isDigit
  let digits := whole.map Glyph.char
  let integer : Except Cause (Symbol × List Glyph) :=
    match Value.ofDigits? negative digits with
    | some n => .ok (.int n, rest)
    | none =>
      .error (.integerOutOfRange (String.ofList (if negative then '-' :: digits else digits)))
  match rest with
  | p :: d :: more =>
    -- after a dot a number is an index, so that `a.0.1` holds no float
    if !afterDot && p.char = '.' && d.isDigit then
      let places := ((d :: more).takeWhile Glyph.isDigit).map Glyph.char
      let x := Decimal.toFloat ⟨Nat.ofDigitChars 10 (digits ++ places) 0, -places.length⟩
      .ok (.float (if negative then -x else x), (d :: more).dropWhile Glyph.isDigit)
    else integer
  | _ => integer

def readWord (gs : List Glyph) : Symbol × List Glyph :=
  let word := textOf (gs.takeWhile Glyph.continuesWord)
  let symbol :=
    match Keyword.ofWord? word with
    | some k => .keyword k
    | none => .word word
  (symbol, gs.dropWhile Glyph.continuesWord)

def readThousands (gs : List Glyph) : Except Cause (Symbol × List Glyph) :=
  match skipSpaces gs with
  | g :: rest => if g.char = ',' then .ok (.thousands, rest) else .error .loneColon
  | [] => .error .loneColon

def startsWith (c : Char) : List Glyph → Bool
  | g :: _ => g.char = c
  | [] => false

def readSign (c : Char) (gs : List Glyph) : Except Cause (Symbol × List Glyph) :=
  match c with
  | '=' =>
    if startsWith '=' gs then .ok (.compare .eq, gs.tail) else .error (.unexpectedCharacter c)
  | '!' =>
    if startsWith '=' gs then .ok (.compare .ne, gs.tail) else .error (.unexpectedCharacter c)
  | '<' => .ok (if startsWith '=' gs then (.compare .le, gs.tail) else (.compare .lt, gs))
  | '>' => .ok (if startsWith '=' gs then (.compare .ge, gs.tail) else (.compare .gt, gs))
  | ':' => readThousands gs
  | '.' => .ok (.dot, gs)
  | ',' => .ok (.comma, gs)
  | '(' => .ok (.leftParen, gs)
  | ')' => .ok (.rightParen, gs)
  | '[' => .ok (.leftBracket, gs)
  | ']' => .ok (.rightBracket, gs)
  | '|' => .ok (.pipe, gs)
  | _ => .error (.unexpectedCharacter c)

/-- The symbol that starts with `g`; every error is reported there. -/
def readSymbol (afterDot : Bool) (g : Glyph) (gs : List Glyph) :
    Except Cause (Symbol × List Glyph) :=
  if g.char = '"' || g.char = '\'' then
    match readQuoted g.char gs with
    | some (cs, rest) => .ok (.string (String.ofList cs), rest)
    | none => .error .unterminatedString
  else if g.isDigit then readNumber afterDot false (g :: gs)
  else if g.char = '-' && gs.head?.any Glyph.isDigit then readNumber afterDot true gs
  else if g.startsWord then .ok (readWord (g :: gs))
  else readSign g.char gs

theorem dropWhile_length (p : Glyph → Bool) (gs : List Glyph) :
    (gs.dropWhile p).length ≤ gs.length :=
  (List.dropWhile_sublist p).length_le

theorem dropWhile_length_of_head {p : Glyph → Bool} {g : Glyph} (h : p g) (gs : List Glyph) :
    ((g :: gs).dropWhile p).length ≤ gs.length := by
  rw [List.dropWhile_cons_of_pos h]
  exact dropWhile_length p gs

theorem readQuoted_length {quote : Char} {gs rest : List Glyph} {cs : List Char}
    (h : readQuoted quote gs = some (cs, rest)) : rest.length < gs.length := by
  fun_induction readQuoted quote gs generalizing cs rest with
  | case1 => simp at h
  | case2 g gs => simp at h; simp [h.2]
  | case3 => simp at h
  | case4 g e r _ _ ih =>
    simp only [Option.map_eq_some_iff, Prod.mk.injEq] at h
    obtain ⟨⟨cs', r'⟩, hr, _, rfl⟩ := h
    have := ih hr
    simp only [List.length_cons]
    omega
  | case5 g gs _ _ ih =>
    simp only [Option.map_eq_some_iff, Prod.mk.injEq] at h
    obtain ⟨⟨cs', r'⟩, hr, _, rfl⟩ := h
    have := ih hr
    simp only [List.length_cons]
    omega

theorem readNumber_length {afterDot negative : Bool} {gs rest : List Glyph} {s : Symbol}
    (h : readNumber afterDot negative gs = .ok (s, rest)) :
    rest.length ≤ (gs.dropWhile Glyph.isDigit).length := by
  unfold readNumber at h
  simp only at h
  split at h
  · rename_i p d more hr
    rw [hr]
    split at h
    · simp at h
      rw [← h.2]
      have := dropWhile_length Glyph.isDigit (d :: more)
      simp only [List.length_cons] at *
      omega
    · split at h <;> simp at h
      simp [← h.2, hr]
  · split at h <;> simp at h
    simp [← h.2]

theorem readThousands_length {gs rest : List Glyph} {s : Symbol}
    (h : readThousands gs = .ok (s, rest)) : rest.length ≤ gs.length := by
  unfold readThousands at h
  split at h
  · rename_i g r hr
    split at h <;> simp at h
    have := dropWhile_length Glyph.isSpace gs
    rw [skipSpaces] at hr
    rw [hr] at this
    simp only [List.length_cons] at this
    rw [← h.2]
    omega
  · simp at h

theorem readSign_length {c : Char} {gs rest : List Glyph} {s : Symbol}
    (h : readSign c gs = .ok (s, rest)) : rest.length ≤ gs.length := by
  unfold readSign at h
  split at h
  case h_5 => exact readThousands_length h
  all_goals (try split at h) <;> simp at h
  all_goals obtain ⟨_, rfl⟩ := h; simp

theorem readSymbol_length {afterDot : Bool} {g : Glyph} {gs rest : List Glyph} {s : Symbol}
    (h : readSymbol afterDot g gs = .ok (s, rest)) : rest.length ≤ gs.length := by
  unfold readSymbol at h
  split at h
  · split at h
    · rename_i hq
      simp at h
      rw [← h.2]
      exact Nat.le_of_lt (readQuoted_length hq)
    · simp at h
  split at h
  · rename_i hd
    exact Nat.le_trans (readNumber_length h) (dropWhile_length_of_head hd gs)
  split at h
  · exact Nat.le_trans (readNumber_length h) (dropWhile_length _ gs)
  split at h
  · rename_i hw
    have hw : g.continuesWord := by
      simp only [Glyph.startsWord, Glyph.continuesWord, Unicode.isAlphanumeric, Bool.or_eq_true]
        at hw ⊢
      exact hw.imp_right Or.inl
    simp only [readWord, Except.ok.injEq, Prod.mk.injEq] at h
    rw [← h.2]
    exact dropWhile_length_of_head hw gs
  · exact readSign_length h

inductive Piece where
  | text (gs : List Glyph)
  | tag (tag : Tag) (tokens : List Token)
  | comment
  deriving DecidableEq, Repr

def opensTag (c : Char) : Bool := c = '{' || c = '%' || c = '#'

def splitOpener : List Glyph → List Glyph × List Glyph
  | [] => ([], [])
  | g :: gs =>
    if g.char = '{' && gs.head?.any (opensTag ·.char) then ([], g :: gs)
    else
      let (text, rest) := splitOpener gs
      (g :: text, rest)

/-- What follows the first `#` that stands before a closing brace. -/
def dropComment : List Glyph → Option (List Glyph)
  | [] => none
  | g :: gs =>
    if g.char = '#' && startsWith '}' gs then some gs.tail else dropComment gs

def Tag.closesAt (tag : Tag) (g : Glyph) (gs : List Glyph) : Bool :=
  match tag with
  | output => g.char = '}' && startsWith '}' gs
  | block => g.char = '%' && startsWith '}' gs

def readTag (tag : Tag) (opener : Pos) (afterDot : Bool) (gs : List Glyph) :
    Except ParseError (List Token × List Glyph) :=
  match hs : skipSpaces gs with
  | [] => .error ⟨.unterminatedTag tag, opener⟩
  | g :: rest =>
    if tag.closesAt g rest then .ok ([⟨.closing tag, g.pos⟩], rest.tail)
    else
      match h : readSymbol afterDot g rest with
      | .error cause => .error ⟨cause, g.pos⟩
      | .ok (s, more) =>
        have : more.length < gs.length := by
          have := dropWhile_length Glyph.isSpace gs
          rw [← skipSpaces, hs, List.length_cons] at this
          have := readSymbol_length h
          omega
        match readTag tag opener (s = .dot) more with
        | .error e => .error e
        | .ok (tokens, rest) => .ok (⟨s, g.pos⟩ :: tokens, rest)
termination_by gs.length

theorem readTag_length {tag : Tag} {opener : Pos} {afterDot : Bool} {gs rest : List Glyph}
    {tokens : List Token} (h : readTag tag opener afterDot gs = .ok (tokens, rest)) :
    rest.length < gs.length := by
  fun_induction readTag tag opener afterDot gs generalizing tokens rest with
  | case1 => simp at h
  | case2 dot gs g r hs =>
    have := dropWhile_length Glyph.isSpace gs
    rw [← skipSpaces, hs, List.length_cons] at this
    simp only [Except.ok.injEq, Prod.mk.injEq] at h
    rw [← h.2, List.length_tail]
    omega
  | case3 => simp at h
  | case4 => simp at h
  | case5 dot gs g r hs _ s more hm hlt tokens' rest' hr ih =>
    simp only [Except.ok.injEq, Prod.mk.injEq] at h
    rw [← h.2]
    exact Nat.lt_trans (ih hr) hlt

theorem splitOpener_length (gs : List Glyph) : (splitOpener gs).2.length ≤ gs.length := by
  induction gs with
  | nil => simp [splitOpener]
  | cons g gs ih =>
    unfold splitOpener
    split
    · simp
    · exact Nat.le_succ_of_le ih

theorem dropComment_length {gs rest : List Glyph} (h : dropComment gs = some rest) :
    rest.length < gs.length := by
  induction gs with
  | nil => simp [dropComment] at h
  | cons g gs ih =>
    unfold dropComment at h
    split at h
    · simp only [Option.some.injEq] at h
      rw [← h, List.length_tail, List.length_cons]
      omega
    · exact Nat.lt_succ_of_lt (ih h)

def readOpened (g k : Glyph) (gs : List Glyph) : Except ParseError (Piece × List Glyph) :=
  if k.char = '#' then
    match dropComment (k :: gs) with
    | some rest => .ok (.comment, rest)
    | none => .error ⟨.unterminatedComment, g.pos⟩
  else
    let tag : Tag := if k.char = '%' then .block else .output
    match readTag tag g.pos false gs with
    | .error e => .error e
    | .ok (tokens, rest) => .ok (.tag tag (⟨.opening tag, g.pos⟩ :: tokens), rest)

theorem readOpened_length {g k : Glyph} {gs rest : List Glyph} {p : Piece}
    (h : readOpened g k gs = .ok (p, rest)) : rest.length < (g :: k :: gs).length := by
  unfold readOpened at h
  split at h
  · split at h
    · rename_i hc
      have := dropComment_length hc
      simp only [Except.ok.injEq, Prod.mk.injEq] at h
      rw [← h.2]
      simp only [List.length_cons] at this ⊢
      omega
    · simp at h
  · simp only at h
    split at h
    · simp at h
    · rename_i ht
      have := readTag_length ht
      simp only [Except.ok.injEq, Prod.mk.injEq] at h
      rw [← h.2]
      simp only [List.length_cons]
      omega

/-- Texts and tags in turn; an empty text is left out. -/
def pieces (gs : List Glyph) : Except ParseError (List Piece) :=
  let text := (splitOpener gs).1
  let here : List Piece := if text = [] then [] else [.text text]
  have hl := splitOpener_length gs
  match hs : (splitOpener gs).2 with
  | g :: k :: rest =>
    match h : readOpened g k rest with
    | .error e => .error e
    | .ok (p, more) =>
      have : more.length < gs.length := by
        have := readOpened_length h
        rw [hs] at hl
        omega
      match pieces more with
      | .error e => .error e
      | .ok ps => .ok (here ++ p :: ps)
  | _ => .ok here
termination_by gs.length

/-- Next to block tags and comments on lines of their own, `trim` drops the line feed after them and
`lstrip` the indentation before them. -/
structure Options where
  trim : Bool := true
  lstrip : Bool := true
  deriving DecidableEq, Repr

def isLineFeed (g : Glyph) : Bool := g.char = '\n'

def lastLine (gs : List Glyph) : List Glyph := (gs.reverse.takeWhile (!isLineFeed ·)).reverse

def fullLines (gs : List Glyph) : List Glyph := (gs.reverse.dropWhile (!isLineFeed ·)).reverse

def splitLine : List Glyph → List Glyph × List Glyph
  | [] => ([], [])
  | g :: gs =>
    if isLineFeed g then ([g], gs)
    else
      let (line, rest) := splitLine gs
      (g :: line, rest)

def isTrimmable (g : Glyph) : Bool :=
  g.char = ' ' || g.char = '\t' || g.char = '\r' || g.char = '\n'

def isIndent (g : Glyph) : Bool := g.char = ' ' || g.char = '\t'

/-- Drops a blank rest of a line. The text must reach the line's end, which at the end of the
template needs no line feed. -/
def trimLine (final : Bool) (gs : List Glyph) : List Glyph :=
  if (gs.any isLineFeed || final) && (splitLine gs).1.all isTrimmable then (splitLine gs).2
  else gs

/-- Drops the indentation that ends a text. Without a line feed the text must itself start on a
line with nothing before it. -/
def stripIndent (clean : Bool) (gs : List Glyph) : List Glyph :=
  if (gs.any isLineFeed || clean) && (lastLine gs).all isIndent then fullLines gs else gs

def dirties (dirty : Bool) (gs : List Glyph) : Bool :=
  (!gs.any isLineFeed && dirty) || !(lastLine gs).all Glyph.isSpace

def textTokens : List Glyph → List Token
  | [] => []
  | g :: gs => [⟨.text (textOf (g :: gs)), g.pos⟩]

def startsBlock : List Piece → Bool
  | .tag .block _ :: _ | .comment :: _ => true
  | _ => false

/-- The tokens of the pieces. `dirty` says that the current line holds output or other text,
`afterBlock` that a block tag or comment comes right before. -/
def settle (o : Options) (dirty afterBlock : Bool) : List Piece → List Token
  | [] => []
  | .tag .output tokens :: ps => tokens ++ settle o true false ps
  | .tag .block tokens :: ps => tokens ++ settle o dirty true ps
  | .comment :: ps => settle o dirty true ps
  | .text gs :: ps =>
    let gs := if o.trim && afterBlock && !dirty then trimLine ps.isEmpty gs else gs
    let gs := if o.lstrip && startsBlock ps then stripIndent (!dirty) gs else gs
    textTokens gs ++ settle o (dirties dirty gs) false ps

def tokenize (o : Options) (source : String) : Except ParseError (List Token) :=
  match pieces (glyphs source) with
  | .error e => .error e
  | .ok ps => .ok (settle o false false ps)

end Stencil.Template
