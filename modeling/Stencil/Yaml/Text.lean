/-! The characters of a YAML text, and its scalars. Every line break is one cell, and a cell with
the null character, which no text may hold, ends the list. Line breaks inside plain and quoted
scalars fold: one becomes a space, and of several the first is dropped. -/
namespace Stencil.Yaml

/-- A place, counted from zero. The index counts bytes. -/
structure Mark where
  index : Nat
  line : Nat
  column : Nat
  deriving DecidableEq, Repr

structure Cell where
  char : Char
  mark : Mark
  deriving DecidableEq, Repr

def nextLine : Char := '\u0085'

def lineSeparator : Char := '\u2028'

def paragraphSeparator : Char := '\u2029'

def byteOrderMark : Char := '\ufeff'

def isAllowed (c : Char) : Bool :=
  let n := c.toNat
  n = 0x09 || n = 0x0A || n = 0x0D || (0x20 ≤ n && n ≤ 0x7E) || n = 0x85 ||
    (0xA0 ≤ n && n ≤ 0xFFFD) || 0x10000 ≤ n

namespace Mark

def start : Mark := ⟨0, 0, 0⟩

def next (m : Mark) (width : Nat) : Mark := ⟨m.index + width, m.line, m.column + 1⟩

def newLine (m : Mark) (width : Nat) : Mark := ⟨m.index + width, m.line + 1, 0⟩

end Mark

/-- A carriage return, with or without a line feed, and a next line stand as line feeds. -/
def locate (m : Mark) : List Char → List Cell
  | [] => [⟨'\x00', m⟩]
  | '\r' :: '\n' :: cs => ⟨'\n', m⟩ :: locate (m.newLine 2) cs
  | c :: cs =>
    if c = '\r' || c = '\n' || c = nextLine then ⟨'\n', m⟩ :: locate (m.newLine c.utf8Size) cs
    else if c = lineSeparator || c = paragraphSeparator then
      ⟨c, m⟩ :: locate (m.newLine c.utf8Size) cs
    else ⟨c, m⟩ :: locate (m.next c.utf8Size) cs

def cells? (s : String) : Option (List Cell) :=
  if s.toList.all isAllowed then some (locate .start s.toList) else none

namespace Cell

def column (c : Cell) : Nat := c.mark.column

def isBlank (c : Cell) : Bool := c.char = ' ' || c.char = '\t'

def isBreak (c : Cell) : Bool :=
  c.char = '\n' || c.char = lineSeparator || c.char = paragraphSeparator

def isEnd (c : Cell) : Bool := c.char = '\x00'

def endsLine (c : Cell) : Bool := c.isBreak || c.isEnd

def isGap (c : Cell) : Bool := c.isBlank || c.endsLine

def isWord (c : Cell) : Bool := c.char.isAlphanum || c.char = '_' || c.char = '-'

def isOneOf (c : Cell) (s : String) : Bool := s.toList.contains c.char

end Cell

def gapFollows : List Cell → Bool
  | [] => true
  | c :: _ => c.isGap

/-- Whether `---` or `...` stands here alone at the start of a line. -/
def atBoundary (mark : Char) : List Cell → Bool
  | a :: b :: c :: rest =>
    a.column = 0 && a.char = mark && b.char = mark && c.char = mark && gapFollows rest
  | _ => false

def atDocumentBoundary (cs : List Cell) : Bool := atBoundary '-' cs || atBoundary '.' cs

def skipBlanks (cs : List Cell) : List Cell := cs.dropWhile Cell.isBlank

def skipLine (cs : List Cell) : List Cell := cs.dropWhile (!·.endsLine)

inductive Chomp where
  | strip
  | clip
  | keep
  deriving DecidableEq, Repr

def chomp? (c : Cell) : Option Chomp :=
  if c.char = '+' then some .keep else if c.char = '-' then some .strip else none

def indentDigit? (c : Cell) : Option Nat :=
  if c.char.isDigit && c.char ≠ '0' then some (c.char.toNat - '0'.toNat) else none

def readChomp : List Cell → Chomp × List Cell
  | [] => (.clip, [])
  | c :: cs =>
    match chomp? c with
    | some chomp => (chomp, cs)
    | none => (.clip, c :: cs)

def readIndent : List Cell → Option (Option Nat × List Cell)
  | [] => some (none, [])
  | c :: cs =>
    if c.char = '0' then none
    else
      match indentDigit? c with
      | some n => some (some n, cs)
      | none => some (none, c :: cs)

def readHeader (cs : List Cell) : Option (Chomp × Option Nat × List Cell) := do
  let (chomp, indent, cs) ← match readChomp cs with
    | (.clip, cs) => do
      let (indent, cs) ← readIndent cs
      match indent with
      | some n =>
        let (chomp, cs) := readChomp cs
        pure (chomp, some n, cs)
      | none => pure (.clip, none, cs)
    | (chomp, cs) => do
      let (indent, cs) ← readIndent cs
      pure (chomp, indent, cs)
  let cs := skipBlanks cs
  let cs := if cs.head?.any (·.char = '#') then skipLine cs else cs
  match cs with
  | c :: rest =>
    if c.isBreak then some (chomp, indent, rest)
    else if c.isEnd then some (chomp, indent, c :: rest)
    else none
  | [] => none

/-- Whether a cell belongs to the indentation of its line, which holds no tab. While the
indentation is unknown every cell before the text does. -/
def inIndent (indent : Option Nat) (c : Cell) : Bool :=
  match indent with
  | none => true
  | some n => c.column < n

def readBreaks (indent : Option Nat) (widest : Nat) :
    List Cell → Option (List Char × Nat × List Cell)
  | [] => some ([], widest, [])
  | c :: cs =>
    if inIndent indent c && c.char = ' ' then readBreaks indent widest cs
    else if inIndent indent c && c.char = '\t' then none
    else if c.isBreak then
      (readBreaks indent (max widest c.column) cs).map fun r => (c.char :: r.1, r.2)
    else some ([], max widest c.column, c :: cs)

theorem readBreaks_length {indent : Option Nat} {widest n : Nat} {cs rest : List Cell}
    {bs : List Char} (h : readBreaks indent widest cs = some (bs, n, rest)) :
    rest.length ≤ cs.length := by
  induction cs generalizing widest bs n with
  | nil => simp [readBreaks] at h; simp [h.2.2]
  | cons c cs ih =>
    unfold readBreaks at h
    split at h
    · exact Nat.le_succ_of_le (ih h)
    split at h
    · simp at h
    split at h
    · simp only [Option.map_eq_some_iff, Prod.mk.injEq] at h
      obtain ⟨⟨bs', n', r⟩, hr, _, _, rfl⟩ := h
      exact Nat.le_succ_of_le (ih hr)
    · simp at h
      simp [← h.2.2]

/-- The lines of a block scalar with the line breaks between them, the break after the last line
and those after it. `first` is the break before the next line, `more` are the blank lines after it,
and `indented` says that the line before starts with a blank: such lines do not fold. -/
def readLines (folded : Bool) (indent : Nat) (first : List Char) (indented : Bool)
    (more : List Char) (cs : List Cell) :
    Option (List Char × List Char × List Char × List Cell) :=
  match cs with
  | [] => some ([], first, more, [])
  | c :: cs =>
    if c.column ≠ indent || c.isEnd then some ([], first, more, c :: cs)
    else
      let joint :=
        if folded && first = ['\n'] && !indented && !c.isBlank then
          if more = [] then [' '] else []
        else first
      let line := joint ++ more ++ ((c :: cs).takeWhile (!·.endsLine)).map Cell.char
      match h : skipLine (c :: cs) with
      | [] => some (line, [], [], [])
      | b :: rest =>
        if b.isBreak then
          match hb : readBreaks (some indent) 0 rest with
          | none => none
          | some (more, _, next) =>
            have : next.length ≤ cs.length := by
              have h₁ := (List.dropWhile_sublist (l := c :: cs) (!·.endsLine)).length_le
              rw [← skipLine, h, List.length_cons, List.length_cons] at h₁
              have h₂ := readBreaks_length hb
              omega
            (readLines folded indent [b.char] c.isBlank more next).map fun r => (line ++ r.1, r.2)
        else some (line, [], [], b :: rest)
termination_by cs.length

/-- A block scalar after its `|` or `>`. `parent` is the indentation around it; without an
indicator the first line that is not blank gives its own. -/
def readBlock (folded : Bool) (parent : Int) (cs : List Cell) :
    Option (List Char × List Cell) := do
  let (chomp, extra, cs) ← readHeader cs
  let known := extra.map fun n => if 0 ≤ parent then parent.toNat + n else n
  let (more, widest, cs) ← readBreaks known 0 cs
  let indent := known.getD (max widest (max (parent + 1).toNat 1))
  let (text, first, more, rest) ← readLines folded indent [] false more cs
  let tail := match chomp with
    | .strip => []
    | .clip => first
    | .keep => first ++ more
  pure (text ++ tail, rest)

/-- White space inside a scalar that is not yet known to be followed by more text. The first of its
line breaks is missing if it was escaped. -/
inductive Gap where
  | blanks (cs : List Char)
  | breaks (first : Option Char) (more : List Char)
  deriving DecidableEq, Repr

namespace Gap

def addBlank (g : Gap) (c : Char) : Gap :=
  match g with
  | blanks cs => blanks (cs ++ [c])
  | g => g

def addBreak (g : Gap) (c : Char) : Gap :=
  match g with
  | blanks _ => breaks (some c) []
  | breaks first more => breaks first (more ++ [c])

def text : Gap → List Char
  | blanks cs => cs
  | breaks (some '\n') [] => [' ']
  | breaks (some '\n') more => more
  | breaks (some c) more => c :: more
  | breaks none more => more

def isEmpty (g : Gap) : Bool := g = blanks []

def breaksLine : Gap → Bool
  | blanks _ => false
  | breaks .. => true

end Gap

def plainEnds (flow : Bool) (indent : Int) (gap : Gap) (c : Cell) (rest : List Cell) : Bool :=
  c.isEnd
    || (!gap.isEmpty
      && ((!flow && c.column < indent) || c.char = '#' || atDocumentBoundary (c :: rest)))
    || (c.char = ':' && gapFollows rest)
    || (flow && c.isOneOf ",[]\x7b\x7d")

/-- A plain scalar, whether a line break follows it, and the rest. `indent` is the least column of
its later lines, `gap` the white space since its last character. -/
def readPlain (flow : Bool) (indent : Int) (gap : Gap) :
    List Cell → Option (List Char × Bool × List Cell)
  | [] => some ([], gap.breaksLine, [])
  | c :: rest =>
    if c.isBlank then
      if gap.breaksLine && c.column < indent && c.char = '\t' then none
      else readPlain flow indent (gap.addBlank c.char) rest
    else if c.isBreak then readPlain flow indent (gap.addBreak c.char) rest
    else if plainEnds flow indent gap c rest then some ([], gap.breaksLine, c :: rest)
    else if flow && c.char = ':' && rest.head?.any (·.isOneOf ",?[]\x7b\x7d") then none
    else
      (readPlain flow indent (.blanks []) rest).map fun r =>
        (gap.text ++ c.char :: r.1, r.2)

def Gap.before (g : Gap) (cs : List Char) (r : Option (List Char × List Cell)) :
    Option (List Char × List Cell) :=
  r.map fun r => (g.text ++ cs ++ r.1, r.2)

def readSingle (gap : Gap) : List Cell → Option (List Char × List Cell)
  | [] => none
  | c :: rest =>
    if c.isBlank then readSingle (gap.addBlank c.char) rest
    else if c.isBreak then readSingle (gap.addBreak c.char) rest
    else if c.isEnd || atDocumentBoundary (c :: rest) then none
    else if c.char = '\'' then
      match rest with
      | [] => none
      | d :: more =>
        if d.char = '\'' then gap.before ['\''] (readSingle (.blanks []) more)
        else some (gap.text, d :: more)
    else gap.before [c.char] (readSingle (.blanks []) rest)

def escaped? (c : Char) : Option Char :=
  match c with
  | '0' => some '\x00'
  | 'a' => some '\x07'
  | 'b' => some '\x08'
  | 't' | '\t' => some '\t'
  | 'n' => some '\n'
  | 'v' => some '\x0b'
  | 'f' => some '\x0c'
  | 'r' => some '\r'
  | 'e' => some '\x1b'
  | ' ' => some ' '
  | '"' => some '"'
  | '/' => some '/'
  | '\\' => some '\\'
  | 'N' => some nextLine
  | '_' => some '\u00a0'
  | 'L' => some lineSeparator
  | 'P' => some paragraphSeparator
  | _ => none

def hexDigit? (c : Char) : Option Nat :=
  if c.isDigit then some (c.toNat - '0'.toNat)
  else if 'a' ≤ c ∧ c ≤ 'f' then some (c.toNat - 'a'.toNat + 10)
  else if 'A' ≤ c ∧ c ≤ 'F' then some (c.toNat - 'A'.toNat + 10)
  else none

def coded? (cs : List Cell) : Option Char := do
  let n ← cs.foldlM (fun n c => (hexDigit? c.char).map (n * 16 + ·)) 0
  if h : n.isValidChar then some (Char.ofNatAux n h) else none

/-- The text of a scalar in double quotes. An escaped line break leaves nothing. -/
def readDouble (gap : Gap) : List Cell → Option (List Char × List Cell)
  | [] => none
  | c :: rest =>
    if c.isBlank then readDouble (gap.addBlank c.char) rest
    else if c.isBreak then readDouble (gap.addBreak c.char) rest
    else if c.isEnd || atDocumentBoundary (c :: rest) then none
    else if c.char = '"' then some (gap.text, rest)
    else if c.char = '\\' then
      match rest with
      | [] => none
      | e :: rest =>
        if e.isBreak then gap.before [] (readDouble (.breaks none []) rest)
        else if e.char = 'x' then
          match rest with
          | a :: b :: rest => do gap.before [← coded? [a, b]] (readDouble (.blanks []) rest)
          | _ => none
        else if e.char = 'u' then
          match rest with
          | a :: b :: c :: d :: rest => do
            gap.before [← coded? [a, b, c, d]] (readDouble (.blanks []) rest)
          | _ => none
        else if e.char = 'U' then
          match rest with
          | a :: b :: c :: d :: e :: f :: g :: h :: rest => do
            gap.before [← coded? [a, b, c, d, e, f, g, h]] (readDouble (.blanks []) rest)
          | _ => none
        else do gap.before [← escaped? e.char] (readDouble (.blanks []) rest)
    else gap.before [c.char] (readDouble (.blanks []) rest)

end Stencil.Yaml
