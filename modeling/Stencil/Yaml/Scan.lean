import Stencil.Yaml.Text

/-! The tokens of a YAML text. Percent escapes can spell any bytes, so a tag need not be text. A key
is known as such only at its colon, so the place of each text that may turn out to be one is kept
until then. -/
namespace Stencil.Yaml

abbrev Tag := List UInt8

namespace Tag

def ofString (s : String) : Tag := s.toList.flatMap String.utf8EncodeChar

def bang : UInt8 := 0x21

def beforeZero (t : Tag) : Tag := t.takeWhile (· ≠ 0)

def coreStem : Tag := ofString "tag:yaml.org,2002:"

def isLocal (t : Tag) : Bool := t.head? = some bang

def dropBang (t : Tag) : Tag :=
  match t with
  | b :: c :: rest => if b = bang then c :: rest else t
  | _ => t

/-- The name of a tag of the document's own, if it is text. Up to two bangs before it do not
count. -/
def name? (t : Tag) : Option String :=
  if t.isLocal then String.fromUTF8? ⟨t.dropBang.dropBang.toArray⟩ else none

end Tag

inductive CoreType where
  | bool
  | int
  | float
  | null
  deriving DecidableEq, Repr

namespace CoreType

def name : CoreType → String
  | bool => "bool"
  | int => "int"
  | float => "float"
  | null => "null"

def ofTag? (t : Tag) : Option CoreType :=
  [bool, int, float, null].find? fun c => t = Tag.coreStem ++ Tag.ofString c.name

end CoreType

inductive Token where
  | version (major minor : Nat)
  | tagHandle (handle : String) (stem : Tag)
  | documentStart
  | documentEnd
  | blockSequence
  | blockMapping
  | blockEnd
  | flowSequence
  | flowSequenceEnd
  | flowMapping
  | flowMappingEnd
  | item
  | comma
  | key
  | value
  | aliasTo (name : String)
  | anchor (name : String)
  | tag (handle : String) (suffix : Tag)
  | scalar (text : String) (plain : Bool)
  deriving DecidableEq, Repr

def ofCells (cs : List Cell) : String := String.ofList (cs.map Cell.char)

def readName (cs : List Cell) : Option (String × List Cell) :=
  let name := cs.takeWhile Cell.isWord
  let rest := cs.dropWhile Cell.isWord
  if name ≠ [] ∧ (gapFollows rest ∨ rest.head?.any (·.isOneOf "?:,]\x7d%@`")) then
    some (ofCells name, rest)
  else none

/-- `!`, `!!` or `!word!`; outside a directive also `!word`. -/
def readHandle (directive : Bool) : List Cell → Option (String × List Cell)
  | [] => none
  | c :: cs =>
    if c.char ≠ '!' then none
    else
      let word := c :: cs.takeWhile Cell.isWord
      match cs.dropWhile Cell.isWord with
      | d :: rest =>
        if d.char = '!' then some (ofCells (word ++ [d]), rest)
        else if directive && word.length ≠ 1 then none
        else some (ofCells word, d :: rest)
      | [] => some (ofCells word, [])

/-- The number of bytes that still follow when `n` leads a character. -/
def trailing? (n : Nat) : Option Nat :=
  if n < 0x80 then some 0
  else if n < 0xC0 then none
  else if n < 0xE0 then some 1
  else if n < 0xF0 then some 2
  else if n < 0xF8 then some 3
  else none

def dueAfter? (due n : Nat) : Option Nat :=
  match due with
  | 0 => trailing? n
  | due + 1 => if 0x80 ≤ n ∧ n < 0xC0 then some due else none

/-- The characters of a tag, those of percent escapes as bytes, of which `due` must trail the last
one. `brackets` admits commas and brackets. -/
def readUri (brackets : Bool) (due : Nat) : List Cell → Option (Tag × List Cell)
  | [] => if due = 0 then some ([], []) else none
  | c :: cs =>
    if c.char = '%' then
      match cs with
      | a :: b :: rest => do
        let n := (← hexDigit? a.char) * 16 + (← hexDigit? b.char)
        let (bytes, rest) ← readUri brackets (← dueAfter? due n) rest
        pure (UInt8.ofNat n :: bytes, rest)
      | _ => none
    else if due ≠ 0 then none
    else if c.isWord || c.isOneOf ";/?:@&=+$.!~*'()" || (brackets && c.isOneOf ",[]") then do
      let (bytes, rest) ← readUri brackets 0 cs
      pure (UInt8.ofNat c.char.toNat :: bytes, rest)
    else some ([], c :: cs)

/-- A tag from its `!` on: in angle brackets whole, else a handle and what it is put before. What
stands after a zero byte is read but does not count. -/
def readTag (flow : Bool) (cs : List Cell) : Option (Token × List Cell) := do
  let (token, rest) ← match cs with
    | _ :: ⟨'<', _⟩ :: cs => do
      let (uri, rest) ← readUri true 0 cs
      match rest with
      | ⟨'>', _⟩ :: rest => if uri = [] then none else some (Token.tag "" uri.beforeZero, rest)
      | _ => none
    | cs => do
      let (handle, cs) ← readHandle false cs
      let (uri, rest) ← readUri false 0 cs
      if handle ≠ "!" ∧ handle.endsWith "!" then
        if uri = [] then none else some (Token.tag handle uri.beforeZero, rest)
      else
        -- a word that no `!` ends belongs to the handle `!`, and a lone `!` is a tag of its own
        let suffix := Tag.beforeZero ((Tag.ofString handle).drop 1 ++ uri)
        some (if suffix = [] then Token.tag "" [Tag.bang] else Token.tag "!" suffix, rest)
  if gapFollows rest ∨ (flow ∧ rest.head?.any (·.char = ',')) then some (token, rest) else none

def readDigits (cs : List Cell) : Option (Nat × List Cell) :=
  let ds := cs.takeWhile (·.char.isDigit)
  if ds = [] ∨ 9 < ds.length then none
  else some (Nat.ofDigitChars 10 (ds.map Cell.char) 0, cs.dropWhile (·.char.isDigit))

def readVersion (cs : List Cell) : Option (Token × List Cell) := do
  let (major, cs) ← readDigits (skipBlanks cs)
  match cs with
  | ⟨'.', _⟩ :: cs =>
    let (minor, cs) ← readDigits cs
    pure (.version major minor, cs)
  | _ => none

def readTagHandle (cs : List Cell) : Option (Token × List Cell) := do
  let (handle, cs) ← readHandle true (skipBlanks cs)
  if cs.head?.any Cell.isBlank then
    let (stem, cs) ← readUri true 0 (skipBlanks cs)
    if stem ≠ [] ∧ gapFollows cs then some (.tagHandle handle stem.beforeZero, cs) else none
  else none

def readDirective (cs : List Cell) : Option (Token × List Cell) := do
  let name := ofCells (cs.takeWhile Cell.isWord)
  let cs := cs.dropWhile Cell.isWord
  if gapFollows cs then
    let (token, cs) ← match name with
      | "YAML" => readVersion cs
      | "TAG" => readTagHandle cs
      | _ => none
    let cs := skipBlanks cs
    let cs := if cs.head?.any (·.char = '#') then skipLine cs else cs
    match cs with
    | c :: rest =>
      if c.isBreak then some (token, rest)
      else if c.isEnd then some (token, c :: rest)
      else none
    | [] => none
  else none

/-- The place of a node that may be a key, with the number of tokens before it. It is required where
its block mapping can only go on with a key. -/
structure Candidate where
  required : Bool
  position : Nat
  mark : Mark
  deriving DecidableEq, Repr

/-- The innermost block collection stands in the column `indent`, or -1, and the ones around it in
those of `outer`. In the same way `candidate` belongs to the current flow collection, and `levels`
to those around. -/
structure Scan where
  rest : List Cell
  tokens : Array Token
  indent : Int
  outer : List Int
  keyAllowed : Bool
  candidate : Option Candidate
  levels : List (Option Candidate)

namespace Scan

def start (cells : List Cell) : Scan := ⟨cells, #[], -1, [], true, none, []⟩

def inFlow (s : Scan) : Bool := !s.levels.isEmpty

def push (s : Scan) (t : Token) (rest : List Cell) : Scan :=
  { s with tokens := s.tokens.push t, rest }

def insertAt (tokens : Array Token) (n : Nat) (t : Token) : Array Token :=
  (tokens.extract 0 n).push t ++ tokens.extract n tokens.size

def skipGap (flow comment keyAllowed : Bool) : List Cell → Bool × List Cell
  | [] => (keyAllowed, [])
  | c :: cs =>
    if comment && !c.endsLine then skipGap flow true keyAllowed cs
    -- a line break outside flow collections lets a key start, where no tab counts as a blank
    else if c.isBreak then skipGap flow false (keyAllowed || !flow) cs
    else if c.char = '#' then skipGap flow true keyAllowed cs
    else if c.char = ' ' || (c.char = '\t' && (flow || !keyAllowed)) then
      skipGap flow false keyAllowed cs
    else if c.char = byteOrderMark && c.column = 0 then skipGap flow false keyAllowed cs
    else (keyAllowed, c :: cs)

def skip (s : Scan) : Scan :=
  let (keyAllowed, rest) := skipGap s.inFlow false s.keyAllowed s.rest
  { s with keyAllowed, rest }

def refresh (here : Mark) : Option Candidate → Option (Option Candidate)
  | none => some none
  | some k =>
    -- a key stands on one line and within 1024 bytes of its colon
    if k.mark.line < here.line || k.mark.index + 1024 < here.index then
      if k.required then none else some none
    else some (some k)

def dropStale (s : Scan) (here : Mark) : Option Scan := do
  let candidate ← refresh here s.candidate
  let levels ← s.levels.mapM (refresh here)
  pure { s with candidate, levels }

def closeBlocks (column : Int) (tokens : Array Token) (indent : Int) :
    List Int → Array Token × Int × List Int
  | [] => (tokens, indent, [])
  | i :: outer =>
    if column < indent then closeBlocks column (tokens.push .blockEnd) i outer
    else (tokens, indent, i :: outer)

def dedent (s : Scan) (column : Int) : Scan :=
  if s.inFlow then s
  else
    let (tokens, indent, outer) := closeBlocks column s.tokens s.indent s.outer
    { s with tokens, indent, outer }

def openBlock (s : Scan) (column : Nat) (position : Nat) (t : Token) : Scan :=
  if s.inFlow || column ≤ s.indent then s
  else
    { s with
      tokens := insertAt s.tokens position t, indent := column, outer := s.indent :: s.outer }

def giveUp (s : Scan) : Option Scan :=
  match s.candidate with
  | some k => if k.required then none else some { s with candidate := none }
  | none => some s

def consider (s : Scan) (here : Mark) : Option Scan := do
  if s.keyAllowed then
    let s ← s.giveUp
    let required := !s.inFlow && s.indent = here.column
    pure { s with candidate := some ⟨required, s.tokens.size, here⟩, keyAllowed := false }
  else pure { s with keyAllowed := false }

def leaveDocument (s : Scan) : Option Scan := do
  let s ← (s.dedent (-1)).giveUp
  pure { s with keyAllowed := false }

def openFlow (s : Scan) (here : Mark) (t : Token) (rest : List Cell) : Option Scan := do
  let s ← s.consider here
  let s := { s with keyAllowed := true, candidate := none, levels := s.candidate :: s.levels }
  pure (s.push t rest)

def closeFlow (s : Scan) (t : Token) (rest : List Cell) : Option Scan := do
  let s ← s.giveUp
  let s := match s.levels with
    | k :: levels => { s with candidate := k, levels }
    | [] => s
  pure ({ s with keyAllowed := false }.push t rest)

def readItem (s : Scan) (here : Mark) (rest : List Cell) : Option Scan := do
  if !s.inFlow && !s.keyAllowed then none
  else
    let s ← (s.openBlock here.column s.tokens.size .blockSequence).giveUp
    pure ({ s with keyAllowed := true }.push .item rest)

def readKey (s : Scan) (here : Mark) (rest : List Cell) : Option Scan := do
  if !s.inFlow && !s.keyAllowed then none
  else
    let s ← (s.openBlock here.column s.tokens.size .blockMapping).giveUp
    pure ({ s with keyAllowed := !s.inFlow }.push .key rest)

/-- A colon makes the candidate a key, and its column that of a block mapping. -/
def readValue (s : Scan) (here : Mark) (rest : List Cell) : Option Scan :=
  match s.candidate with
  | some k =>
    let s := { s with tokens := insertAt s.tokens k.position .key }
    let s := s.openBlock k.mark.column k.position .blockMapping
    some ({ s with candidate := none, keyAllowed := false }.push .value rest)
  | none =>
    if !s.inFlow && !s.keyAllowed then none
    else
      let s := s.openBlock here.column s.tokens.size .blockMapping
      some ({ s with keyAllowed := !s.inFlow }.push .value rest)

def startsPlain (flow : Bool) (c : Cell) (rest : List Cell) : Bool :=
  !(c.isGap || c.isOneOf "-?:,[]\x7b\x7d#&*!|>'\"%@`")
    || (c.char = '-' && !rest.head?.any Cell.isBlank)
    || (!flow && (c.char = '?' || c.char = ':') && !gapFollows rest)

def readToken (s : Scan) (c : Cell) (rest : List Cell) : Option Scan :=
  let here := c.mark
  let flow := s.inFlow
  if here.column = 0 && c.char = '%' then do
    let s ← s.leaveDocument
    let (t, rest) ← readDirective rest
    pure (s.push t rest)
  else if atBoundary '-' (c :: rest) then do
    pure ((← s.leaveDocument).push .documentStart (rest.drop 2))
  else if atBoundary '.' (c :: rest) then do
    pure ((← s.leaveDocument).push .documentEnd (rest.drop 2))
  else if c.char = '[' then s.openFlow here .flowSequence rest
  else if c.char = '{' then s.openFlow here .flowMapping rest
  else if c.char = ']' then s.closeFlow .flowSequenceEnd rest
  else if c.char = '}' then s.closeFlow .flowMappingEnd rest
  else if c.char = ',' then do
    pure ({ (← s.giveUp) with keyAllowed := true }.push .comma rest)
  else if c.char = '-' && gapFollows rest then s.readItem here rest
  else if c.char = '?' && (flow || gapFollows rest) then s.readKey here rest
  else if c.char = ':' && (flow || gapFollows rest) then s.readValue here rest
  else if c.char = '*' then do
    let (name, rest) ← readName rest
    pure ((← s.consider here).push (.aliasTo name) rest)
  else if c.char = '&' then do
    let (name, rest) ← readName rest
    pure ((← s.consider here).push (.anchor name) rest)
  else if c.char = '!' then do
    let (t, rest) ← readTag flow (c :: rest)
    pure ((← s.consider here).push t rest)
  else if (c.char = '|' || c.char = '>') && !flow then do
    let s ← s.giveUp
    let (text, rest) ← readBlock (c.char = '>') s.indent rest
    pure ({ s with keyAllowed := true }.push (.scalar (String.ofList text) false) rest)
  else if c.char = '\'' then do
    let (text, rest) ← readSingle (.blanks []) rest
    pure ((← s.consider here).push (.scalar (String.ofList text) false) rest)
  else if c.char = '"' then do
    let (text, rest) ← readDouble (.blanks []) rest
    pure ((← s.consider here).push (.scalar (String.ofList text) false) rest)
  else if startsPlain flow c rest then do
    let s ← s.consider here
    let (text, broken, rest) ← readPlain flow (s.indent + 1) (.blanks []) (c :: rest)
    pure ({ s with keyAllowed := broken }.push (.scalar (String.ofList text) true) rest)
  else none

/-- Reads at most `fuel` tokens. Each takes at least one cell. -/
def run : Nat → Scan → Option (List Token)
  | 0, _ => none
  | fuel + 1, s =>
    let s := s.skip
    match s.rest with
    | [] => none
    | c :: rest => do
      let s := (← s.dropStale c.mark).dedent c.column
      if c.isEnd then pure (← (s.dedent (-1)).giveUp).tokens.toList
      else run fuel (← s.readToken c rest)

end Scan

def tokens? (s : String) : Option (List Token) := do
  let cells ← cells? s
  Scan.run cells.length (.start cells)

end Stencil.Yaml
