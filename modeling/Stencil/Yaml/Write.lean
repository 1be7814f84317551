import Stencil.Value
import Stencil.Yaml.Scalar
import Stencil.Yaml.Text

/-! The YAML text of a mapping: an entry a line, an inner mapping indented by two columns, and an
inner sequence under its key. A string is written as it is, in quotes, or line by line in a literal
block, and the first of these that reads back as the same string is taken. -/
namespace Stencil.Yaml

inductive Style where
  | plain
  | singleQuoted
  | doubleQuoted
  | literal
  deriving DecidableEq, Repr

def isLineBreak (c : Char) : Bool :=
  c = '\n' || c = '\r' || c = nextLine || c = lineSeparator || c = paragraphSeparator

def isPrintable (c : Char) : Bool :=
  let n := c.toNat
  n = 0x0A || (0x20 ≤ n && n ≤ 0x7E) || (0xA0 ≤ n && n ≤ 0xFFFD && c ≠ byteOrderMark)
    || 0x10000 ≤ n

def anyAdjacent (p q : Char → Bool) : List Char → Bool
  | a :: b :: cs => (p a && q b) || anyAdjacent p q (b :: cs)
  | _ => false

def isSpace (c : Char) : Bool := c = ' '

def spaceBeforeBreak (cs : List Char) : Bool := anyAdjacent isSpace isLineBreak cs

def spaceAfterBreak (cs : List Char) : Bool := anyAdjacent isLineBreak isSpace cs

/-- Whether the start of a text without quotes would mean something else. -/
def startsStructure : List Char → Bool
  | '-' :: '-' :: '-' :: _ | '.' :: '.' :: '.' :: _ => true
  | '-' :: rest | '?' :: rest => rest.head?.all isSpace
  | c :: _ => "#,[]\x7b\x7d&*!|>'\"%@`".toList.contains c
  | [] => false

def holdsStructure (cs : List Char) : Bool :=
  anyAdjacent (· = ':') isSpace cs || cs.getLast? = some ':' || anyAdjacent isSpace (· = '#') cs

def allowsPlain (cs : List Char) : Bool :=
  cs.all (fun c => isPrintable c && !isLineBreak c) && !cs.head?.any isSpace
    && !cs.getLast?.any isSpace && !startsStructure cs && !holdsStructure cs

def allowsSingleQuoted (cs : List Char) : Bool :=
  cs.all isPrintable && !spaceBeforeBreak cs && !spaceAfterBreak cs

def allowsLiteral (cs : List Char) : Bool :=
  cs.all isPrintable && !spaceBeforeBreak cs && !cs.getLast?.any isSpace

/-- Whether the text without quotes would be null, a truth value or a number, or look like one. -/
def looksTyped (s : String) : Bool := Scalar.ofText s ≠ .string || Scalar.hasLeadingZero s.toList

def Style.ofString (s : String) : Style :=
  let cs := s.toList
  if cs.contains '\n' then if allowsLiteral cs then literal else doubleQuoted
  else if !looksTyped s && allowsPlain cs then plain
  else if allowsSingleQuoted cs then singleQuoted
  else doubleQuoted

/-! The text in each style. -/

def spaces (n : Nat) : List Char := List.replicate n ' '

def indentLines (indent : Nat) : (fresh : Bool) → List Char → List Char
  | _, [] => []
  | fresh, c :: cs =>
    if isLineBreak c then c :: indentLines indent true cs
    else (if fresh then spaces indent else []) ++ c :: indentLines indent false cs

def singleQuotedText (indent : Nat) (cs : List Char) : List Char :=
  let doubled := cs.flatMap fun c => if c = '\'' then ['\'', '\''] else [c]
  '\'' :: indentLines indent false (doubled ++ ['\''])

def upperHex : (width n : Nat) → List Char
  | 0, _ => []
  | width + 1, n => upperHex width (n / 16) ++ [(Nat.digitChar (n % 16)).toUpper]

def escapeLetter? (c : Char) : Option Char :=
  match c with
  | '\x00' => some '0'
  | '\x07' => some 'a'
  | '\x08' => some 'b'
  | '\t' => some 't'
  | '\n' => some 'n'
  | '\x0b' => some 'v'
  | '\x0c' => some 'f'
  | '\r' => some 'r'
  | '\x1b' => some 'e'
  | '"' => some '"'
  | '\\' => some '\\'
  | '\u0085' => some 'N'
  | '\u2028' => some 'L'
  | '\u2029' => some 'P'
  | _ => none

def escape (c : Char) : List Char :=
  match escapeLetter? c with
  | some letter => ['\\', letter]
  | none =>
    if isPrintable c then [c]
    else if c.toNat < 0x100 then '\\' :: 'x' :: upperHex 2 c.toNat
    else if c.toNat < 0x10000 then '\\' :: 'u' :: upperHex 4 c.toNat
    else '\\' :: 'U' :: upperHex 8 c.toNat

def doubleQuotedText (cs : List Char) : List Char := '"' :: cs.flatMap escape ++ ['"']

def chomping (cs : List Char) : List Char :=
  match cs.reverse with
  | c :: rest =>
    if !isLineBreak c then ['-'] else if rest.head?.all isLineBreak then ['+'] else []
  | [] => ['-']

/-- A literal block. The indentation is told where the first line does not show it. -/
def literalText (indent : Nat) (cs : List Char) : List Char :=
  let told := if cs.head?.any (fun c => isSpace c || isLineBreak c) then ['2'] else []
  '|' :: told ++ chomping cs ++ '\n' :: indentLines indent true cs

def stringText (indent : Nat) (s : String) : List Char :=
  match Style.ofString s with
  | .plain => s.toList
  | .singleQuoted => singleQuotedText indent s.toList
  | .doubleQuoted => doubleQuotedText s.toList
  | .literal => literalText indent s.toList

def floatLayout : Layout where
  tie := .even
  positional := some (-5, 15)
  plus := false
  nan := ".nan"
  infinity := ".inf"
  negativeInfinity := "-.inf"

def endLine (cs : List Char) : List Char :=
  if cs.getLast?.any isLineBreak then cs else cs ++ ['\n']

/-- Whether a key may stand on one line with its value; a key has then at most 128 bytes. -/
def isShortKey (key : String) : Bool :=
  key.utf8ByteSize ≤ 128 && !key.toList.any isLineBreak

def keyText (indent : Nat) (key : String) : List Char :=
  if isShortKey key then stringText (indent + 2) key ++ [':']
  else
    endLine ('?' :: ' ' :: stringText (indent + 2) key) ++ spaces indent ++ [':']

mutual

/-- What follows a dash or a colon in the column `indent` or after a key that starts there. Only
after a key on the same line a collection starts a new line. -/
def writeValue (indent : Nat) (newLine : Bool) : Value → List Char
  | .null => " null".toList
  | .bool true => " true".toList
  | .bool false => " false".toList
  | .int n => ' ' :: (Value.intText n).toList
  | .float x => ' ' :: (floatLayout.text x).toList
  | .string s => ' ' :: stringText (indent + 2) s
  | .seq [] => " []".toList
  | .seq (v :: vs) =>
    if newLine then '\n' :: spaces indent ++ writeItems indent (v :: vs)
    else ' ' :: writeItems (indent + 2) (v :: vs)
  | .map [] => " \x7b\x7d".toList
  | .map (e :: es) =>
    (if newLine then '\n' :: spaces (indent + 2) else [' ']) ++ writeEntries (indent + 2) (e :: es)

def writeItems (indent : Nat) : List Value → List Char
  | [] => []
  | [v] => '-' :: writeValue indent false v
  | v :: vs => endLine ('-' :: writeValue indent false v) ++ spaces indent ++ writeItems indent vs

def writeEntries (indent : Nat) : List (String × Value) → List Char
  | [] => []
  | [(k, v)] => keyText indent k ++ writeValue indent (isShortKey k) v
  | (k, v) :: es =>
    endLine (keyText indent k ++ writeValue indent (isShortKey k) v) ++ spaces indent ++
      writeEntries indent es

end

def text : Entries Value → String
  | [] => "\x7b\x7d\n"
  | e :: es => String.ofList (endLine (writeEntries 0 (e :: es)))

end Stencil.Yaml
