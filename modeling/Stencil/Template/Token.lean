import Stencil.Filter
import Stencil.Value

/-! Characters of a template with their places, its tokens, and why it is malformed and where. -/
namespace Stencil.Template

structure Pos where
  line : Nat
  column : Nat
  deriving DecidableEq, Repr

def Pos.start : Pos := ⟨1, 1⟩

/-- The position after a character. Only a line feed ends a line. -/
def Pos.after (p : Pos) (c : Char) : Pos :=
  if c = '\n' then ⟨p.line + 1, 1⟩ else ⟨p.line, p.column + 1⟩

structure Glyph where
  char : Char
  pos : Pos
  deriving DecidableEq, Repr

def locate (p : Pos) : List Char → List Glyph
  | [] => []
  | c :: cs => ⟨c, p⟩ :: locate (p.after c) cs

def glyphs (source : String) : List Glyph := locate Pos.start source.toList

def textOf (gs : List Glyph) : String := String.ofList (gs.map Glyph.char)

inductive Keyword where
  | for_
  | in_
  | if_
  | elif
  | else_
  | endfor
  | endif
  | and
  | or
  | not
  | true_
  | false_
  | none_
  deriving DecidableEq, Repr

namespace Keyword

def spelling : Keyword → String
  | for_ => "for"
  | in_ => "in"
  | if_ => "if"
  | elif => "elif"
  | else_ => "else"
  | endfor => "endfor"
  | endif => "endif"
  | and => "and"
  | or => "or"
  | not => "not"
  | true_ => "true"
  | false_ => "false"
  | none_ => "none"

def all : List Keyword :=
  [for_, in_, if_, elif, else_, endfor, endif, and, or, not, true_, false_, none_]

/-- The three constants may also be capitalized. -/
def ofWord? (word : String) : Option Keyword :=
  match word with
  | "True" => some true_
  | "False" => some false_
  | "None" => some none_
  | _ => all.find? (·.spelling = word)

end Keyword

inductive Tag where
  | output
  | block
  deriving DecidableEq, Repr

inductive Symbol where
  | text (s : String)
  | opening (tag : Tag)
  | closing (tag : Tag)
  | word (name : String)
  | keyword (k : Keyword)
  | string (s : String)
  | int (n : Int64)
  | float (x : Float)
  | dot
  | comma
  | leftParen
  | rightParen
  | leftBracket
  | rightBracket
  | pipe
  | thousands
  | compare (op : Comparison)
  deriving DecidableEq, Repr

structure Token where
  symbol : Symbol
  pos : Pos
  deriving DecidableEq, Repr

namespace Tag

def opener : Tag → String
  | output => "\x7b\x7b"
  | block => "\x7b%"

def closer : Tag → String
  | output => "\x7d\x7d"
  | block => "%\x7d"

end Tag

def inTicks (s : String) : String := "`" ++ s ++ "`"

def Symbol.describe : Symbol → String
  | text _ => "text"
  | opening tag => inTicks tag.opener
  | closing tag => inTicks tag.closer
  | word name => "identifier " ++ inTicks name
  | keyword k => "keyword " ++ inTicks k.spelling
  | string _ => "string literal"
  | int _ | float _ => "number literal"
  | dot => inTicks "."
  | comma => inTicks ","
  | leftParen => inTicks "("
  | rightParen => inTicks ")"
  | leftBracket => inTicks "["
  | rightBracket => inTicks "]"
  | pipe => inTicks "|"
  | thousands => inTicks ":,"
  | compare op => inTicks op.symbol

inductive Block where
  | loop
  | cond
  deriving DecidableEq, Repr

namespace Block

def opener : Block → Keyword
  | loop => .for_
  | cond => .if_

def closer : Block → Keyword
  | loop => .endfor
  | cond => .endif

end Block

inductive Expected where
  | symbol (s : Symbol)
  | blockKeyword
  | loopVariable
  | filterName
  | expression
  | attributeName
  | indexOrKey
  deriving DecidableEq, Repr

def Expected.describe : Expected → String
  | symbol s => s.describe
  | blockKeyword => "a block keyword"
  | loopVariable => "a loop variable name"
  | filterName => "a filter name"
  | expression => "an expression"
  | attributeName => "an attribute name"
  | indexOrKey => "an index or key"

/-- What is found is `none` at the end of the template. A branch is stray where no block is open,
and misplaced where the open one does not take it. -/
inductive Cause where
  | unterminatedTag (tag : Tag)
  | unterminatedComment
  | unterminatedString
  | integerOutOfRange (literal : String)
  | loneColon
  | unexpectedCharacter (c : Char)
  | expected (what : Expected) (found : Option Symbol)
  | unexpected (found : Symbol)
  | unknownBlock (found : Symbol)
  | strayBranch (k : Keyword)
  | misplacedBranch (k : Keyword)
  | strayCloser (block : Block)
  | missingCloser (block : Block)
  | unknownMethod (name : String)
  | unknownFilter (name : String)
  | filterArity (name : String) (arity : Arity) (given : Nat)
  deriving DecidableEq, Repr

def Cause.message : Cause → String
  | unterminatedTag tag =>
    "unterminated " ++ inTicks tag.opener ++ " marker, expected " ++ inTicks tag.closer
  | unterminatedComment =>
    "unterminated " ++ inTicks "\x7b#" ++ " comment, expected " ++ inTicks "#\x7d"
  | unterminatedString => "unterminated string literal"
  | integerOutOfRange literal => "integer " ++ inTicks literal ++ " out of range"
  | loneColon =>
    "expected " ++ inTicks "," ++ " after " ++ inTicks ":" ++ " (use " ++ inTicks ":," ++
      " for thousands formatting)"
  | unexpectedCharacter c => "unexpected character " ++ inTicks (String.singleton c)
  | expected what none => "expected " ++ what.describe ++ ", found end of template"
  | expected what (some s) => "expected " ++ what.describe ++ ", found " ++ s.describe
  | unexpected s => "unexpected " ++ s.describe
  | unknownBlock s => "unknown block keyword: " ++ s.describe
  | strayBranch k => inTicks k.spelling ++ " outside an open " ++ inTicks "if"
  | misplacedBranch k => "unexpected " ++ inTicks k.spelling ++ " in this block"
  | strayCloser block =>
    inTicks block.closer.spelling ++ " without matching " ++ inTicks block.opener.spelling
  | missingCloser block =>
    "missing " ++ inTicks ("\x7b% " ++ block.closer.spelling ++ " %\x7d") ++ " for " ++
      inTicks block.opener.spelling ++ " opened here"
  | unknownMethod name => "unknown method " ++ inTicks (name ++ "()")
  | unknownFilter name => "unknown filter " ++ inTicks name
  | filterArity name arity given =>
    let takes :=
      if arity.least = arity.most then toString arity.least ++ " argument(s)"
      else toString arity.least ++ " to " ++ toString arity.most ++ " arguments"
    "filter " ++ inTicks name ++ " takes " ++ takes ++ ", got " ++ toString given

structure ParseError where
  cause : Cause
  pos : Pos
  deriving DecidableEq, Repr

def ParseError.message (e : ParseError) : String := e.cause.message

def ParseError.text (e : ParseError) : String :=
  "parse error at line " ++ toString e.pos.line ++ ", column " ++ toString e.pos.column ++ ": " ++
    e.message

end Stencil.Template
