import Stencil.Unicode.Casing

/-! The filters that a template may apply to a value, how many arguments each takes, and what those
on strings do. -/
namespace Stencil

inductive Filter where
  | capitalize
  | first
  | join
  | last
  | length
  | lower
  | replace
  | thousands
  | title
  | trim
  | unique
  | upper
  deriving DecidableEq, Repr

structure Arity where
  least : Nat
  most : Nat
  deriving DecidableEq, Repr

def Arity.admits (a : Arity) (n : Nat) : Bool := a.least ≤ n && n ≤ a.most

namespace Filter

def name : Filter → String
  | capitalize => "capitalize"
  | first => "first"
  | join => "join"
  | last => "last"
  | length => "length"
  | lower => "lower"
  | replace => "replace"
  | thousands => "thousands"
  | title => "title"
  | trim => "trim"
  | unique => "unique"
  | upper => "upper"

def all : List Filter :=
  [capitalize, first, join, last, length, lower, replace, thousands, title, trim, unique, upper]

def ofName? (s : String) : Option Filter := all.find? (·.name = s)

def arity : Filter → Arity
  | join => ⟨0, 1⟩
  | replace => ⟨2, 2⟩
  | _ => ⟨0, 0⟩

/-- Words are runs of letters and digits; each begins with upper case and goes on in lower case.
`inWord` says that the character before belongs to a word. -/
def titled (inWord : Bool) : List Char → List Char
  | [] => []
  | c :: cs =>
    if Unicode.isAlphanumeric c then
      (if inWord then Unicode.toLower c else Unicode.toUpper c) ++ titled true cs
    else c :: titled false cs

def capitalized : List Char → List Char
  | [] => []
  | c :: cs => Unicode.toUpper c ++ cs.flatMap Unicode.toLower

def trimmed (cs : List Char) : List Char :=
  ((cs.dropWhile Unicode.isSpace).reverse.dropWhile Unicode.isSpace).reverse

def replacedAfter (pattern replacement : List Char) (skip : Nat) : List Char → List Char
  | [] => []
  | c :: cs =>
    match skip with
    | skip + 1 => replacedAfter pattern replacement skip cs
    | 0 =>
      if pattern.isPrefixOf (c :: cs) then
        replacement ++ replacedAfter pattern replacement (pattern.length - 1) cs
      else c :: replacedAfter pattern replacement 0 cs

/-- Replaces from left to right. The empty pattern occurs around every character. -/
def replaced (pattern replacement cs : List Char) : List Char :=
  if pattern = [] then replacement ++ cs.flatMap (· :: replacement)
  else replacedAfter pattern replacement 0 cs

end Filter

end Stencil
