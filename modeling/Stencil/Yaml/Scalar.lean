import Stencil.Decimal

/-! What an unquoted text stands for: null, a truth value, a number or a string. -/
namespace Stencil.Yaml

/-- What a text without quotes stands for. An integer is `wide` if it fits 128 bits but not 64. -/
inductive Scalar where
  | null
  | bool (b : Bool)
  | int (n : Int)
  | wide
  | float (x : Float)
  | string
  deriving DecidableEq, Repr

namespace Scalar

def isNull (s : String) : Bool := s = "null" || s = "Null" || s = "NULL" || s = "~"

def bool? (s : String) : Option Bool :=
  match s with
  | "true" | "True" | "TRUE" => some true
  | "false" | "False" | "FALSE" => some false
  | _ => none

/-- A zero before other digits, perhaps signed, which makes a string. -/
def hasLeadingZero (cs : List Char) : Bool :=
  let digits := match cs with
    | '-' :: ds | '+' :: ds => ds
    | ds => ds
  match digits with
  | '0' :: d :: ds => (d :: ds).all Char.isDigit
  | _ => false

def digit? (radix : Nat) (c : Char) : Option Nat :=
  let n :=
    if c.isDigit then c.toNat - '0'.toNat
    else if 'a' ≤ c ∧ c ≤ 'f' then c.toNat - 'a'.toNat + 10
    else if 'A' ≤ c ∧ c ≤ 'F' then c.toNat - 'A'.toNat + 10
    else radix
  if n < radix then some n else none

def digits? (radix : Nat) (cs : List Char) : Option Nat :=
  if cs = [] then none
  else cs.foldlM (fun n c => (digit? radix c).map (n * radix + ·)) 0

def magnitude? (cs : List Char) : Option Nat :=
  match cs with
  | '0' :: 'x' :: ds => digits? 16 ds
  | '0' :: 'o' :: ds => digits? 8 ds
  | '0' :: 'b' :: ds => digits? 2 ds
  | ds => if hasLeadingZero ds then none else digits? 10 ds

def ofInt? (n : Int) : Option Scalar :=
  if Int64.minValue.toInt ≤ n ∧ n < UInt64.size then some (int n)
  else if -0x80000000000000000000000000000000 ≤ n ∧ n < 0x100000000000000000000000000000000 then
    some wide
  else none

def int? (cs : List Char) : Option Scalar :=
  match cs with
  | '-' :: ds => (magnitude? ds).bind fun n => ofInt? (-n)
  | '+' :: ds => (magnitude? ds).bind fun n => ofInt? n
  | ds => (magnitude? ds).bind fun n => ofInt? n

def exponent? (cs : List Char) : Option Int :=
  let read (ds : List Char) : Option Nat := digits? 10 ds
  match cs with
  | [] => some 0
  | c :: cs =>
    if c = 'e' || c = 'E' then
      match cs with
      | '-' :: ds => (read ds).map fun n => -n
      | '+' :: ds => (read ds).map fun n => n
      | ds => (read ds).map fun n => n
    else none

/-- Digits with a point before, among or after them, and perhaps an exponent. -/
def decimal? (cs : List Char) : Option Decimal := do
  let whole := cs.takeWhile Char.isDigit
  let (places, rest) := match cs.dropWhile Char.isDigit with
    | '.' :: rest => (rest.takeWhile Char.isDigit, rest.dropWhile Char.isDigit)
    | rest => ([], rest)
  let e ← exponent? rest
  if whole ++ places = [] then none
  else some ⟨Nat.ofDigitChars 10 (whole ++ places) 0, e - places.length⟩

def float? (s : String) : Option Float :=
  let finite (negative : Bool) (cs : List Char) : Option Float := do
    let x := (← decimal? cs).toFloat
    if x.isInf then none else some (if negative then -x else x)
  match s with
  | ".inf" | ".Inf" | ".INF" | "+.inf" | "+.Inf" | "+.INF" => some (1.0 / 0.0)
  | "-.inf" | "-.Inf" | "-.INF" => some (-1.0 / 0.0)
  | ".nan" | ".NaN" | ".NAN" => some (0.0 / 0.0)
  | s =>
    match s.toList with
    | '-' :: cs => finite true cs
    | '+' :: cs => finite false cs
    | cs => finite false cs

/-- The empty text stands for null, and so for a value that is left out. -/
def ofText (s : String) : Scalar :=
  if s = "" || isNull s then null
  else
    match bool? s with
    | some b => bool b
    | none =>
      match int? s.toList with
      | some n => n
      | none =>
        if hasLeadingZero s.toList then string
        else
          match float? s with
          | some x => float x
          | none => string

end Scalar
end Stencil.Yaml
