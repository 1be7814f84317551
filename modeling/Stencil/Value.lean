import Stencil.Decimal

/-! Parameter values: named entries in the order in which their names were first written, integers
and floats kept apart, how values compare and what the text of a scalar is. -/
namespace Stencil

abbrev Entries (α : Type) := List (String × α)

namespace Entries

variable {α : Type}

def keys (m : Entries α) : List String := m.map Prod.fst

def Distinct (m : Entries α) : Prop := m.keys.Nodup

def get? : Entries α → String → Option α
  | [], _ => none
  | (k, v) :: m, key => if k = key then some v else get? m key

def contains (m : Entries α) (key : String) : Bool := (get? m key).isSome

/-- Writing a name again replaces its value and keeps its place. -/
def insert : Entries α → String → α → Entries α
  | [], key, value => [(key, value)]
  | (k, v) :: m, key, value =>
    if k = key then (k, value) :: m else (k, v) :: insert m key value

def erase : Entries α → String → Entries α
  | [], _ => []
  | (k, v) :: m, key => if k = key then m else (k, v) :: erase m key

def merge (base others : Entries α) : Entries α :=
  others.foldl (fun m e => insert m e.1 e.2) base

def ofList (pairs : List (String × α)) : Entries α := merge [] pairs

end Entries

inductive Value where
  | null
  | bool (b : Bool)
  | int (n : Int64)
  | float (x : Float)
  | string (s : String)
  | seq (items : List Value)
  | map (entries : List (String × Value))
  deriving Repr, Inhabited

inductive Kind where
  | none
  | bool
  | int
  | float
  | string
  | sequence
  | mapping
  deriving DecidableEq, Repr

def Kind.name : Kind → String
  | none => "none"
  | bool => "bool"
  | int => "int"
  | float => "float"
  | string => "string"
  | sequence => "sequence"
  | mapping => "mapping"

namespace Value

def kind : Value → Kind
  | null => .none
  | bool _ => .bool
  | int _ => .int
  | float _ => .float
  | string _ => .string
  | seq _ => .sequence
  | map _ => .mapping

def isTruthy : Value → Bool
  | null => false
  | bool b => b
  | int n => n ≠ 0
  -- a NaN counts as true
  | float x => x != 0.0
  | string s => s ≠ ""
  | seq items => !items.isEmpty
  | map entries => !entries.isEmpty

def isNumber : Value → Bool
  | int _ | float _ => true
  | _ => false

def toFloat? : Value → Option Float
  | int n => some (Float.ofInt n.toInt)
  | float x => some x
  | _ => none

def toString? : Value → Option String
  | string s => some s
  | _ => none

def int64? (n : Int) : Option Int64 :=
  if Int64.minValue.toInt ≤ n ∧ n ≤ Int64.maxValue.toInt then some (Int64.ofInt n) else none

/-- An integer out of range becomes a float. -/
def ofInt (n : Int) : Value :=
  match int64? n with
  | some n => int n
  | none => float (Float.ofInt n)

def ofNat (n : Nat) : Value := ofInt n

def ofDigits? (negative : Bool) (digits : List Char) : Option Int64 :=
  let n : Int := Nat.ofDigitChars 10 digits 0
  int64? (if negative then -n else n)

/-- The integer that a text denotes: digits after at most one sign. -/
def integer? (s : String) : Option Int64 :=
  let read (negative : Bool) (ds : List Char) : Option Int64 :=
    if ds ≠ [] ∧ ds.all Char.isDigit then ofDigits? negative ds else none
  match s.toList with
  | '-' :: ds => read true ds
  | '+' :: ds => read false ds
  | ds => read false ds

end Value

inductive Comparison where
  | eq
  | ne
  | lt
  | le
  | gt
  | ge
  deriving DecidableEq, Repr

namespace Comparison

def symbol : Comparison → String
  | eq => "=="
  | ne => "!="
  | lt => "<"
  | le => "<="
  | gt => ">"
  | ge => ">="

def holds : Comparison → Ordering → Bool
  | eq, o => o == .eq
  | ne, o => o != .eq
  | lt, o => o == .lt
  | le, o => o != .gt
  | gt, o => o == .gt
  | ge, o => o != .lt

end Comparison

def compareFloats (x y : Float) : Option Ordering :=
  if x < y then some .lt else if x == y then some .eq else if y < x then some .gt else none

namespace Value

mutual

/-- Equality of values, where an integer equals the float of its value. -/
def equal : Value → Value → Bool
  | null, null => true
  | bool a, bool b => a == b
  | int a, int b => a == b
  | float x, float y => x == y
  | int a, float y => Float.ofInt a.toInt == y
  | float x, int b => x == Float.ofInt b.toInt
  | string s, string t => s == t
  | seq xs, seq ys => equalItems xs ys
  | map xs, map ys => xs.length == ys.length && equalEntries xs ys
  | _, _ => false

def equalItems : List Value → List Value → Bool
  | [], [] => true
  | x :: xs, y :: ys => equal x y && equalItems xs ys
  | _, _ => false

/-- Every entry of the first list has an equal value under its name in the second. -/
def equalEntries : List (String × Value) → List (String × Value) → Bool
  | [], _ => true
  | (k, x) :: xs, ys =>
    (match Entries.get? ys k with
     | some y => equal x y
     | none => false) && equalEntries xs ys

end

/-- The order of two numbers or two strings; `some none` says that a NaN is among the numbers. -/
def order? : Value → Value → Option (Option Ordering)
  | int a, int b => some (some (compare a b))
  | string s, string t => some (some (compare s t))
  | a, b =>
    match a.toFloat?, b.toFloat? with
    | some x, some y => some (compareFloats x y)
    | _, _ => none

/-- The answer of a comparison, if it applies: to numbers and to strings always, to two values of
one other kind only for `==` and `!=`. -/
def compare? (op : Comparison) (a b : Value) : Option Bool :=
  match order? a b with
  | some (some o) => some (op.holds o)
  | some none => some (op == .ne)
  | none =>
    if a.kind = b.kind then
      match op with
      | .eq => some (equal a b)
      | .ne => some (!equal a b)
      | _ => none
    else none

def occursIn (part : List Char) : List Char → Bool
  | [] => part.isEmpty
  | c :: cs => part.isPrefixOf (c :: cs) || occursIn part cs

def contains? (needle haystack : Value) : Option Bool :=
  match haystack, needle with
  | seq items, _ => some (items.any (equal · needle))
  | map entries, string key => some (Entries.contains entries key)
  | string s, string part => some (occursIn part.toList s.toList)
  | _, _ => none

/-- Output never uses an exponent, and of two equally near decimals it takes the upper. -/
def outputLayout : Layout where
  tie := .up
  positional := none
  plus := false
  nan := "nan"
  infinity := "inf"
  negativeInfinity := "-inf"

def floatText (x : Float) : String := outputLayout.text x

def intText (n : Int64) : String := toString n.toInt

def outputText? : Value → Option String
  | null => some "None"
  | bool true => some "True"
  | bool false => some "False"
  | int n => some (intText n)
  | float x => some (floatText x)
  | string s => some s
  | seq _ | map _ => none

def groupThousands : List Char → List Char
  | [] => []
  | d :: ds =>
    if ds ≠ [] ∧ ds.length % 3 = 0 then d :: ',' :: groupThousands ds else d :: groupThousands ds

def groupedInt (n : Int64) : String :=
  let digits := String.ofList (groupThousands (toString n.toInt.natAbs).toList)
  if n.toInt < 0 then "-" ++ digits else digits

/-- Groups the digits before the point. A zero loses its sign. -/
def groupedFloat (x : Float) : String :=
  if x.isFinite then
    let text := (floatText x.abs).toList
    let sign := if x < 0.0 then "-" else ""
    sign ++ String.ofList
      (groupThousands (text.takeWhile (· ≠ '.')) ++ text.dropWhile (· ≠ '.'))
  else floatText x

def thousands? : Value → Option String
  | int n => some (groupedInt n)
  | float x => some (groupedFloat x)
  | _ => none

end Value

end Stencil
