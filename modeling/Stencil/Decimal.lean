/-! Nonnegative decimals, and the text of a float. Its digits are the shortest that read back: those
of the coarsest decimal grid with a point among the reals that round to it, and of two such points
the nearer. -/
namespace Stencil

structure Decimal where
  coefficient : Nat
  exponent : Int
  deriving DecidableEq, Repr

namespace Decimal

def digits (d : Decimal) : List Char := Nat.toDigits 10 d.coefficient

def leading (d : Decimal) : Int := d.digits.length - 1 + d.exponent

/-- The nearest float, infinite when too large. Far outside the range of floats the power of ten
is not computed. -/
def toFloat (d : Decimal) : Float :=
  if d.coefficient = 0 || d.leading < -330 then 0.0
  else if 310 < d.leading then 1.0 / 0.0
  else Float.ofScientific d.coefficient (d.exponent < 0) d.exponent.natAbs

end Decimal

inductive Tie where
  | up
  | even
  deriving DecidableEq, Repr

/-- The positive number `mantissa * 2 ^ exponent` among the floats around it. It is `narrow` at a
power of two, where the float below is only half as far away as the float above. -/
structure Binary where
  mantissa : Nat
  exponent : Int
  narrow : Bool
  deriving DecidableEq, Repr

namespace Binary

def leastNormal : Nat := 0x10000000000000

def ofBits (bits : Nat) : Binary :=
  let field := bits / leastNormal
  let fraction := bits % leastNormal
  if field = 0 then ⟨fraction, -1074, false⟩
  else ⟨leastNormal + fraction, (field : Int) - 1075, fraction = 0 && 1 < field⟩

/-- The point of the grid `10 ^ k` that stands for `b`, if one lies among the reals that round
to `b`. Everything is multiplied out to natural numbers, a quarter of the last binary place
being one `unit`. -/
def onGrid (tie : Tie) (b : Binary) (k : Int) : Option Decimal :=
  let step := Nat.pow 10 k.toNat * Nat.pow 2 (2 - b.exponent).toNat
  let unit := Nat.pow 2 (b.exponent - 2).toNat * Nat.pow 10 (-k).toNat
  let value := 4 * b.mantissa * unit
  let low := value - (if b.narrow then 1 else 2) * unit
  let high := value + 2 * unit
  let inside (n : Nat) : Bool :=
    if b.mantissa % 2 = 0 then low ≤ n * step && n * step ≤ high
    else low < n * step && n * step < high
  let below := value / step
  match inside below, inside (below + 1) with
  | false, false => none
  | true, false => some ⟨below, k⟩
  | false, true => some ⟨below + 1, k⟩
  | true, true =>
    let down := value - below * step
    let up := (below + 1) * step - value
    if down < up then some ⟨below, k⟩
    else if up < down then some ⟨below + 1, k⟩
    else match tie with
      | .up => some ⟨below + 1, k⟩
      | .even => some ⟨below + below % 2, k⟩

/-- A power of ten above `b` and within a factor of a billion of it. -/
def ceiling (b : Binary) : Int :=
  let p := b.mantissa.log2 + 1 + b.exponent
  if 0 ≤ p then p * 31 / 100 + 1 else p * 3 / 10 + 1

def coarsest (tie : Tie) (b : Binary) : Nat → Int → Decimal
  | 0, k => ⟨0, k⟩
  | tries + 1, k =>
    match onGrid tie b k with
    | some d => d
    | none => coarsest tie b tries (k - 1)

/-- Seventeen digits always suffice, and the search starts at most ten above the first digit. -/
def shortest (tie : Tie) (b : Binary) : Decimal := coarsest tie b 40 b.ceiling

end Binary

/-- How floats are laid out. No exponent is written while the power of ten of the first digit lies
within `positional`, and an exponent of zero or more has a sign if `plus` is set. -/
structure Layout where
  tie : Tie
  positional : Option (Int × Int)
  plus : Bool
  nan : String
  infinity : String
  negativeInfinity : String
  deriving DecidableEq, Repr

namespace Layout

def inPlace (d : Decimal) : String :=
  let ds := d.digits
  let point := ds.length + d.exponent
  if 0 ≤ d.exponent then
    String.ofList (ds ++ List.replicate d.exponent.toNat '0' ++ ['.', '0'])
  else if 0 < point then
    String.ofList (ds.take point.toNat ++ '.' :: ds.drop point.toNat)
  else
    String.ofList ('0' :: '.' :: List.replicate (-point).toNat '0' ++ ds)

def scientific (plus : Bool) (d : Decimal) : String :=
  let mantissa :=
    match d.digits with
    | [] => []
    | [c] => [c]
    | c :: cs => c :: '.' :: cs
  let sign := if d.leading < 0 then "-" else if plus then "+" else ""
  String.ofList mantissa ++ "e" ++ sign ++ toString d.leading.natAbs

def decimalText (l : Layout) (d : Decimal) : String :=
  match l.positional with
  | none => inPlace d
  | some (least, most) =>
    if least ≤ d.leading && d.leading ≤ most then inPlace d else scientific l.plus d

def signBit : Nat := 0x8000000000000000

def infinityBits : Nat := 0x7FF0000000000000

def bitsText (l : Layout) (bits : Nat) : String :=
  let negative := signBit ≤ bits
  let magnitude := bits % signBit
  let sign := if negative then "-" else ""
  if infinityBits < magnitude then l.nan
  else if magnitude = infinityBits then if negative then l.negativeInfinity else l.infinity
  else if magnitude = 0 then sign ++ "0.0"
  else sign ++ l.decimalText ((Binary.ofBits magnitude).shortest l.tie)

def text (l : Layout) (x : Float) : String := l.bitsText x.toBits.toNat

end Layout

end Stencil
