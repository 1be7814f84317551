import Stencil.Value

/-! The compact JSON text of a value. Infinite floats and NaN, which JSON lacks, become `null`. -/
namespace Stencil.Json

def floatLayout : Layout where
  tie := .even
  positional := some (-5, 15)
  plus := true
  nan := "null"
  infinity := "null"
  negativeInfinity := "null"

def hexDigits (n : Nat) : List Char :=
  [Nat.digitChar (n / 0x1000 % 16), Nat.digitChar (n / 0x100 % 16), Nat.digitChar (n / 0x10 % 16),
    Nat.digitChar (n % 16)]

def escape (c : Char) : List Char :=
  if c = '"' then ['\\', '"']
  else if c = '\\' then ['\\', '\\']
  else if c = '\x08' then ['\\', 'b']
  else if c = '\x0c' then ['\\', 'f']
  else if c = '\n' then ['\\', 'n']
  else if c = '\r' then ['\\', 'r']
  else if c = '\t' then ['\\', 't']
  else if c.toNat < 0x20 then '\\' :: 'u' :: hexDigits c.toNat
  else [c]

def quote (s : String) : List Char := '"' :: s.toList.flatMap escape ++ ['"']

mutual

def write : Value → List Char
  | .null => ['n', 'u', 'l', 'l']
  | .bool true => ['t', 'r', 'u', 'e']
  | .bool false => ['f', 'a', 'l', 's', 'e']
  | .int n => (Value.intText n).toList
  | .float x => (floatLayout.text x).toList
  | .string s => quote s
  | .seq [] => ['[', ']']
  | .seq (v :: vs) => '[' :: write v ++ writeItems vs
  | .map [] => ['{', '}']
  | .map ((k, v) :: es) => '{' :: quote k ++ ':' :: write v ++ writeEntries es

/-- The items after the first, and the closing bracket. -/
def writeItems : List Value → List Char
  | [] => [']']
  | v :: vs => ',' :: write v ++ writeItems vs

def writeEntries : List (String × Value) → List Char
  | [] => ['}']
  | (k, v) :: es => ',' :: quote k ++ ':' :: write v ++ writeEntries es

end

def text (v : Value) : String := String.ofList (write v)

end Stencil.Json

namespace Stencil.Value

def display (v : Value) : String :=
  match v.outputText? with
  | some s => s
  | none => Json.text v

end Stencil.Value
