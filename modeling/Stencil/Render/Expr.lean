import Stencil.Json.Write
import Stencil.Template.Parse

/-! The value of an expression: what paths lead to, what filters do, and why there is no value. The
first error from left to right counts. -/
namespace Stencil.Render

open Template (Path Method Segment Call Expr)

inductive Operation where
  | output
  | thousands
  | iteration
  | membership
  | comparison (op : Comparison)
  | method (m : Method)
  | unpacking (names : Nat)
  | filter (f : Filter)
  | joinSeparator
  | replacePattern
  | replaceReplacement
  | filterCall (name : String) (given : Nat)
  | unknownFilter (name : String)
  deriving DecidableEq, Repr

def Operation.text : Operation → String
  | output => "output"
  | thousands => "thousands formatting"
  | iteration => "iteration"
  | membership => "membership test `in`"
  | comparison op => "comparison `" ++ op.symbol ++ "`"
  | method m => m.text
  | unpacking names => "unpacking into " ++ toString names ++ " names"
  | filter f => f.name
  | joinSeparator => "join separator"
  | replacePattern => "replace pattern"
  | replaceReplacement => "replace replacement"
  | filterCall name given => "filter `" ++ name ++ "` with " ++ toString given ++ " argument(s)"
  | unknownFilter name => "unknown filter `" ++ name ++ "`"

inductive Operand where
  | value (k : Kind)
  | pair (lhs rhs : Kind)
  | member (needle haystack : Kind)
  | sequenceOf (length : Nat)
  deriving DecidableEq, Repr

def Operand.text : Operand → String
  | value k => k.name
  | pair lhs rhs => lhs.name ++ " and " ++ rhs.name
  | member needle haystack => needle.name ++ " in " ++ haystack.name
  | sequenceOf length => "sequence of length " ++ toString length

/-- A path is undefined up to the first step that leads nowhere. -/
inductive RenderError where
  | undefined (path : Path)
  | typeError (operation : Operation) (operand : Operand)
  deriving DecidableEq, Repr

def RenderError.message : RenderError → String
  | undefined path => "undefined variable: `" ++ path.text ++ "`"
  | typeError operation operand =>
    "type error: cannot apply " ++ operation.text ++ " to " ++ operand.text

abbrev Env := String → Option Value

/-- The item with this number; a negative number counts from the end. -/
def item? (items : List Value) (n : Int64) : Option Value :=
  let i := if n < 0 then items.length + n.toInt else n.toInt
  if i < 0 then none else items[i.toNat]?

/-- The part of a value under a name or number. Names that are numbers reach into sequences, and
numbers are names in a map. -/
def lookup? : Value → Segment → Option Value
  | .map entries, .key name => Entries.get? entries name
  | .map entries, .index n => Entries.get? entries (Value.intText n)
  | .seq items, .key name => (Value.integer? name).bind (item? items)
  | .seq items, .index n => item? items n
  | _, _ => none

def view (m : Method) (entries : Entries Value) : Value :=
  .seq <| match m with
    | .items => entries.map fun e => .seq [.string e.1, e.2]
    | .keys => entries.map fun e => .string e.1
    | .values => entries.map fun e => e.2

def step (v : Value) (s : Segment) : Except RenderError (Option Value) :=
  match s with
  | .method m =>
    match v with
    | .map entries => .ok (some (view m entries))
    | v => .error (.typeError (.method m) (.value v.kind))
  | s => .ok (lookup? v s)

/-- Goes on from `v`, which the path `reached` leads to. -/
def follow (reached : Path) (v : Value) : List Segment → Except RenderError Value
  | [] => .ok v
  | s :: rest =>
    let path : Path := ⟨reached.root, reached.segments ++ [s]⟩
    match step v s with
    | .error e => .error e
    | .ok none => .error (.undefined path)
    | .ok (some next) => follow path next rest

def resolve (env : Env) (path : Path) : Except RenderError Value :=
  match env path.root with
  | none => .error (.undefined ⟨path.root, []⟩)
  | some v => follow ⟨path.root, []⟩ v path.segments

def expectString (op : Operation) : Value → Except RenderError String
  | .string s => .ok s
  | v => .error (.typeError op (.value v.kind))

def expectItems (op : Operation) : Value → Except RenderError (List Value)
  | .seq items => .ok items
  | v => .error (.typeError op (.value v.kind))

def expectStrings (op : Operation) : List Value → Except RenderError (List String)
  | [] => .ok []
  | v :: vs => do
    let s ← expectString op v
    let ss ← expectStrings op vs
    pure (s :: ss)

/-- Leaves out each item whose JSON text occurred before, in `seen` or among the items. -/
def distinctItems (seen : List (List Char)) : List Value → List Value
  | [] => []
  | v :: vs =>
    if Json.write v ∈ seen then distinctItems seen vs
    else v :: distinctItems (Json.write v :: seen) vs

def onText (f : Filter) (change : List Char → List Char) (v : Value) :
    Except RenderError Value := do
  let s ← expectString (.filter f) v
  pure (.string (String.ofList (change s.toList)))

def join (v : Value) (separator : Option Value) : Except RenderError Value := do
  let sep ← match separator with
    | some s => expectString .joinSeparator s
    | none => pure ""
  let items ← expectItems (.filter .join) v
  let strings ← expectStrings (.filter .join) items
  pure (.string (sep.intercalate strings))

def replace (v pattern replacement : Value) : Except RenderError Value := do
  let s ← expectString (.filter .replace) v
  let p ← expectString .replacePattern pattern
  let r ← expectString .replaceReplacement replacement
  pure (.string (String.ofList (Filter.replaced p.toList r.toList s.toList)))

def length : Value → Except RenderError Value
  | .string s => .ok (.ofNat s.length)
  | .seq items => .ok (.ofNat items.length)
  | .map entries => .ok (.ofNat entries.length)
  | v => .error (.typeError (.filter .length) (.value v.kind))

def thousands (v : Value) : Except RenderError Value :=
  match v.thousands? with
  | some s => .ok (.string s)
  | none => .error (.typeError .thousands (.value v.kind))

def applyFilter (f : Filter) (v : Value) (args : List Value) : Except RenderError Value :=
  match f, args with
  | .capitalize, _ => onText f Filter.capitalized v
  | .lower, _ => onText f (Unicode.lowerAfter []) v
  | .title, _ => onText f (Filter.titled false) v
  | .trim, _ => onText f Filter.trimmed v
  | .upper, _ => onText f (·.flatMap Unicode.toUpper) v
  | .first, _ => (expectItems (.filter f) v).map (·.head?.getD .null)
  | .last, _ => (expectItems (.filter f) v).map (·.getLast?.getD .null)
  | .unique, _ => (expectItems (.filter f) v).map fun items => .seq (distinctItems [] items)
  | .join, args => join v args.head?
  | .length, _ => length v
  | .replace, [pattern, replacement] => replace v pattern replacement
  | .replace, args => .error (.typeError (.filterCall f.name args.length) (.value v.kind))
  | .thousands, _ => thousands v

def applyCall (c : Call) (v : Value) : Except RenderError Value :=
  match Filter.ofName? c.name with
  | none => .error (.typeError (.unknownFilter c.name) (.value v.kind))
  | some f =>
    if f.arity.admits c.args.length then applyFilter f v c.args
    else .error (.typeError (.filterCall c.name c.args.length) (.value v.kind))

def compare (op : Comparison) (a b : Value) : Except RenderError Bool :=
  match Value.compare? op a b with
  | some r => .ok r
  | none => .error (.typeError (.comparison op) (.pair a.kind b.kind))

def contains (needle haystack : Value) : Except RenderError Bool :=
  match Value.contains? needle haystack with
  | some r => .ok r
  | none => .error (.typeError .membership (.member needle.kind haystack.kind))

/-- The second operand of `and` and `or` counts only if the first does not decide. -/
def eval (env : Env) : Expr → Except RenderError Value
  | .literal v => .ok v
  | .path p => resolve env p
  | .filter target call => do applyCall call (← eval env target)
  | .compare op lhs rhs => do
    let a ← eval env lhs
    let b ← eval env rhs
    pure (.bool (← compare op a b))
  | .contains needle haystack negated => do
    let a ← eval env needle
    let b ← eval env haystack
    pure (.bool ((← contains a b) != negated))
  | .not e => do pure (.bool !(← eval env e).isTruthy)
  | .and lhs rhs => do
    let a ← eval env lhs
    if a.isTruthy then pure (.bool (← eval env rhs).isTruthy) else pure (.bool false)
  | .or lhs rhs => do
    let a ← eval env lhs
    if a.isTruthy then pure (.bool true) else pure (.bool (← eval env rhs).isTruthy)

end Stencil.Render
