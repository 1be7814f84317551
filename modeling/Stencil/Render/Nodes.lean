import Stencil.Render.Expr

/-! Rendering. The variables in sight are the parameters and a frame for each loop around the
current node. The output grows as the nodes are met, and the first error discards it. -/
namespace Stencil.Render

open Template (Target Node Expr)

abbrev Frame := Entries Value

structure Scope where
  frames : List Frame
  base : Entries Value

namespace Scope

def ofParams (params : Entries Value) : Scope := ⟨[], params⟩

def push (s : Scope) (f : Frame) : Scope := ⟨f :: s.frames, s.base⟩

/-- The innermost frame that holds a name decides; the parameters come last. -/
def lookup (s : Scope) : Env := fun name =>
  match s.frames.findSome? (Entries.get? · name) with
  | some v => some v
  | none => Entries.get? s.base name

end Scope

def loopInfo (index0 length : Nat) : Value :=
  .map [("index", .ofNat (index0 + 1)), ("index0", .ofNat index0), ("first", .bool (index0 = 0)),
    ("last", .bool (index0 + 1 = length)), ("length", .ofNat length),
    ("revindex", .ofNat (length - index0)), ("revindex0", .ofNat (length - (index0 + 1)))]

def bindTarget (t : Target) (item : Value) : Except RenderError Frame :=
  match t with
  | .single name => .ok [(name, item)]
  | .unpack names =>
    match item with
    | .seq parts =>
      if parts.length = names.length then .ok (Entries.ofList (names.zip parts))
      else .error (.typeError (.unpacking names.length) (.sequenceOf parts.length))
    | v => .error (.typeError (.unpacking names.length) (.value v.kind))

/-- The frame of a round: the names of the loop, and `loop`, which hides a name of that spelling. -/
def roundFrame (t : Target) (item : Value) (index0 length : Nat) : Except RenderError Frame :=
  (bindTarget t item).map (Entries.insert · "loop" (loopInfo index0 length))

def iterate : Value → Except RenderError (List Value)
  | .seq items => .ok items
  | .map entries => .ok ((Entries.keys entries).map .string)
  | v => .error (.typeError .iteration (.value v.kind))

def outputText (v : Value) : Except RenderError String :=
  match v.outputText? with
  | some s => .ok s
  | none => .error (.typeError .output (.value v.kind))

/-- Runs `body` once for each item, with the frame of the round on top of the scope. -/
def renderRounds (body : Scope → String → Except RenderError String) (scope : Scope)
    (target : Target) (length : Nat) : Nat → List Value → String → Except RenderError String
  | _, [], out => .ok out
  | index0, item :: items, out => do
    let frame ← roundFrame target item index0 length
    let out ← body (scope.push frame) out
    renderRounds body scope target length (index0 + 1) items out

mutual

def renderNodes (scope : Scope) (out : String) : List Node → Except RenderError String
  | [] => .ok out
  | n :: ns => do
    let out ← renderNode scope out n
    renderNodes scope out ns

def renderNode (scope : Scope) (out : String) : Node → Except RenderError String
  | .text s => .ok (out ++ s)
  | .output e => do
    let v ← eval scope.lookup e
    pure (out ++ (← outputText v))
  | .loop target iterable body empty => do
    let items ← iterate (← eval scope.lookup iterable)
    if items.isEmpty then renderOptional scope out empty
    else
      renderRounds (fun scope out => renderNodes scope out body) scope target items.length 0 items
        out
  | .cond branches otherwise => do
    match ← renderBranches scope out branches with
    | some out => pure out
    | none => renderOptional scope out otherwise

def renderBranches (scope : Scope) (out : String) :
    List (Expr × List Node) → Except RenderError (Option String)
  | [] => .ok none
  | (condition, body) :: branches => do
    let v ← eval scope.lookup condition
    if v.isTruthy then some <$> renderNodes scope out body else renderBranches scope out branches

def renderOptional (scope : Scope) (out : String) : Option (List Node) → Except RenderError String
  | none => .ok out
  | some nodes => renderNodes scope out nodes

end

end Stencil.Render

namespace Stencil.Template

def render (t : Template) (params : Entries Value) : Except Render.RenderError String :=
  Render.renderNodes (.ofParams params) "" t.nodes

end Stencil.Template
