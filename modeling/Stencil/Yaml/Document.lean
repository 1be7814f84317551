import Stencil.Value
import Stencil.Yaml.Node
import Stencil.Yaml.Scalar
import Stencil.Yaml.Scan

/-! The value of a document, in which scalars are resolved and aliases expanded. -/
namespace Stencil.Yaml

inductive Document where
  | null
  | bool (b : Bool)
  | int (n : Int)
  | float (x : Float)
  | string (s : String)
  | sequence (items : List Document)
  | mapping (entries : List (Document × Document))
  | tagged (name : String) (value : Document)
  deriving Repr, Inhabited

namespace Document

mutual

/-- Equality of keys. A NaN equals itself, an integer no float, and the order of a mapping's
entries does not count. -/
def equal : Document → Document → Bool
  | null, null => true
  | bool a, bool b => a == b
  | int a, int b => a == b
  | float x, float y => x == y || (x.isNaN && y.isNaN)
  | string s, string t => s == t
  | sequence xs, sequence ys => equalItems xs ys
  | mapping xs, mapping ys => xs.length == ys.length && equalEntries xs ys
  | tagged m x, tagged n y => m == n && equal x y
  | _, _ => false

def equalItems : List Document → List Document → Bool
  | [], [] => true
  | x :: xs, y :: ys => equal x y && equalItems xs ys
  | _, _ => false

def equalEntries : List (Document × Document) → List (Document × Document) → Bool
  | [], _ => true
  | (k, x) :: xs, ys => ys.any (fun e => equal k e.1 && equal x e.2) && equalEntries xs ys

end

def ofScalar (text : String) : Scalar → Option Document
  | .null => some null
  | .bool b => some (bool b)
  | .int n => some (int n)
  | .wide => none
  | .float x => some (float x)
  | .string => some (string text)

def ofTyped (text : String) : CoreType → Option Document
  | .bool => (Scalar.bool? text).map bool
  | .int =>
    match Scalar.int? text.toList with
    | some (.int n) => some (int n)
    | _ => none
  | .float => (Scalar.float? text).map float
  | .null => if Scalar.isNull text then some null else none

/-- The value of a text. A tag asks for its type, and any other tag makes a string, but one of the
document's own leaves a plain text as it is. -/
def ofText (tag : Option Tag) (plain : Bool) (text : String) : Option Document :=
  match tag.bind CoreType.ofTag? with
  | some c => ofTyped text c
  | none =>
    if plain && tag.all Tag.isLocal then ofScalar text (.ofText text) else some (string text)

end Document

/-! Anchors. An anchor gets the number of names known before it, and a number stands for the last
node that took it. -/

/-- The numbers of names, how many anchors were met, and the anchored nodes, each after its number
and its order. -/
structure Anchors where
  numbers : Entries Nat
  met : Nat
  nodes : List (Nat × Nat × Node Nat)

namespace Anchors

abbrev Link := StateT Anchors Option

def number (name : String) : Link Nat := do
  match Entries.get? (← get).numbers name with
  | some n => pure n
  | none => failure

def enter : Option String → Link (Option (Nat × Nat))
  | none => pure none
  | some name => do
    let s ← get
    let n := s.numbers.length
    set { s with numbers := Entries.insert s.numbers name n, met := s.met + 1 }
    pure (some (n, s.met))

def leave (anchor : Option (Nat × Nat)) (node : Node Nat) : Link (Node Nat) := do
  match anchor with
  | none => pure node
  | some (n, order) =>
    modify fun s => { s with nodes := (n, order, node) :: s.nodes }
    pure node

mutual

/-- Replaces the names in aliases by the numbers that they have there. -/
def link : Node String → Link (Node Nat)
  | .aliasTo name => do pure (.aliasTo (← number name))
  | .scalar props text plain => do
    let anchor ← enter props.anchor
    leave anchor (.scalar props text plain)
  | .sequence props items => do
    let anchor ← enter props.anchor
    leave anchor (.sequence props (← linkItems items))
  | .mapping props entries => do
    let anchor ← enter props.anchor
    leave anchor (.mapping props (← linkEntries entries))

def linkItems : List (Node String) → Link (List (Node Nat))
  | [] => pure []
  | n :: ns => do
    let n ← link n
    pure (n :: (← linkItems ns))

def linkEntries : List (Node String × Node String) → Link (List (Node Nat × Node Nat))
  | [] => pure []
  | (k, v) :: es => do
    let k ← link k
    let v ← link v
    pure ((k, v) :: (← linkEntries es))

end

def find? (s : Anchors) (number : Nat) : Option (Node Nat) :=
  let newer (best : Option (Nat × Node Nat)) (e : Nat × Nat × Node Nat) :=
    if e.1 = number && best.all (·.1 < e.2.1) then some e.2 else best
  (s.nodes.foldl newer none).map Prod.snd

end Anchors

namespace Document

def buildEntries (build : Node Nat → StateT Nat Option Document)
    (done : List (Document × Document)) :
    List (Node Nat × Node Nat) → StateT Nat Option (List (Document × Document))
  | [] => pure done.reverse
  | (k, v) :: es => do
    let k ← build k
    if done.any (equal k ·.1) then failure
    else
      let v ← build v
      buildEntries build ((k, v) :: done) es

def withTag (tag : Option Tag) (contents : Document) : Document :=
  match tag.bind Tag.name? with
  | some name => tagged name contents
  | none => contents

def buildScalar (props : Props) (text : String) (plain : Bool) : StateT Nat Option Document := do
  pure (withTag props.tag (← ofText props.tag plain text))

/-- The node that an alias stands for. The state counts the aliases followed, at most `limit`. -/
def follow (find : Nat → Option (Node Nat)) (limit : Nat) : Node Nat → StateT Nat Option (Node Nat)
  | .aliasTo n => do
    modify (· + 1)
    if limit < (← get) then failure
    else find n
  | node => pure node

def build (find : Nat → Option (Node Nat)) (limit : Nat) :
    (depth : Nat) → Node Nat → StateT Nat Option Document
  | 0, node => do
    match ← follow find limit node with
    | .scalar props text plain => buildScalar props text plain
    | _ => failure
  | depth + 1, node => do
    match ← follow find limit node with
    | .scalar props text plain => buildScalar props text plain
    | .sequence props items =>
      pure (withTag props.tag (sequence (← items.mapM (build find limit depth))))
    | .mapping props entries =>
      pure (withTag props.tag (mapping (← buildEntries (build find limit depth) [] entries)))
    | .aliasTo _ => failure

def nestingLimit : Nat := 128

/-- Each step of a document may stand for a hundred aliases. -/
def ofNode (node : Node String) : Option Document := do
  let (node, anchors) ← (Anchors.link node).run ⟨[], 0, []⟩
  let (d, _) ← (build anchors.find? (100 * node.steps) nestingLimit node).run 0
  pure d

def readDirectives (version : Bool) (handles : Handles) :
    List Token → Option (Bool × Handles × List Token)
  | .version major minor :: ts =>
    if version || major ≠ 1 || (minor ≠ 1 && minor ≠ 2) then none
    else readDirectives true handles ts
  | .tagHandle handle stem :: ts =>
    if (handles.lookup handle).isSome then none
    else readDirectives version (handles ++ [(handle, stem)]) ts
  | ts => some (version, handles, ts)

def readRoot (ts : List Token) : Option (Node String) := do
  let (version, handles, us) ← readDirectives false [] ts
  let all := handles ++ defaultHandles
  let ends (rest : List Token) (n : Node String) : Option (Node String) :=
    if rest.all (· = .documentEnd) then some n else none
  match us with
  | .documentStart :: rest =>
    match rest with
    | [] | .documentEnd :: _ => ends rest .empty
    | _ => do
      let r ← readNode all true false rest
      ends r.rest r.value
  | us =>
    if version || !handles.isEmpty then none
    else do
      let r ← readNode all true false us
      ends r.rest r.value

/-- The value of a text; none if it is not one document. A text without tokens holds null. -/
def ofSource? (s : String) : Option Document := do
  let ts ← tokens? s
  if ts = [] then some null else ofNode (← readRoot ts)

end Document
end Stencil.Yaml
