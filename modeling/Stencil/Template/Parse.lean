import Stencil.Template.Lexer

/-! The tree of a template, read from its tokens by recursive descent. `last` is always the position
of the token before the list, where an error at its end is reported. Blocks that are still open wait
on a stack, each with the nodes that came before it. -/
namespace Stencil

namespace Template

inductive Method where
  | items
  | keys
  | values
  deriving DecidableEq, Repr

namespace Method

def name : Method → String
  | items => "items"
  | keys => "keys"
  | values => "values"

def ofName? (s : String) : Option Method := [items, keys, values].find? (·.name = s)

def text (m : Method) : String := m.name ++ "()"

end Method

inductive Segment where
  | key (name : String)
  | index (n : Int64)
  | method (m : Method)
  deriving DecidableEq, Repr

structure Path where
  root : String
  segments : List Segment
  deriving DecidableEq, Repr

def Segment.text : Segment → String
  | key name => "." ++ name
  | index n => "[" ++ toString n.toInt ++ "]"
  | method m => "." ++ m.text

def Path.text (p : Path) : String := p.root ++ String.join (p.segments.map Segment.text)

structure Call where
  name : String
  args : List Value
  deriving Repr

inductive Expr where
  | literal (v : Value)
  | path (p : Path)
  | filter (target : Expr) (call : Call)
  | compare (op : Comparison) (lhs rhs : Expr)
  | contains (needle haystack : Expr) (negated : Bool)
  | not (e : Expr)
  | and (lhs rhs : Expr)
  | or (lhs rhs : Expr)
  deriving Repr

inductive Target where
  | single (name : String)
  | unpack (names : List String)
  deriving DecidableEq, Repr

inductive Node where
  | text (s : String)
  | output (e : Expr)
  | loop (target : Target) (iterable : Expr) (body : List Node) (empty : Option (List Node))
  | cond (branches : List (Expr × List Node)) (otherwise : Option (List Node))
  deriving Repr

/-- A construct at the front of `ts`, the position of its last token, and the tokens after it. -/
structure Parsed (α : Type) (ts : List Token) where
  value : α
  last : Pos
  rest : List Token
  shorter : rest.length < ts.length

def Parsed.within {α : Type} {ts us : List Token} (r : Parsed α us) (h : us.length ≤ ts.length) :
    Parsed α ts :=
  ⟨r.value, r.last, r.rest, Nat.lt_of_lt_of_le r.shorter h⟩

def Parsed.map {α β : Type} {ts : List Token} (f : α → β) (r : Parsed α ts) : Parsed β ts :=
  ⟨f r.value, r.last, r.rest, r.shorter⟩

def expected (what : Expected) (last : Pos) : List Token → ParseError
  | [] => ⟨.expected what none, last⟩
  | t :: _ => ⟨.expected what (some t.symbol), t.pos⟩

def expect (s : Symbol) (last : Pos) (ts : List Token) : Except ParseError (Parsed Unit ts) :=
  match ts with
  | [] => .error (expected (.symbol s) last [])
  | t :: rest =>
    if t.symbol = s then .ok ⟨(), t.pos, rest, Nat.lt_succ_self _⟩
    else .error (expected (.symbol s) last (t :: rest))

def Parsed.close {α : Type} {ts : List Token} (s : Symbol) (r : Parsed α ts) :
    Except ParseError (Parsed α ts) :=
  match expect s r.last r.rest with
  | .error e => .error e
  | .ok c => .ok ⟨r.value, c.last, c.rest, Nat.lt_trans c.shorter r.shorter⟩

def literal? : Symbol → Option Value
  | .string s => some (.string s)
  | .int n => some (.int n)
  | .float x => some (.float x)
  | .keyword .true_ => some (.bool true)
  | .keyword .false_ => some (.bool false)
  | .keyword .none_ => some .null
  | _ => none

def readArgs (last : Pos) (ts : List Token) : Except ParseError (Parsed (List Value) ts) :=
  match ts with
  | [] => .error (expected .expression last [])
  | t :: rest =>
    match literal? t.symbol with
    | none => .error (expected .expression last (t :: rest))
    | some v =>
      match rest with
      | ⟨.comma, p⟩ :: more =>
        match readArgs p more with
        | .error e => .error e
        | .ok vs => .ok ((vs.map (v :: ·)).within (by simp only [List.length_cons]; omega))
      | rest => Parsed.close .rightParen ⟨[v], t.pos, rest, Nat.lt_succ_self _⟩

def readArgList {ts : List Token} (name : Parsed String ts) :
    Except ParseError (Parsed (List Value) ts) :=
  match h : name.rest with
  | ⟨.leftParen, _⟩ :: ⟨.rightParen, p⟩ :: rest =>
    .ok ⟨[], p, rest, by have := name.shorter; simp only [h, List.length_cons] at this; omega⟩
  | ⟨.leftParen, p⟩ :: rest =>
    match readArgs p rest with
    | .error e => .error e
    | .ok args =>
      .ok (args.within (by have := name.shorter; simp only [h, List.length_cons] at this; omega))
  | _ => .ok ⟨[], name.last, name.rest, name.shorter⟩

def Call.refusal? (c : Call) : Option Cause :=
  match Filter.ofName? c.name with
  | none => some (.unknownFilter c.name)
  | some f =>
    if f.arity.admits c.args.length then none
    else some (.filterArity c.name f.arity c.args.length)

/-- A filter's name and arguments. A call that is refused is reported at the name. -/
def readCall (last : Pos) (ts : List Token) : Except ParseError (Parsed Call ts) :=
  match ts with
  | ⟨.word name, p⟩ :: rest =>
    match @readArgList (⟨.word name, p⟩ :: rest) ⟨name, p, rest, Nat.lt_succ_self _⟩ with
    | .error e => .error e
    | .ok args =>
      match Call.refusal? ⟨name, args.value⟩ with
      | some cause => .error ⟨cause, p⟩
      | none => .ok (args.map (⟨name, ·⟩))
  | ts => .error (expected .filterName last ts)

def readAttribute (last : Pos) (ts : List Token) : Except ParseError (Parsed Segment ts) :=
  match ts with
  | ⟨.word name, p⟩ :: ⟨.leftParen, q⟩ :: rest =>
    match expect .rightParen q rest with
    | .error e => .error e
    | .ok c =>
      match Method.ofName? name with
      | none => .error ⟨.unknownMethod name, p⟩
      | some m =>
        .ok ((c.map fun _ => .method m).within (by simp only [List.length_cons]; omega))
  | ⟨.word name, p⟩ :: rest => .ok ⟨.key name, p, rest, Nat.lt_succ_self _⟩
  | ⟨.keyword k, p⟩ :: rest => .ok ⟨.key k.spelling, p, rest, Nat.lt_succ_self _⟩
  | ⟨.int n, p⟩ :: rest => .ok ⟨.index n, p, rest, Nat.lt_succ_self _⟩
  | ts => .error (expected .attributeName last ts)

def readIndex (last : Pos) (ts : List Token) : Except ParseError (Parsed Segment ts) :=
  match ts with
  | ⟨.int n, p⟩ :: rest => Parsed.close .rightBracket ⟨.index n, p, rest, Nat.lt_succ_self _⟩
  | ⟨.string s, p⟩ :: rest => Parsed.close .rightBracket ⟨.key s, p, rest, Nat.lt_succ_self _⟩
  | ts => .error (expected .indexOrKey last ts)

def extendPath {ts : List Token} (path : Parsed Path ts) : Except ParseError (Parsed Path ts) :=
  have hp := path.shorter
  let step (s : Segment) : Path := ⟨path.value.root, path.value.segments ++ [s]⟩
  match h : path.rest with
  | ⟨.dot, p⟩ :: rest =>
    match readAttribute p rest with
    | .error e => .error e
    | .ok s =>
      have hs := s.shorter
      have : s.rest.length < path.rest.length := by rw [h, List.length_cons]; omega
      extendPath ⟨step s.value, s.last, s.rest, by omega⟩
  | ⟨.leftBracket, p⟩ :: rest =>
    match readIndex p rest with
    | .error e => .error e
    | .ok s =>
      have hs := s.shorter
      have : s.rest.length < path.rest.length := by rw [h, List.length_cons]; omega
      extendPath ⟨step s.value, s.last, s.rest, by omega⟩
  | _ => .ok path
termination_by path.rest.length

def extendFilters {ts : List Token} (target : Parsed Expr ts) :
    Except ParseError (Parsed Expr ts) :=
  have ht := target.shorter
  match h : target.rest with
  | ⟨.pipe, p⟩ :: rest =>
    match readCall p rest with
    | .error e => .error e
    | .ok c =>
      have hc := c.shorter
      have : c.rest.length < target.rest.length := by rw [h, List.length_cons]; omega
      extendFilters ⟨.filter target.value c.value, c.last, c.rest, by omega⟩
  | _ => .ok target
termination_by target.rest.length

mutual

/-- Disjunctions, which bind weakest and group to the left. -/
def readExpr (last : Pos) (ts : List Token) : Except ParseError (Parsed Expr ts) :=
  match readAnd last ts with
  | .error e => .error e
  | .ok left =>
    have := left.shorter
    extendOr left
termination_by (ts.length, 7)

def extendOr {ts : List Token} (left : Parsed Expr ts) : Except ParseError (Parsed Expr ts) :=
  have hl := left.shorter
  match h : left.rest with
  | ⟨.keyword .or, p⟩ :: rest =>
    have : rest.length < left.rest.length := by rw [h]; exact Nat.lt_succ_self _
    match readAnd p rest with
    | .error e => .error e
    | .ok right =>
      have hr := right.shorter
      have : right.rest.length < left.rest.length := by omega
      extendOr ⟨.or left.value right.value, right.last, right.rest, by omega⟩
  | _ => .ok left
termination_by (left.rest.length, 6)

def readAnd (last : Pos) (ts : List Token) : Except ParseError (Parsed Expr ts) :=
  match readNot last ts with
  | .error e => .error e
  | .ok left =>
    have := left.shorter
    extendAnd left
termination_by (ts.length, 5)

def extendAnd {ts : List Token} (left : Parsed Expr ts) : Except ParseError (Parsed Expr ts) :=
  have hl := left.shorter
  match h : left.rest with
  | ⟨.keyword .and, p⟩ :: rest =>
    have : rest.length < left.rest.length := by rw [h]; exact Nat.lt_succ_self _
    match readNot p rest with
    | .error e => .error e
    | .ok right =>
      have hr := right.shorter
      have : right.rest.length < left.rest.length := by omega
      extendAnd ⟨.and left.value right.value, right.last, right.rest, by omega⟩
  | _ => .ok left
termination_by (left.rest.length, 4)

def readNot (last : Pos) (ts : List Token) : Except ParseError (Parsed Expr ts) :=
  match ts with
  | ⟨.keyword .not, p⟩ :: rest =>
    match readNot p rest with
    | .error e => .error e
    | .ok e => .ok ((e.map .not).within (Nat.le_succ _))
  | ts => readComparison last ts
termination_by (ts.length, 3)

/-- At most one comparison or membership test. -/
def readComparison (last : Pos) (ts : List Token) : Except ParseError (Parsed Expr ts) :=
  match readFiltered last ts with
  | .error e => .error e
  | .ok left =>
    have hl := left.shorter
    match h : left.rest with
    | ⟨.compare op, p⟩ :: rest =>
      have hr : rest.length < ts.length := by rw [h, List.length_cons] at hl; omega
      match readFiltered p rest with
      | .error e => .error e
      | .ok right => .ok ((right.map (.compare op left.value ·)).within (Nat.le_of_lt hr))
    | ⟨.keyword .in_, p⟩ :: rest =>
      have hr : rest.length < ts.length := by rw [h, List.length_cons] at hl; omega
      match readFiltered p rest with
      | .error e => .error e
      | .ok right => .ok ((right.map (.contains left.value · false)).within (Nat.le_of_lt hr))
    | ⟨.keyword .not, p⟩ :: rest =>
      match expect (.keyword .in_) p rest with
      | .error e => .error e
      | .ok c =>
        have hr : c.rest.length < ts.length := by
          have := c.shorter; rw [h, List.length_cons] at hl; omega
        match readFiltered c.last c.rest with
        | .error e => .error e
        | .ok right => .ok ((right.map (.contains left.value · true)).within (Nat.le_of_lt hr))
    | _ => .ok left
termination_by (ts.length, 2)

def readFiltered (last : Pos) (ts : List Token) : Except ParseError (Parsed Expr ts) :=
  match readPrimary last ts with
  | .error e => .error e
  | .ok target => extendFilters target
termination_by (ts.length, 1)

def readPrimary (last : Pos) (ts : List Token) : Except ParseError (Parsed Expr ts) :=
  match ts with
  | [] => .error (expected .expression last [])
  | ⟨.leftParen, p⟩ :: rest =>
    match readExpr p rest with
    | .error e => .error e
    | .ok e => (e.within (Nat.le_succ _)).close .rightParen
  | ⟨.word name, p⟩ :: rest =>
    match @extendPath (⟨.word name, p⟩ :: rest) ⟨⟨name, []⟩, p, rest, Nat.lt_succ_self _⟩ with
    | .error e => .error e
    | .ok path => .ok (path.map .path)
  | t :: rest =>
    match literal? t.symbol with
    | some v => .ok ⟨.literal v, t.pos, rest, Nat.lt_succ_self _⟩
    | none => .error (expected .expression last (t :: rest))
termination_by (ts.length, 0)

end

/-- A block that is still open, with the position of its first keyword. The branches of a condition
are those before the body that is being read. -/
inductive Frame where
  | loopBody (pos : Pos) (target : Target) (iterable : Expr)
  | loopEmpty (pos : Pos) (target : Target) (iterable : Expr) (body : List Node)
  | condBody (pos : Pos) (branches : List (Expr × List Node)) (condition : Expr)
  | condElse (pos : Pos) (branches : List (Expr × List Node))
  deriving Repr

def Frame.pos : Frame → Pos
  | loopBody pos .. | loopEmpty pos .. | condBody pos .. | condElse pos .. => pos

def Frame.block : Frame → Block
  | loopBody .. | loopEmpty .. => .loop
  | condBody .. | condElse .. => .cond

/-- The open blocks, the innermost first, each with the nodes before it in reverse. -/
abbrev Stack := List (Frame × List Node)

def readNames (last : Pos) (ts : List Token) : Except ParseError (Parsed (List String) ts) :=
  match ts with
  | ⟨.word name, _⟩ :: ⟨.comma, q⟩ :: rest =>
    match readNames q rest with
    | .error e => .error e
    | .ok names =>
      .ok ((names.map (name :: ·)).within (by simp only [List.length_cons]; omega))
  | ⟨.word name, p⟩ :: rest => .ok ⟨[name], p, rest, by simp⟩
  | ts => .error (expected .loopVariable last ts)

def Target.ofNames : List String → Target
  | [name] => .single name
  | names => .unpack names

def readCondition (last : Pos) (ts : List Token) : Except ParseError (Parsed Expr ts) :=
  match readExpr last ts with
  | .error e => .error e
  | .ok e => e.close (.closing .block)

def readLoop (last : Pos) (ts : List Token) : Except ParseError (Parsed (Target × Expr) ts) :=
  match readNames last ts with
  | .error e => .error e
  | .ok names =>
    match names.close (.keyword .in_) with
    | .error e => .error e
    | .ok names =>
      match readCondition names.last names.rest with
      | .error e => .error e
      | .ok e =>
        .ok ((e.map (Target.ofNames names.value, ·)).within (Nat.le_of_lt names.shorter))

def readOutput (last : Pos) (ts : List Token) : Except ParseError (Parsed Expr ts) :=
  match readExpr last ts with
  | .error e => .error e
  | .ok e =>
    match h : e.rest with
    | ⟨.thousands, p⟩ :: rest =>
      have : rest.length < ts.length := by
        have := e.shorter; rw [h, List.length_cons] at this; omega
      Parsed.close (.closing .output) ⟨.filter e.value ⟨Filter.thousands.name, []⟩, p, rest, this⟩
    | _ => e.close (.closing .output)

abbrev Progress := Stack × List Node

def endTag (progress : Progress) (last : Pos) (ts : List Token) :
    Except ParseError (Parsed Progress ts) :=
  match expect (.closing .block) last ts with
  | .error e => .error e
  | .ok c => .ok (c.map fun _ => progress)

def refuse (stack : Stack) : Keyword → Cause
  | .elif => if stack.isEmpty then .strayBranch .elif else .misplacedBranch .elif
  | .else_ => if stack.isEmpty then .strayBranch .else_ else .misplacedBranch .else_
  | .endfor => .strayCloser .loop
  | .endif => .strayCloser .cond
  | k => .unknownBlock (.keyword k)

def readBlock (stack : Stack) (done : List Node) (k : Keyword) (p : Pos) (ts : List Token) :
    Except ParseError (Parsed Progress ts) :=
  match k, stack with
  | .for_, _ =>
    match readLoop p ts with
    | .error e => .error e
    | .ok r =>
      .ok (r.map fun (target, iterable) => ((.loopBody p target iterable, done) :: stack, []))
  | .if_, _ =>
    match readCondition p ts with
    | .error e => .error e
    | .ok r => .ok (r.map fun condition => ((.condBody p [] condition, done) :: stack, []))
  | .else_, (.loopBody at_ target iterable, before) :: outer =>
    endTag ((.loopEmpty at_ target iterable done.reverse, before) :: outer, []) p ts
  | .endfor, (.loopBody _ target iterable, before) :: outer =>
    endTag (outer, .loop target iterable done.reverse none :: before) p ts
  | .endfor, (.loopEmpty _ target iterable body, before) :: outer =>
    endTag (outer, .loop target iterable body (some done.reverse) :: before) p ts
  | .elif, (.condBody at_ branches condition, before) :: outer =>
    match readCondition p ts with
    | .error e => .error e
    | .ok r =>
      .ok (r.map fun next =>
        ((.condBody at_ (branches ++ [(condition, done.reverse)]) next, before) :: outer, []))
  | .else_, (.condBody at_ branches condition, before) :: outer =>
    endTag ((.condElse at_ (branches ++ [(condition, done.reverse)]), before) :: outer, []) p ts
  | .endif, (.condBody _ branches condition, before) :: outer =>
    endTag (outer, .cond (branches ++ [(condition, done.reverse)]) none :: before) p ts
  | .endif, (.condElse _ branches, before) :: outer =>
    endTag (outer, .cond branches (some done.reverse) :: before) p ts
  | k, stack => .error ⟨refuse stack k, p⟩

/-- Reads all remaining tokens. `done` holds the nodes of the innermost block in reverse. -/
def readNodes (stack : Stack) (done : List Node) (ts : List Token) :
    Except ParseError (List Node) :=
  match ts with
  | [] =>
    match stack with
    | [] => .ok done.reverse
    | (frame, _) :: _ => .error ⟨.missingCloser frame.block, frame.pos⟩
  | ⟨.text s, _⟩ :: rest => readNodes stack (.text s :: done) rest
  | ⟨.opening .output, p⟩ :: rest =>
    match readOutput p rest with
    | .error e => .error e
    | .ok r =>
      have := r.shorter
      readNodes stack (.output r.value :: done) r.rest
  | ⟨.opening .block, _⟩ :: ⟨.keyword k, p⟩ :: rest =>
    match readBlock stack done k p rest with
    | .error e => .error e
    | .ok r =>
      have := r.shorter
      readNodes r.value.1 r.value.2 r.rest
  | ⟨.opening .block, _⟩ :: ⟨s, p⟩ :: _ => .error ⟨.unknownBlock s, p⟩
  | ⟨.opening .block, p⟩ :: [] => .error (expected .blockKeyword p [])
  | ⟨s, p⟩ :: _ => .error ⟨.unexpected s, p⟩
termination_by ts.length

def parse (ts : List Token) : Except ParseError (List Node) := readNodes [] [] ts

end Template

structure Template where
  nodes : List Template.Node
  deriving Repr

namespace Template

def ofSource (o : Options) (source : String) : Except ParseError Template :=
  match tokenize o source with
  | .error e => .error e
  | .ok ts =>
    match parse ts with
    | .error e => .error e
    | .ok nodes => .ok ⟨nodes⟩

end Template

end Stencil
