import Stencil.Template.Parse

/-! The grammar of templates over symbols, each phrase with its tree. A phrase is exactly the
symbols it is made of; where they stand and what follows them is not the grammar's business. -/
namespace Stencil.Template

def symbols (ts : List Token) : List Symbol := ts.map Token.symbol

inductive IsLiteral : Symbol → Value → Prop where
  | string (s) : IsLiteral (.string s) (.string s)
  | int (n) : IsLiteral (.int n) (.int n)
  | float (x) : IsLiteral (.float x) (.float x)
  | true_ : IsLiteral (.keyword .true_) (.bool true)
  | false_ : IsLiteral (.keyword .false_) (.bool false)
  | none_ : IsLiteral (.keyword .none_) .null

inductive Literals : List Symbol → List Value → Prop where
  | one {l v} : IsLiteral l v → Literals [l] [v]
  | more {l v s vs} : IsLiteral l v → Literals s vs → Literals (l :: .comma :: s) (v :: vs)

def FilterTakes (name : String) (count : Nat) : Prop :=
  ∃ f : Filter, f.name = name ∧ f.arity.least ≤ count ∧ count ≤ f.arity.most

inductive CallPhrase : List Symbol → Call → Prop where
  | bare {name} : FilterTakes name 0 → CallPhrase [.word name] ⟨name, []⟩
  | empty {name} : FilterTakes name 0 →
      CallPhrase [.word name, .leftParen, .rightParen] ⟨name, []⟩
  | args {name s vs} : Literals s vs → FilterTakes name vs.length →
      CallPhrase (.word name :: .leftParen :: s ++ [.rightParen]) ⟨name, vs⟩

inductive Steps : List Symbol → List Segment → Prop where
  | done : Steps [] []
  | name {s l} (name) : Steps s l → Steps (.dot :: .word name :: s) (.key name :: l)
  | method {s l} (m : Method) : Steps s l →
      Steps (.dot :: .word m.name :: .leftParen :: .rightParen :: s) (.method m :: l)
  | keyword {s l} (k) : Steps s l → Steps (.dot :: .keyword k :: s) (.key k.spelling :: l)
  | number {s l} (n) : Steps s l → Steps (.dot :: .int n :: s) (.index n :: l)
  | index {s l} (n) : Steps s l →
      Steps (.leftBracket :: .int n :: .rightBracket :: s) (.index n :: l)
  | key {s l} (name) : Steps s l →
      Steps (.leftBracket :: .string name :: .rightBracket :: s) (.key name :: l)

inductive Level where
  | disjunction
  | conjunction
  | negation
  | comparison
  | filtered
  | primary
  deriving DecidableEq, Repr

/-- Disjunctions, conjunctions and filters group to the left, and a comparison does not take a
comparison as its operand. -/
inductive Phrase : Level → List Symbol → Expr → Prop where
  | conjunction {s e} : Phrase .conjunction s e → Phrase .disjunction s e
  | or {s e t f} : Phrase .disjunction s e → Phrase .conjunction t f →
      Phrase .disjunction (s ++ .keyword .or :: t) (.or e f)
  | negation {s e} : Phrase .negation s e → Phrase .conjunction s e
  | and {s e t f} : Phrase .conjunction s e → Phrase .negation t f →
      Phrase .conjunction (s ++ .keyword .and :: t) (.and e f)
  | comparison {s e} : Phrase .comparison s e → Phrase .negation s e
  | not {s e} : Phrase .negation s e → Phrase .negation (.keyword .not :: s) (.not e)
  | filtered {s e} : Phrase .filtered s e → Phrase .comparison s e
  | compare {s e t f} (op) : Phrase .filtered s e → Phrase .filtered t f →
      Phrase .comparison (s ++ .compare op :: t) (.compare op e f)
  | contains {s e t f} : Phrase .filtered s e → Phrase .filtered t f →
      Phrase .comparison (s ++ .keyword .in_ :: t) (.contains e f false)
  | lacks {s e t f} : Phrase .filtered s e → Phrase .filtered t f →
      Phrase .comparison (s ++ .keyword .not :: .keyword .in_ :: t) (.contains e f true)
  | primary {s e} : Phrase .primary s e → Phrase .filtered s e
  | filter {s e t c} : Phrase .filtered s e → CallPhrase t c →
      Phrase .filtered (s ++ .pipe :: t) (.filter e c)
  | parens {s e} : Phrase .disjunction s e →
      Phrase .primary (.leftParen :: s ++ [.rightParen]) e
  | literal {l v} : IsLiteral l v → Phrase .primary [l] (.literal v)
  | path {s l} (root) : Steps s l → Phrase .primary (.word root :: s) (.path ⟨root, l⟩)

inductive Names : List Symbol → List String → Prop where
  | one (name) : Names [.word name] [name]
  | more {s names} (name) : Names s names →
      Names (.word name :: .comma :: s) (name :: names)

/-- The names that a loop binds; only several are unpacked. -/
inductive TargetPhrase : List Symbol → Target → Prop where
  | single (name) : TargetPhrase [.word name] (.single name)
  | unpack {s names} (name) : Names s names →
      TargetPhrase (.word name :: .comma :: s) (.unpack (name :: names))

def blockTag (s : List Symbol) : List Symbol := .opening .block :: s ++ [.closing .block]

mutual

inductive NodesPhrase : List Symbol → List Node → Prop where
  | nil : NodesPhrase [] []
  | cons {s n t ns} : NodePhrase s n → NodesPhrase t ns → NodesPhrase (s ++ t) (n :: ns)

inductive NodePhrase : List Symbol → Node → Prop where
  | text (s) : NodePhrase [.text s] (.text s)
  | output {s e} : Phrase .disjunction s e →
      NodePhrase (.opening .output :: s ++ [.closing .output]) (.output e)
  | thousands {s e} : Phrase .disjunction s e →
      NodePhrase (.opening .output :: s ++ [.thousands, .closing .output])
        (.output (.filter e ⟨"thousands", []⟩))
  | loop {s target t e u body} : TargetPhrase s target → Phrase .disjunction t e →
      NodesPhrase u body →
      NodePhrase (blockTag (.keyword .for_ :: s ++ .keyword .in_ :: t) ++ u ++
        blockTag [.keyword .endfor]) (.loop target e body none)
  | loopElse {s target t e u body v empty} : TargetPhrase s target → Phrase .disjunction t e →
      NodesPhrase u body → NodesPhrase v empty →
      NodePhrase (blockTag (.keyword .for_ :: s ++ .keyword .in_ :: t) ++ u ++
        blockTag [.keyword .else_] ++ v ++ blockTag [.keyword .endfor])
        (.loop target e body (some empty))
  | cond {s branches} : BranchesPhrase s branches →
      NodePhrase (s ++ blockTag [.keyword .endif]) (.cond branches none)
  | condElse {s branches t otherwise} : BranchesPhrase s branches → NodesPhrase t otherwise →
      NodePhrase (s ++ blockTag [.keyword .else_] ++ t ++ blockTag [.keyword .endif])
        (.cond branches (some otherwise))

inductive BranchesPhrase : List Symbol → List (Expr × List Node) → Prop where
  | first {s e t body} : Phrase .disjunction s e → NodesPhrase t body →
      BranchesPhrase (blockTag (.keyword .if_ :: s) ++ t) [(e, body)]
  | elif {s branches t e u body} : BranchesPhrase s branches → Phrase .disjunction t e →
      NodesPhrase u body →
      BranchesPhrase (s ++ blockTag (.keyword .elif :: t) ++ u) (branches ++ [(e, body)])

end

end Stencil.Template
