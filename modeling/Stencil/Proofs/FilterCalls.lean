import Stencil.Proofs.Concatenation
import Stencil.Proofs.PrintRoundTrip

/-! Calls of filters. What parses calls only filters that there are, with as many arguments as they
take, so no rendering meets a call that is refused. Evaluation checks every call once more, so a
filter never looks for an argument that it was not given, whatever the expression. -/
namespace Stencil

def Value.isScalar : Value → Bool
  | .seq _ | .map _ => false
  | _ => true

end Stencil

namespace Stencil.Template

/-- There is a filter for the call that takes its arguments, and these are scalars. -/
def Call.Fits (c : Call) : Prop := FilterTakes c.name c.args.length ∧ ∀ v ∈ c.args, v.isScalar

def Expr.Fits : Expr → Prop
  | .literal _ => True
  | .path _ => True
  | .filter target call => target.Fits ∧ call.Fits
  | .compare _ lhs rhs => lhs.Fits ∧ rhs.Fits
  | .contains needle haystack _ => needle.Fits ∧ haystack.Fits
  | .not e => e.Fits
  | .and lhs rhs => lhs.Fits ∧ rhs.Fits
  | .or lhs rhs => lhs.Fits ∧ rhs.Fits

def Target.Fits : Target → Prop
  | .single _ => True
  | .unpack names => 2 ≤ names.length

mutual

def NodesFit : List Node → Prop
  | [] => True
  | n :: ns => NodeFits n ∧ NodesFit ns

def NodeFits : Node → Prop
  | .text _ => True
  | .output e => e.Fits
  | .loop target iterable body empty =>
    target.Fits ∧ iterable.Fits ∧ NodesFit body ∧ OptionalFits empty
  | .cond branches otherwise => branches ≠ [] ∧ BranchesFit branches ∧ OptionalFits otherwise

def BranchesFit : List (Expr × List Node) → Prop
  | [] => True
  | (condition, body) :: branches => condition.Fits ∧ NodesFit body ∧ BranchesFit branches

def OptionalFits : Option (List Node) → Prop
  | none => True
  | some nodes => NodesFit nodes

end

theorem BranchesFit.append {branches : List (Expr × List Node)} {condition : Expr}
    {body : List Node} (h : BranchesFit branches) (hc : condition.Fits) (hb : NodesFit body) :
    BranchesFit (branches ++ [(condition, body)]) := by
  induction branches with
  | nil => exact ⟨hc, hb, trivial⟩
  | cons branch branches ih => exact ⟨h.1, h.2.1, ih h.2.2⟩

theorem IsLiteral.scalar {l : Symbol} {v : Value} (h : IsLiteral l v) : v.isScalar := by
  cases h <;> rfl

theorem Literals.scalar {s : List Symbol} {vs : List Value} (h : Literals s vs) :
    ∀ v ∈ vs, v.isScalar := by
  induction h with
  | one hl => simpa using hl.scalar
  | more hl _ ih => exact List.forall_mem_cons.2 ⟨hl.scalar, ih⟩

theorem CallPhrase.fits {s : List Symbol} {c : Call} (h : CallPhrase s c) : c.Fits := by
  cases h with
  | bare hf => exact ⟨hf, by simp⟩
  | empty hf => exact ⟨hf, by simp⟩
  | args hl hf => exact ⟨hf, hl.scalar⟩

theorem Phrase.fits {k : Level} {s : List Symbol} {e : Expr} (h : Phrase k s e) : e.Fits := by
  induction h with
  | conjunction _ ih => exact ih
  | or _ _ ihl ihr => exact ⟨ihl, ihr⟩
  | negation _ ih => exact ih
  | and _ _ ihl ihr => exact ⟨ihl, ihr⟩
  | comparison _ ih => exact ih
  | not _ ih => exact ih
  | filtered _ ih => exact ih
  | compare _ _ _ ihl ihr => exact ⟨ihl, ihr⟩
  | contains _ _ ihl ihr => exact ⟨ihl, ihr⟩
  | lacks _ _ ihl ihr => exact ⟨ihl, ihr⟩
  | primary _ ih => exact ih
  | filter _ hc ih => exact ⟨ih, hc.fits⟩
  | parens _ ih => exact ih
  | literal _ => trivial
  | path _ _ => trivial

theorem TargetPhrase.fits {s : List Symbol} {target : Target} (h : TargetPhrase s target) :
    target.Fits := by
  cases h with
  | single name => trivial
  | unpack name hn => cases hn <;> simp [Target.Fits]

/-- The suffix of an output for thousands calls a filter without arguments. -/
theorem thousands_fits : (⟨"thousands", []⟩ : Call).Fits :=
  ⟨⟨.thousands, rfl, by decide, by decide⟩, by simp⟩

mutual

theorem NodesPhrase.fit : ∀ {s ns}, NodesPhrase s ns → NodesFit ns
  | _, _, .nil => trivial
  | _, _, .cons hn hns => ⟨hn.fits, hns.fit⟩

theorem NodePhrase.fits : ∀ {s n}, NodePhrase s n → NodeFits n
  | _, _, .text _ => trivial
  | _, _, .output he => he.fits
  | _, _, .thousands he => ⟨he.fits, thousands_fits⟩
  | _, _, .loop ht he hb => ⟨ht.fits, he.fits, hb.fit, trivial⟩
  | _, _, .loopElse ht he hb hv => ⟨ht.fits, he.fits, hb.fit, hv.fit⟩
  | _, _, .cond hb => ⟨hb.fit.1, hb.fit.2, trivial⟩
  | _, _, .condElse hb ho => ⟨hb.fit.1, hb.fit.2, ho.fit⟩

theorem BranchesPhrase.fit : ∀ {s branches}, BranchesPhrase s branches →
    branches ≠ [] ∧ BranchesFit branches
  | _, _, .first he hb => ⟨by simp, he.fits, hb.fit, trivial⟩
  | _, _, .elif hbs he hb => ⟨by simp, hbs.fit.2.append he.fits hb.fit⟩

end

end Stencil.Template

namespace Stencil.Render

open Template (Expr Target Call Node Path Segment FilterTakes NodesFit NodeFits BranchesFit
  OptionalFits)

variable {α β : Type}

def Operation.isRefusal : Operation → Bool
  | .unknownFilter _ => true
  | .filterCall .. => true
  | _ => false

def Accepted (x : Except RenderError α) : Prop :=
  ∀ operation operand, x = .error (.typeError operation operand) → operation.isRefusal = false

theorem Accepted.ok (a : α) : Accepted (.ok a : Except RenderError α) := by
  intro _ _ h
  cases h

theorem Accepted.undefined (path : Path) :
    Accepted (.error (.undefined path) : Except RenderError α) := by
  intro _ _ h
  cases h

theorem Accepted.typeError {operation : Operation} (operand : Operand)
    (h : operation.isRefusal = false) :
    Accepted (.error (.typeError operation operand) : Except RenderError α) := by
  intro _ _ he
  cases he
  exact h

theorem Accepted.error {e : RenderError} (h : Accepted (.error e : Except RenderError α)) :
    Accepted (.error e : Except RenderError β) := by
  intro operation operand he
  cases he
  exact h operation operand rfl

theorem Accepted.bind {x : Except RenderError α} {f : α → Except RenderError β} (h : Accepted x)
    (hf : ∀ a, Accepted (f a)) : Accepted (x >>= f) := by
  cases x with
  | error e => exact h.error
  | ok a => exact hf a

theorem Accepted.map {x : Except RenderError α} (h : Accepted x) (f : α → β) :
    Accepted (x.map f) := by
  cases x with
  | error e => exact h.error
  | ok a => exact .ok (f a)

theorem Accepted.mapM {f : α → Except RenderError β} {l : List α} (h : ∀ a, Accepted (f a)) :
    Accepted (l.mapM f) := by
  induction l with
  | nil => exact .ok []
  | cons a l ih =>
    rw [List.mapM_cons]
    exact (h a).bind fun b => ih.bind fun bs => .ok (b :: bs)

theorem expectString_accepted {operation : Operation} (h : operation.isRefusal = false)
    (v : Value) : Accepted (expectString operation v) := by
  cases v with
  | string s => exact .ok s
  | _ => exact .typeError _ h

theorem expectItems_accepted {operation : Operation} (h : operation.isRefusal = false)
    (v : Value) : Accepted (expectItems operation v) := by
  cases v with
  | seq items => exact .ok items
  | _ => exact .typeError _ h

theorem expectStrings_accepted {operation : Operation} (h : operation.isRefusal = false)
    (vs : List Value) : Accepted (expectStrings operation vs) := by
  induction vs with
  | nil => exact .ok []
  | cons v vs ih =>
    exact (expectString_accepted h v).bind fun s => ih.bind fun ss => .ok (s :: ss)

theorem onText_accepted (f : Filter) (change : List Char → List Char) (v : Value) :
    Accepted (onText f change v) :=
  (expectString_accepted rfl v).bind fun _ => .ok _

theorem join_accepted (v : Value) (separator : Option Value) : Accepted (join v separator) := by
  have hrest : ∀ sep : String, Accepted (do
      let items ← expectItems (.filter .join) v
      let strings ← expectStrings (.filter .join) items
      pure (Value.string (sep.intercalate strings))) := fun sep =>
    (expectItems_accepted rfl v).bind fun items =>
      (expectStrings_accepted rfl items).bind fun strings => .ok _
  cases separator with
  | none => exact hrest ""
  | some s => exact (expectString_accepted rfl s).bind hrest

theorem replace_accepted (v pattern replacement : Value) :
    Accepted (replace v pattern replacement) :=
  (expectString_accepted rfl v).bind fun _ =>
    (expectString_accepted rfl pattern).bind fun _ =>
      (expectString_accepted rfl replacement).bind fun _ => .ok _

theorem length_accepted (v : Value) : Accepted (length v) := by
  cases v with
  | string s => exact .ok _
  | seq items => exact .ok _
  | map entries => exact .ok _
  | _ => exact .typeError _ rfl

theorem thousands_accepted (v : Value) : Accepted (thousands v) := by
  rw [thousands]
  split
  · exact .ok _
  · exact .typeError _ rfl

/-- A filter refuses no number of arguments within its arity. -/
theorem applyFilter_accepted {f : Filter} {args : List Value} (h : f.arity.admits args.length)
    (v : Value) : Accepted (applyFilter f v args) := by
  cases f with
  | capitalize | lower | title | trim | upper => exact onText_accepted _ _ v
  | first | last | unique => exact (expectItems_accepted rfl v).map _
  | join => exact join_accepted v args.head?
  | length => exact length_accepted v
  | thousands => exact thousands_accepted v
  | replace =>
    match args, h with
    | [pattern, replacement], _ => exact replace_accepted v pattern replacement

theorem applyCall_accepted {c : Call} (h : c.Fits) (v : Value) : Accepted (applyCall c v) := by
  obtain ⟨⟨f, hn, hl, hm⟩, -⟩ := h
  have ha : f.arity.admits c.args.length := by simp [Arity.admits, hl, hm]
  rw [applyCall, ← hn, Template.ofName?_name]
  simp only [ha, if_true]
  exact applyFilter_accepted ha v

theorem step_accepted (v : Value) (s : Segment) : Accepted (step v s) := by
  cases s with
  | method m =>
    cases v with
    | map entries => exact .ok _
    | _ => exact .typeError _ rfl
  | _ => exact .ok _

theorem follow_accepted (reached : Path) (v : Value) (segments : List Segment) :
    Accepted (follow reached v segments) := by
  induction segments generalizing reached v with
  | nil => exact .ok v
  | cons s rest ih =>
    have hs := step_accepted v s
    rw [follow]
    cases hx : step v s with
    | error e =>
      rw [hx] at hs
      exact hs.error
    | ok next =>
      cases next with
      | none => exact .undefined _
      | some next => exact ih _ next

theorem resolve_accepted (env : Env) (path : Path) : Accepted (resolve env path) := by
  rw [resolve]
  cases env path.root with
  | none => exact .undefined _
  | some v => exact follow_accepted _ v _

theorem compare_accepted (op : Comparison) (a b : Value) : Accepted (compare op a b) := by
  rw [compare]
  split
  · exact .ok _
  · exact .typeError _ rfl

theorem contains_accepted (needle haystack : Value) : Accepted (contains needle haystack) := by
  rw [contains]
  split
  · exact .ok _
  · exact .typeError _ rfl

theorem eval_accepted (env : Env) {e : Expr} (h : e.Fits) : Accepted (eval env e) := by
  induction e with
  | literal v => exact .ok v
  | path p => exact resolve_accepted env p
  | filter target call ih => exact (ih h.1).bind (applyCall_accepted h.2)
  | compare op lhs rhs ihl ihr =>
    exact (ihl h.1).bind fun a => (ihr h.2).bind fun b => (compare_accepted op a b).bind fun _ =>
      .ok _
  | contains needle haystack negated ihl ihr =>
    exact (ihl h.1).bind fun a => (ihr h.2).bind fun b => (contains_accepted a b).bind fun _ =>
      .ok _
  | not e ih => exact (ih h).bind fun _ => .ok _
  | and lhs rhs ihl ihr =>
    refine (ihl h.1).bind fun a => ?_
    split
    · exact (ihr h.2).bind fun _ => .ok _
    · exact .ok _
  | or lhs rhs ihl ihr =>
    refine (ihl h.1).bind fun a => ?_
    split
    · exact .ok _
    · exact (ihr h.2).bind fun _ => .ok _

theorem outputText_accepted (v : Value) : Accepted (outputText v) := by
  rw [outputText]
  split
  · exact .ok _
  · exact .typeError _ rfl

theorem elements_accepted (v : Value) : Accepted (elements v) := by
  cases v with
  | seq items => exact .ok _
  | map entries => exact .ok _
  | _ => exact .typeError _ rfl

theorem bindElement_accepted (env : Env) (target : Target) (v : Value) :
    Accepted (env.bindElement target v) := by
  cases target with
  | single name => exact .ok _
  | unpack names =>
    cases v with
    | seq parts =>
      rw [Env.bindElement]
      split
      · exact .ok _
      · exact .typeError _ rfl
    | _ => exact .typeError _ rfl

mutual

theorem meaning_accepted (env : Env) : ∀ {ns}, NodesFit ns → Accepted (meaning env ns)
  | [], _ => .ok ""
  | n :: ns, h => by
    rw [meaning]
    exact (nodeMeaning_accepted env h.1).bind fun _ => (meaning_accepted env h.2).bind fun _ =>
      .ok _

theorem nodeMeaning_accepted (env : Env) : ∀ {n}, NodeFits n → Accepted (nodeMeaning env n)
  | .text s, _ => .ok s
  | .output e, h => by
    rw [nodeMeaning]
    exact (eval_accepted env h).bind outputText_accepted
  | .cond branches otherwise, h => by
    rw [nodeMeaning]
    exact branchMeaning_accepted env (optionalMeaning_accepted env h.2.2) h.2.1
  | .loop target iterable body empty, h => by
    rw [nodeMeaning]
    refine (eval_accepted env h.2.1).bind fun v => (elements_accepted v).bind fun items => ?_
    split
    · exact optionalMeaning_accepted env h.2.2.2
    · refine Accepted.bind (.mapM fun (element, i) => ?_) fun texts => .ok _
      exact (bindElement_accepted env target element).bind fun inner =>
        meaning_accepted _ h.2.2.1

theorem branchMeaning_accepted (env : Env) {otherwise : Except RenderError String}
    (ho : Accepted otherwise) :
    ∀ {branches}, BranchesFit branches → Accepted (branchMeaning env otherwise branches)
  | [], _ => ho
  | (condition, body) :: branches, h => by
    rw [branchMeaning]
    refine (eval_accepted env h.1).bind fun v => ?_
    split
    · exact meaning_accepted env h.2.1
    · exact branchMeaning_accepted env ho h.2.2

theorem optionalMeaning_accepted (env : Env) :
    ∀ {nodes}, OptionalFits nodes → Accepted (optionalMeaning env nodes)
  | none, _ => .ok ""
  | some nodes, h => by
    rw [optionalMeaning]
    exact meaning_accepted env h

end

theorem renderNodes_accepted (scope : Scope) (out : String) {ns : List Node} (h : NodesFit ns) :
    Accepted (renderNodes scope out ns) := by
  rw [renderNodes_writes]
  exact (meaning_accepted scope.lookup h).map _

/-- Implementations of the filters, which may look for an argument that they were not given: then
there is no result at all. -/
abbrev Filters := Filter → Value → List Value → Option (Except RenderError Value)

def andThen (x : Option (Except RenderError α)) (f : α → Option (Except RenderError β)) :
    Option (Except RenderError β) :=
  x.bind fun
    | .ok a => f a
    | .error e => some (.error e)

theorem andThen_some (x : Except RenderError α) (f : α → Except RenderError β) :
    andThen (some x) (fun a => some (f a)) = some (x >>= f) := by
  cases x <;> rfl

/-- Evaluation with other implementations of the filters, each call checked before it is made. -/
def evalWith (filters : Filters) (env : Env) : Expr → Option (Except RenderError Value)
  | .literal v => some (.ok v)
  | .path p => some (resolve env p)
  | .filter target call =>
    andThen (evalWith filters env target) fun v =>
      match Filter.ofName? call.name with
      | none => some (.error (.typeError (.unknownFilter call.name) (.value v.kind)))
      | some f =>
        if f.arity.admits call.args.length then filters f v call.args
        else some (.error (.typeError (.filterCall call.name call.args.length) (.value v.kind)))
  | .compare op lhs rhs =>
    andThen (evalWith filters env lhs) fun a =>
      andThen (evalWith filters env rhs) fun b => some ((compare op a b).map .bool)
  | .contains needle haystack negated =>
    andThen (evalWith filters env needle) fun a =>
      andThen (evalWith filters env haystack) fun b =>
        some ((contains a b).map fun r => .bool (r != negated))
  | .not e => andThen (evalWith filters env e) fun v => some (.ok (.bool !v.isTruthy))
  | .and lhs rhs =>
    andThen (evalWith filters env lhs) fun a =>
      if a.isTruthy then andThen (evalWith filters env rhs) fun b => some (.ok (.bool b.isTruthy))
      else some (.ok (.bool false))
  | .or lhs rhs =>
    andThen (evalWith filters env lhs) fun a =>
      if a.isTruthy then some (.ok (.bool true))
      else andThen (evalWith filters env rhs) fun b => some (.ok (.bool b.isTruthy))

/-- Implementations that do what the filters do on as many arguments as each takes. -/
def Filters.Faithful (filters : Filters) : Prop :=
  ∀ f v args, f.arity.admits args.length → filters f v args = some (applyFilter f v args)

/-- Evaluation makes no call outside the arity of a filter, as these change nothing. -/
theorem evalWith_faithful {filters : Filters} (h : filters.Faithful) (env : Env) (e : Expr) :
    evalWith filters env e = some (eval env e) := by
  induction e with
  | literal v => rfl
  | path p => rfl
  | filter target call ih =>
    -- the check before a call leaves only calls on which the implementations agree
    rw [evalWith, ih, eval, ← andThen_some]
    congr 1
    funext v
    rw [applyCall]
    cases Filter.ofName? call.name with
    | none => rfl
    | some f =>
      by_cases ha : f.arity.admits call.args.length
      · simp [ha, h f v call.args ha]
      · simp [ha]
  | compare op lhs rhs ihl ihr =>
    rw [evalWith, ihl, ihr, eval]
    cases eval env lhs <;> cases eval env rhs <;> rfl
  | contains needle haystack negated ihl ihr =>
    rw [evalWith, ihl, ihr, eval]
    cases eval env needle <;> cases eval env haystack <;> rfl
  | not e ih =>
    rw [evalWith, ih, eval]
    cases eval env e <;> rfl
  | and lhs rhs ihl ihr =>
    rw [evalWith, ihl, ihr, eval, ← andThen_some]
    congr 1
    funext a
    by_cases ha : a.isTruthy
    · rw [if_pos ha, if_pos ha]
      cases eval env rhs <;> rfl
    · rw [if_neg ha, if_neg ha]
      rfl
  | or lhs rhs ihl ihr =>
    rw [evalWith, ihl, ihr, eval, ← andThen_some]
    congr 1
    funext a
    by_cases ha : a.isTruthy
    · rw [if_pos ha, if_pos ha]
      rfl
    · rw [if_neg ha, if_neg ha]
      cases eval env rhs <;> rfl

def byNumber : Filters
  | .replace, v, args =>
    andThen (some (expectString (.filter .replace) v)) fun s =>
      andThen (args[0]?.map (expectString .replacePattern)) fun p =>
        andThen (args[1]?.map (expectString .replaceReplacement)) fun r =>
          some (.ok (.string (String.ofList (Filter.replaced p.toList r.toList s.toList))))
  | f, v, args => some (applyFilter f v args)

theorem byNumber_faithful : byNumber.Faithful := by
  intro f v args h
  cases f with
  | replace =>
    match args, h with
    | [pattern, replacement], _ =>
      simp only [byNumber, List.getElem?_cons_zero, List.getElem?_cons_succ, Option.map_some]
      change _ = some (replace v pattern replacement)
      simp only [replace, ← andThen_some]
      rfl
  | _ => rfl

end Stencil.Render

namespace Stencil.Template

open Render (Accepted Filters evalWith byNumber)

/-- What parses calls filters only as they can be called, so its rendering meets no refusal. No
evaluation calls a filter in any other way, and no filter misses an argument. -/
theorem filter_calls_checked :
    (∀ ts ns, parse ts = .ok ns → NodesFit ns) ∧
    (∀ o source t params, ofSource o source = .ok t → Accepted (t.render params)) ∧
    (∀ filters : Filters, filters.Faithful →
      ∀ env e, evalWith filters env e = some (Render.eval env e)) ∧
    ∀ env e, evalWith byNumber env e = some (Render.eval env e) := by
  have hfit : ∀ ts ns, parse ts = .ok ns → NodesFit ns := fun ts ns h => (parse_sound h).fit
  refine ⟨hfit, ?_, fun filters h => Render.evalWith_faithful h,
    Render.evalWith_faithful Render.byNumber_faithful⟩
  intro o source t params h
  obtain ⟨ts, -, hp⟩ := ofSource_eq_ok h
  exact Render.renderNodes_accepted _ "" (hfit ts t.nodes hp)

/-- A call with two arguments that fails for another reason, and one by hand that lacks one. -/
theorem filter_calls_checked_replace :
    let parts : List Part := [.tag .output [.word "x", .pipe, .word "replace", .leftParen,
      .string "a", .comma, .string "b", .rightParen]]
    let nodes : List Node :=
      [.output (.filter (.path ⟨"x", []⟩) ⟨"replace", [.string "a", .string "b"]⟩)]
    print 1 parts = "\x7b\x7b x | replace ( \"a\" , \"b\" ) \x7d\x7d" ∧
    ofSource ⟨false, false⟩ (print 1 parts) = .ok ⟨nodes⟩ ∧
    NodesFit nodes ∧
    Template.render ⟨nodes⟩ [("x", .int 3)] =
      .error (.typeError (.filter .replace) (.value .int)) ∧
    Accepted (Template.render ⟨nodes⟩ [("x", .int 3)]) ∧
    evalWith byNumber (fun _ => none)
        (.filter (.literal (.string "a")) ⟨"replace", [.string "a"]⟩) =
      some (.error (.typeError (.filterCall "replace" 1) (.value .string))) := by
  intro parts nodes
  have hw : Writable parts := by
    refine .tag _ ?_ .nil
    simp only [List.forall_mem_cons, Symbol.IsInner]
    exact ⟨by decide, trivial, by decide, trivial, trivial, trivial, trivial, trivial, by simp⟩
  obtain ⟨ps, hps, hsettle⟩ := pieces_written hw 1 (map_char_locate Pos.start _)
  let ts := settle ⟨false, false⟩ false false ps
  have ht : tokenize ⟨false, false⟩ (print 1 parts) = .ok ts := by
    rw [tokenize, glyphs, hps]
  have hcall : CallPhrase [.word "replace", .leftParen, .string "a", .comma, .string "b",
      .rightParen] ⟨"replace", [.string "a", .string "b"]⟩ :=
    .args (.more (.string "a") (.one (.string "b"))) ⟨.replace, rfl, by decide, by decide⟩
  have hn : NodesPhrase (symbols ts) nodes := by
    have hs : symbols ts = parts.flatMap Part.symbols := hsettle false false
    rw [hs]
    exact .cons (.output (.conjunction (.negation (.comparison (.filtered
      (.filter (.primary (.path "x" .done)) hcall)))))) .nil
  have hp : parse ts = .ok nodes := parse_complete hn
  have hs : ofSource ⟨false, false⟩ (print 1 parts) = .ok ⟨nodes⟩ := by
    rw [ofSource, ht]
    simp only [hp]
  exact ⟨by decide, hs, filter_calls_checked.1 ts nodes hp, rfl,
    filter_calls_checked.2.1 _ _ _ [("x", .int 3)] hs,
    filter_calls_checked.2.2.1 byNumber Render.byNumber_faithful (fun _ => none)
      (.filter (.literal (.string "a")) ⟨"replace", [.string "a"]⟩)⟩

end Stencil.Template
