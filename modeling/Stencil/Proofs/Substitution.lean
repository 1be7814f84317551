import Stencil.Proofs.FreeNames

/-! Other expressions in place of paths. If a path and what stands in its place have related results
wherever they are evaluated, so have the nodes before and after the substitution, whatever relation
of results it is that goes from step to step. -/
namespace Stencil.Template

def Target.names : Target → List String
  | .single name => [name]
  | .unpack names => names

def Expr.substitute (f : Path → Expr) : Expr → Expr
  | .literal v => .literal v
  | .path p => f p
  | .filter target call => .filter (target.substitute f) call
  | .compare op lhs rhs => .compare op (lhs.substitute f) (rhs.substitute f)
  | .contains needle haystack negated =>
    .contains (needle.substitute f) (haystack.substitute f) negated
  | .not e => .not (e.substitute f)
  | .and lhs rhs => .and (lhs.substitute f) (rhs.substitute f)
  | .or lhs rhs => .or (lhs.substitute f) (rhs.substitute f)

mutual

/-- The nodes with `f` in place of their paths. The body of a loop stays as it is unless its target
is one that `enters`. -/
def substitute (f : Path → Expr) (enters : Target → Bool) : List Node → List Node
  | [] => []
  | n :: ns => nodeSubstitute f enters n :: substitute f enters ns

def nodeSubstitute (f : Path → Expr) (enters : Target → Bool) : Node → Node
  | .text s => .text s
  | .output e => .output (e.substitute f)
  | .loop target iterable body empty =>
    .loop target (iterable.substitute f)
      (if enters target then substitute f enters body else body)
      (optionalSubstitute f enters empty)
  | .cond branches otherwise =>
    .cond (branchSubstitute f enters branches) (optionalSubstitute f enters otherwise)

def branchSubstitute (f : Path → Expr) (enters : Target → Bool) :
    List (Expr × List Node) → List (Expr × List Node)
  | [] => []
  | (condition, body) :: branches =>
    (condition.substitute f, substitute f enters body) :: branchSubstitute f enters branches

def optionalSubstitute (f : Path → Expr) (enters : Target → Bool) :
    Option (List Node) → Option (List Node)
  | none => none
  | some nodes => some (substitute f enters nodes)

end

mutual

def mentioned : List Node → List String
  | [] => []
  | n :: ns => nodeMentioned n ++ mentioned ns

def nodeMentioned : Node → List String
  | .text _ => []
  | .output e => e.roots
  | .loop target iterable body empty =>
    iterable.roots ++ target.names ++ mentioned body ++ optionalMentioned empty
  | .cond branches otherwise => branchMentioned branches ++ optionalMentioned otherwise

def branchMentioned : List (Expr × List Node) → List String
  | [] => []
  | (condition, body) :: branches =>
    condition.roots ++ mentioned body ++ branchMentioned branches

def optionalMentioned : Option (List Node) → List String
  | none => []
  | some nodes => mentioned nodes

end

end Stencil.Template

namespace Stencil.Render

open Template (Node Expr Path Target substitute nodeSubstitute branchSubstitute optionalSubstitute
  mentioned nodeMentioned branchMentioned optionalMentioned)

variable {α β : Type}

/-- A relation of results that two runs have if they have it at each of their steps. -/
structure Stepwise (R : ∀ α : Type, Except RenderError α → Except RenderError α → Prop) :
    Prop where
  refl : ∀ {α : Type} (x : Except RenderError α), R α x x
  bind : ∀ {α β : Type} {x y : Except RenderError α} {f g : α → Except RenderError β},
    R α x y → (∀ a, x = .ok a → R β (f a) (g a)) → R β (x >>= f) (y >>= g)

theorem stepwise_eq : Stepwise fun _ x y => x = y where
  refl _ := rfl
  bind := by
    rintro α β x _ f g rfl h
    cases x with
    | error e => rfl
    | ok a => exact h a rfl

variable {R : ∀ α : Type, Except RenderError α → Except RenderError α → Prop}
  {f : Path → Expr} {enters : Target → Bool} {names : List String} {Related : Scope → Scope → Prop}

theorem eval_substitute (hR : Stepwise R) {env env' : Env} {e : Expr}
    (hp : ∀ p : Path, p.root ∈ e.roots → R Value (resolve env p) (eval env' (f p))) :
    R Value (eval env e) (eval env' (e.substitute f)) := by
  induction e with
  | literal v => exact hR.refl _
  | path p => exact hp p List.mem_cons_self
  | filter target call ih => exact hR.bind (ih hp) fun v _ => hR.refl _
  | compare op lhs rhs ihl ihr =>
    have hl := ihl fun p h => hp p (List.mem_append_left _ h)
    have hr := ihr fun p h => hp p (List.mem_append_right _ h)
    exact hR.bind hl fun a _ => hR.bind hr fun b _ => hR.refl _
  | contains needle haystack negated ihl ihr =>
    have hl := ihl fun p h => hp p (List.mem_append_left _ h)
    have hr := ihr fun p h => hp p (List.mem_append_right _ h)
    exact hR.bind hl fun a _ => hR.bind hr fun b _ => hR.refl _
  | not e ih => exact hR.bind (ih hp) fun v _ => hR.refl _
  | and lhs rhs ihl ihr =>
    have hl := ihl fun p h => hp p (List.mem_append_left _ h)
    have hr := ihr fun p h => hp p (List.mem_append_right _ h)
    refine hR.bind hl fun a _ => ?_
    split
    · exact hR.bind hr fun b _ => hR.refl _
    · exact hR.refl _
  | or lhs rhs ihl ihr =>
    have hl := ihl fun p h => hp p (List.mem_append_left _ h)
    have hr := ihr fun p h => hp p (List.mem_append_right _ h)
    refine hR.bind hl fun a _ => ?_
    split
    · exact hR.refl _
    · exact hR.bind hr fun b _ => hR.refl _

/-- Loops over the same items go the same way if their rounds do. -/
theorem renderRounds_stepwise (hR : Stepwise R) {s s' : Scope} {target target' : Target}
    {length : Nat} {body body' : Scope → String → Except RenderError String}
    (hb : ∀ item i out, R String
      (roundFrame target item i length >>= fun frame => body (s.push frame) out)
      (roundFrame target' item i length >>= fun frame => body' (s'.push frame) out))
    (items : List Value) (i : Nat) (out : String) :
    R String (renderRounds body s target length i items out)
      (renderRounds body' s' target' length i items out) := by
  induction items generalizing i out with
  | nil => exact hR.refl _
  | cons item items ih =>
    rw [renderRounds, renderRounds, ← bind_assoc, ← bind_assoc]
    exact hR.bind (hb item i out) fun out _ => ih (i + 1) out

/-- What a substitution must do to a pair of scopes, where `names` are all that occur: its
expressions go as the paths do, a frame that the substitution enters keeps the scopes related, and
a body that it leaves alone goes the same way in both. -/
structure Carries (R : ∀ α : Type, Except RenderError α → Except RenderError α → Prop)
    (f : Path → Expr) (enters : Target → Bool) (names : List String)
    (Related : Scope → Scope → Prop) : Prop where
  path : ∀ {s s' p}, Related s s' → p.root ∈ names →
    R Value (resolve s.lookup p) (eval s'.lookup (f p))
  enter : ∀ {s s' target item i length frame}, Related s s' → enters target = true →
    target.names ⊆ names → roundFrame target item i length = .ok frame →
    Related (s.push frame) (s'.push frame)
  leave : ∀ {s s' target item i length frame body}, Related s s' → enters target = false →
    mentioned body ⊆ names → roundFrame target item i length = .ok frame → ∀ out,
    R String (renderNodes (s.push frame) out body) (renderNodes (s'.push frame) out body)

theorem eval_carried (hR : Stepwise R) (hc : Carries R f enters names Related) {s s' : Scope}
    (h : Related s s') {e : Expr} (he : e.roots ⊆ names) :
    R Value (eval s.lookup e) (eval s'.lookup (e.substitute f)) :=
  eval_substitute hR fun _ hp => hc.path h (he hp)

mutual

/-- Rendering goes from step to step as it does before the substitution. -/
theorem renderNodes_substitute (hR : Stepwise R) (hc : Carries R f enters names Related)
    {s s' : Scope} (h : Related s s') (out : String) : (ns : List Node) → mentioned ns ⊆ names →
      R String (renderNodes s out ns) (renderNodes s' out (substitute f enters ns))
  | [], _ => hR.refl _
  | n :: ns, hs => by
    obtain ⟨hn, hs⟩ := List.append_subset.1 hs
    rw [renderNodes, substitute, renderNodes]
    exact hR.bind (renderNode_substitute hR hc h out n hn) fun out _ =>
      renderNodes_substitute hR hc h out ns hs

theorem renderNode_substitute (hR : Stepwise R) (hc : Carries R f enters names Related)
    {s s' : Scope} (h : Related s s') (out : String) : (n : Node) → nodeMentioned n ⊆ names →
      R String (renderNode s out n) (renderNode s' out (nodeSubstitute f enters n))
  | .text _, _ => hR.refl _
  | .output e, hs => by
    rw [renderNode, nodeSubstitute, renderNode]
    exact hR.bind (eval_carried hR hc h hs) fun v _ => hR.refl _
  | .cond branches otherwise, hs => by
    obtain ⟨hb, ho⟩ := List.append_subset.1 hs
    rw [renderNode, nodeSubstitute, renderNode]
    refine hR.bind (renderBranches_substitute hR hc h out branches hb) fun taken _ => ?_
    cases taken with
    | some out => exact hR.refl _
    | none => exact renderOptional_substitute hR hc h out otherwise ho
  | .loop target iterable body empty, hs => by
    obtain ⟨hs, he⟩ := List.append_subset.1 hs
    obtain ⟨hs, hb⟩ := List.append_subset.1 hs
    obtain ⟨hi, ht⟩ := List.append_subset.1 hs
    rw [renderNode, nodeSubstitute, renderNode]
    refine hR.bind (eval_carried hR hc h hi) fun v _ => hR.bind (hR.refl (iterate v)) ?_
    intro items _
    split
    · exact renderOptional_substitute hR hc h out empty he
    · refine renderRounds_stepwise hR (fun item i out => ?_) items 0 out
      refine hR.bind (hR.refl _) fun frame hf => ?_
      cases hent : enters target with
      | true =>
        rw [if_pos rfl]
        exact renderNodes_substitute hR hc (hc.enter h hent ht hf) out body hb
      | false =>
        rw [if_neg Bool.false_ne_true]
        exact hc.leave h hent hb hf out

theorem renderBranches_substitute (hR : Stepwise R) (hc : Carries R f enters names Related)
    {s s' : Scope} (h : Related s s') (out : String) :
    (branches : List (Expr × List Node)) → branchMentioned branches ⊆ names →
      R (Option String) (renderBranches s out branches)
        (renderBranches s' out (branchSubstitute f enters branches))
  | [], _ => hR.refl _
  | (condition, body) :: branches, hs => by
    obtain ⟨hs, hr⟩ := List.append_subset.1 hs
    obtain ⟨hcond, hb⟩ := List.append_subset.1 hs
    rw [renderBranches, branchSubstitute, renderBranches]
    refine hR.bind (eval_carried hR hc h hcond) fun v _ => ?_
    split
    · exact hR.bind (renderNodes_substitute hR hc h out body hb) fun out _ => hR.refl _
    · exact renderBranches_substitute hR hc h out branches hr

theorem renderOptional_substitute (hR : Stepwise R) (hc : Carries R f enters names Related)
    {s s' : Scope} (h : Related s s') (out : String) :
    (nodes : Option (List Node)) → optionalMentioned nodes ⊆ names →
      R String (renderOptional s out nodes)
        (renderOptional s' out (optionalSubstitute f enters nodes))
  | none, _ => hR.refl _
  | some nodes, hs => renderNodes_substitute hR hc h out nodes hs

end

theorem append_subset_append {as bs cs ds : List String} (h : as ⊆ cs) (h' : bs ⊆ ds) :
    as ++ bs ⊆ cs ++ ds :=
  List.append_subset.2 ⟨List.subset_append_of_subset_left ds h,
    List.subset_append_of_subset_right cs h'⟩

mutual

/-- What is free in nodes is mentioned in them. -/
theorem freeNames_mentioned : (ns : List Node) → Template.freeNames ns ⊆ mentioned ns
  | [] => List.Subset.refl _
  | n :: ns => append_subset_append (nodeFreeNames_mentioned n) (freeNames_mentioned ns)

theorem nodeFreeNames_mentioned : (n : Node) → Template.nodeFreeNames n ⊆ nodeMentioned n
  | .text _ => List.Subset.refl _
  | .output _ => List.Subset.refl _
  | .loop target iterable body empty => by
    have hb : (Template.freeNames body).filter (· ∉ target.bound) ⊆ mentioned body :=
      fun _ hn => freeNames_mentioned body (List.mem_filter.1 hn).1
    have hi : iterable.roots ⊆ iterable.roots ++ target.names := List.subset_append_left _ _
    exact append_subset_append (append_subset_append hi hb) (optionalFreeNames_mentioned empty)
  | .cond branches otherwise =>
    append_subset_append (branchFreeNames_mentioned branches)
      (optionalFreeNames_mentioned otherwise)

theorem branchFreeNames_mentioned : (branches : List (Expr × List Node)) →
    Template.branchFreeNames branches ⊆ branchMentioned branches
  | [] => List.Subset.refl _
  | (condition, body) :: branches =>
    append_subset_append
      (append_subset_append (List.Subset.refl condition.roots) (freeNames_mentioned body))
      (branchFreeNames_mentioned branches)

theorem optionalFreeNames_mentioned : (nodes : Option (List Node)) →
    Template.optionalFreeNames nodes ⊆ optionalMentioned nodes
  | none => List.Subset.refl _
  | some nodes => freeNames_mentioned nodes

end

end Stencil.Render
