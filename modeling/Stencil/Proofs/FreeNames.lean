import Stencil.Proofs.Meaning

/-! The names that a template takes from its parameters. Two renderings whose parameters agree on
these go the same way; where one set of parameters lacks some of them, it can only fail on one. -/
namespace Stencil.Template

def Expr.roots : Expr → List String
  | .literal _ => []
  | .path p => [p.root]
  | .filter target _ => target.roots
  | .compare _ lhs rhs => lhs.roots ++ rhs.roots
  | .contains needle haystack _ => needle.roots ++ haystack.roots
  | .not e => e.roots
  | .and lhs rhs => lhs.roots ++ rhs.roots
  | .or lhs rhs => lhs.roots ++ rhs.roots

def Target.bound : Target → List String
  | .single name => ["loop", name]
  | .unpack names => "loop" :: names

mutual

/-- The roots of paths outside the bodies of loops that bind them. -/
def freeNames : List Node → List String
  | [] => []
  | n :: ns => nodeFreeNames n ++ freeNames ns

def nodeFreeNames : Node → List String
  | .text _ => []
  | .output e => e.roots
  | .loop target iterable body empty =>
    iterable.roots ++ (freeNames body).filter (· ∉ target.bound) ++ optionalFreeNames empty
  | .cond branches otherwise => branchFreeNames branches ++ optionalFreeNames otherwise

def branchFreeNames : List (Expr × List Node) → List String
  | [] => []
  | (condition, body) :: branches =>
    condition.roots ++ freeNames body ++ branchFreeNames branches

def optionalFreeNames : Option (List Node) → List String
  | none => []
  | some nodes => freeNames nodes

end

end Stencil.Template

namespace Stencil.Render

open Template (Node Expr Target freeNames nodeFreeNames branchFreeNames optionalFreeNames)

variable {α β : Type} {env env' : Env} {names : List String}

def Covers (env env' : Env) (names : List String) : Prop :=
  ∀ n ∈ names, env n = none ∨ env n = env' n

/-- The results in two environments are the same, or the first is the failure on a name that it
lacks and the second has. -/
def SameOrMissing (env env' : Env) (names : List String) (x y : Except RenderError α) : Prop :=
  x = y ∨ ∃ n ∈ names, env n = none ∧ env' n ≠ none ∧ x = .error (.undefined ⟨n, []⟩)

theorem SameOrMissing.refl (x : Except RenderError α) : SameOrMissing env env' names x x :=
  .inl rfl

/-- A step that goes the same way may be followed by steps that do. -/
theorem SameOrMissing.bind {x y : Except RenderError α} {f g : α → Except RenderError β}
    (h : SameOrMissing env env' names x y)
    (hf : ∀ a, x = .ok a → SameOrMissing env env' names (f a) (g a)) :
    SameOrMissing env env' names (x >>= f) (y >>= g) := by
  rcases h with rfl | ⟨n, hn, hl, hr, rfl⟩
  · cases x with
    | error e => exact .refl _
    | ok a => exact hf a rfl
  · exact .inr ⟨n, hn, hl, hr, rfl⟩

theorem eval_covered (h : Covers env env' names) {e : Expr} (he : e.roots ⊆ names) :
    SameOrMissing env env' names (eval env e) (eval env' e) := by
  induction e with
  | literal v => exact .refl _
  | path p =>
    have hp : p.root ∈ names := he List.mem_cons_self
    simp only [eval, resolve]
    rcases h _ hp with hn | hs
    · cases hr : env' p.root with
      | none =>
        rw [hn]
        exact .refl _
      | some v => exact .inr ⟨p.root, hp, hn, by simp [hr], by rw [hn]⟩
    · rw [hs]
      exact .refl _
  | filter target call ih => exact (ih he).bind fun v _ => .refl _
  | compare op lhs rhs ihl ihr =>
    obtain ⟨hl, hr⟩ := List.append_subset.1 he
    exact (ihl hl).bind fun a _ => (ihr hr).bind fun b _ => .refl _
  | contains needle haystack negated ihl ihr =>
    obtain ⟨hl, hr⟩ := List.append_subset.1 he
    exact (ihl hl).bind fun a _ => (ihr hr).bind fun b _ => .refl _
  | not e ih => exact (ih he).bind fun v _ => .refl _
  | and lhs rhs ihl ihr =>
    obtain ⟨hl, hr⟩ := List.append_subset.1 he
    refine (ihl hl).bind fun a _ => ?_
    split
    · exact (ihr hr).bind fun b _ => .refl _
    · exact .refl _
  | or lhs rhs ihl ihr =>
    obtain ⟨hl, hr⟩ := List.append_subset.1 he
    refine (ihl hl).bind fun a _ => ?_
    split
    · exact .refl _
    · exact (ihr hr).bind fun b _ => .refl _

theorem get?_merge {f : Frame} {pairs : List (String × Value)} {name : String}
    (h : Entries.get? f name ≠ none ∨ name ∈ pairs.map Prod.fst) :
    Entries.get? (Entries.merge f pairs) name ≠ none := by
  induction pairs generalizing f with
  | nil => exact h.resolve_right List.not_mem_nil
  | cons p pairs ih =>
    refine ih ?_
    rw [Entries.get?_insert]
    by_cases hn : name = p.1
    · simp [hn]
    · simpa [hn] using h

theorem bindTarget_binds {target : Target} {item : Value} {f : Frame}
    (h : bindTarget target item = .ok f) {name : String} (hn : name ∈ target.bound) :
    name = "loop" ∨ Entries.get? f name ≠ none := by
  cases target with
  | single n =>
    cases h
    simpa [Target.bound, Entries.get?, eq_comm] using hn
  | unpack ns =>
    refine (List.mem_cons.1 hn).imp_right fun hn => ?_
    cases item with
    | seq parts =>
      simp only [bindTarget] at h
      split at h
      · rename_i hl
        cases h
        refine get?_merge (.inr ?_)
        rwa [List.map_fst_zip (by omega)]
      · cases h
    | _ => cases h

/-- The frame of a round has all the names that the loop binds. -/
theorem roundFrame_binds {target : Target} {item : Value} {index0 length : Nat} {f : Frame}
    (h : roundFrame target item index0 length = .ok f) {name : String} (hn : name ∈ target.bound) :
    Entries.get? f name ≠ none := by
  obtain ⟨g, hb, rfl⟩ := roundFrame_ok h
  rw [Entries.get?_insert]
  rcases bindTarget_binds hb hn with rfl | hg
  · simp
  · split
    · simp
    · exact hg

theorem Covers.over (h : Covers env env' names) (f : Frame) {bound : List String}
    (hb : ∀ n ∈ bound, Entries.get? f n ≠ none) :
    Covers (Frame.over f env) (Frame.over f env') (bound ++ names) := by
  intro n hn
  simp only [Frame.over]
  cases hf : Entries.get? f n with
  | some v => exact .inr rfl
  | none =>
    rcases List.mem_append.1 hn with hn | hn
    · exact absurd hf (hb n hn)
    · exact h n hn

/-- A name that is missing under a frame is missing without it. -/
theorem SameOrMissing.of_over {f : Frame} {bound : List String}
    (hb : ∀ n ∈ bound, Entries.get? f n ≠ none) {x y : Except RenderError α}
    (h : SameOrMissing (Frame.over f env) (Frame.over f env') (bound ++ names) x y) :
    SameOrMissing env env' names x y := by
  rcases h with h | ⟨n, hn, hl, hr, hx⟩
  · exact .inl h
  · obtain ⟨hf, hl⟩ := Option.or_eq_none_iff.1 hl
    simp only [Frame.over, hf, Option.none_or] at hr
    refine .inr ⟨n, (List.mem_append.1 hn).resolve_left fun hn => hb n hn hf, hl, hr, hx⟩

theorem renderRounds_covered {s s' : Scope} {target : Target} {length : Nat}
    {body body' : Scope → String → Except RenderError String}
    (hb : ∀ f : Frame, (∀ n ∈ target.bound, Entries.get? f n ≠ none) → ∀ out,
      SameOrMissing s.lookup s'.lookup names (body (s.push f) out) (body' (s'.push f) out))
    (items : List Value) (index0 : Nat) (out : String) :
    SameOrMissing s.lookup s'.lookup names (renderRounds body s target length index0 items out)
      (renderRounds body' s' target length index0 items out) := by
  induction items generalizing index0 out with
  | nil => exact .refl _
  | cons item items ih =>
    refine (SameOrMissing.refl (roundFrame target item index0 length)).bind fun f hf => ?_
    exact (hb f (fun n => roundFrame_binds hf) out).bind fun out _ => ih (index0 + 1) out

mutual

/-- Rendering looks at nothing but the free names, and at a missing one only to fail. -/
theorem renderNodes_covered {s s' : Scope} {names : List String}
    (h : Covers s.lookup s'.lookup names) (out : String) :
    (ns : List Node) → freeNames ns ⊆ names →
      SameOrMissing s.lookup s'.lookup names (renderNodes s out ns) (renderNodes s' out ns)
  | [], _ => .refl _
  | n :: ns, hs => by
    obtain ⟨hn, hs⟩ := List.append_subset.1 hs
    rw [renderNodes, renderNodes]
    exact (renderNode_covered h out n hn).bind fun out _ => renderNodes_covered h out ns hs

theorem renderNode_covered {s s' : Scope} {names : List String}
    (h : Covers s.lookup s'.lookup names) (out : String) :
    (n : Node) → nodeFreeNames n ⊆ names →
      SameOrMissing s.lookup s'.lookup names (renderNode s out n) (renderNode s' out n)
  | .text _, _ => .refl _
  | .output e, hs => by
    rw [renderNode, renderNode]
    exact (eval_covered h hs).bind fun v _ => .refl _
  | .cond branches otherwise, hs => by
    obtain ⟨hb, ho⟩ := List.append_subset.1 hs
    rw [renderNode, renderNode]
    refine (renderBranches_covered h out branches hb).bind fun taken _ => ?_
    cases taken with
    | some out => exact .refl _
    | none => exact renderOptional_covered h out otherwise ho
  | .loop target iterable body empty, hs => by
    obtain ⟨hs, he⟩ := List.append_subset.1 hs
    obtain ⟨hi, hb⟩ := List.append_subset.1 hs
    have hb : freeNames body ⊆ target.bound ++ names := by
      intro n hn
      by_cases ht : n ∈ target.bound
      · exact List.mem_append_left _ ht
      · exact List.mem_append_right _ (hb (List.mem_filter.2 ⟨hn, by simpa using ht⟩))
    rw [renderNode, renderNode]
    refine (eval_covered h hi).bind fun v _ => ?_
    refine (SameOrMissing.refl (iterate v)).bind fun items _ => ?_
    split
    · exact renderOptional_covered h out empty he
    · refine renderRounds_covered (fun f hf out => ?_) items 0 out
      have hc := h.over f hf
      rw [← lookup_push, ← lookup_push] at hc
      refine SameOrMissing.of_over hf ?_
      rw [← lookup_push, ← lookup_push]
      exact renderNodes_covered hc out body hb

theorem renderBranches_covered {s s' : Scope} {names : List String}
    (h : Covers s.lookup s'.lookup names) (out : String) :
    (branches : List (Expr × List Node)) → branchFreeNames branches ⊆ names →
      SameOrMissing s.lookup s'.lookup names (renderBranches s out branches)
        (renderBranches s' out branches)
  | [], _ => .refl _
  | (condition, body) :: branches, hs => by
    obtain ⟨hs, hr⟩ := List.append_subset.1 hs
    obtain ⟨hc, hb⟩ := List.append_subset.1 hs
    rw [renderBranches, renderBranches]
    refine (eval_covered h hc).bind fun v _ => ?_
    split
    · exact (renderNodes_covered h out body hb).bind fun out _ => .refl _
    · exact renderBranches_covered h out branches hr

theorem renderOptional_covered {s s' : Scope} {names : List String}
    (h : Covers s.lookup s'.lookup names) (out : String) :
    (nodes : Option (List Node)) → optionalFreeNames nodes ⊆ names →
      SameOrMissing s.lookup s'.lookup names (renderOptional s out nodes)
        (renderOptional s' out nodes)
  | none, _ => .refl _
  | some nodes, hs => renderNodes_covered h out nodes hs

end

theorem render_covered {params others : Entries Value} {names : List String}
    (h : Covers (Entries.get? params) (Entries.get? others) names) {nodes : List Node}
    (hs : freeNames nodes ⊆ names) :
    SameOrMissing (Entries.get? params) (Entries.get? others) names
      (Template.render ⟨nodes⟩ params) (Template.render ⟨nodes⟩ others) := by
  rw [← lookup_ofParams, ← lookup_ofParams] at h
  exact renderNodes_covered h "" nodes hs

/-- Parameters that agree on the free names render to the same, and a parameter whose name is not
among these may have any value. -/
theorem render_eq_of_freeNames (nodes : List Node) :
    (∀ params others : Entries Value,
      (∀ n ∈ freeNames nodes, Entries.get? params n = Entries.get? others n) →
      Template.render ⟨nodes⟩ params = Template.render ⟨nodes⟩ others) ∧
    ∀ (params : Entries Value) (name : String) (v : Value), name ∉ freeNames nodes →
      Template.render ⟨nodes⟩ (Entries.insert params name v) =
        Template.render ⟨nodes⟩ params := by
  have main : ∀ params others : Entries Value,
      (∀ n ∈ freeNames nodes, Entries.get? params n = Entries.get? others n) →
      Template.render ⟨nodes⟩ params = Template.render ⟨nodes⟩ others := by
    intro params others h
    have hc : Covers (Entries.get? params) (Entries.get? others) (freeNames nodes) :=
      fun n hn => .inr (h n hn)
    rcases render_covered hc (List.Subset.refl _) with he | ⟨n, hn, hl, hr, _⟩
    · exact he
    · exact absurd ((h n hn).symm.trans hl) hr
  refine ⟨main, fun params name v hn => main _ _ fun n hm => ?_⟩
  have hne : n ≠ name := fun he => hn (he ▸ hm)
  rw [Entries.get?_insert, if_neg hne]

/-- A loop's own name may also be a parameter, which then does not count. -/
theorem render_eq_of_freeNames_shadowed :
    let nodes : List Node := [.loop (.single "x") (.path ⟨"xs", []⟩)
      [.output (.path ⟨"x", []⟩), .output (.path ⟨"n", []⟩)] none]
    let params : Entries Value := [("xs", .seq [.string "b"]), ("n", .string "a")]
    let others : Entries Value :=
      [("x", .null), ("n", .string "a"), ("xs", .seq [.string "b"])]
    freeNames nodes = ["xs", "n"] ∧
    Template.render ⟨nodes⟩ params = .ok "ba" ∧
    Template.render ⟨nodes⟩ params = Template.render ⟨nodes⟩ others ∧
    Template.render ⟨nodes⟩ (Entries.insert params "x" (.bool true)) =
      Template.render ⟨nodes⟩ params := by
  intro nodes params others
  have hf : freeNames nodes = ["xs", "n"] := by decide
  have h := render_eq_of_freeNames nodes
  refine ⟨hf, rfl, h.1 params others ?_, h.2 params "x" (.bool true) (by rw [hf]; decide)⟩
  rw [hf]
  intro n hn
  simp only [List.mem_cons, List.not_mem_nil, or_false] at hn
  rcases hn with rfl | rfl <;> rfl

/-- With more parameters a template renders to the same, unless it failed on a name that was
missing and no longer is. -/
theorem render_with_more_params (nodes : List Node) (params more : Entries Value)
    (h : ∀ n v, Entries.get? params n = some v → Entries.get? more n = some v) :
    (Template.render ⟨nodes⟩ params = Template.render ⟨nodes⟩ more ∨
      ∃ n, Template.render ⟨nodes⟩ params = .error (.undefined ⟨n, []⟩) ∧
        Entries.get? params n = none ∧ Entries.get? more n ≠ none) ∧
    (∀ out, Template.render ⟨nodes⟩ params = .ok out →
      Template.render ⟨nodes⟩ more = .ok out) ∧
    (∀ operation operand,
      Template.render ⟨nodes⟩ params = .error (.typeError operation operand) →
      Template.render ⟨nodes⟩ more = .error (.typeError operation operand)) ∧
    ∀ path : Template.Path, path.segments ≠ [] →
      Template.render ⟨nodes⟩ params = .error (.undefined path) →
      Template.render ⟨nodes⟩ more = .error (.undefined path) := by
  have hc : Covers (Entries.get? params) (Entries.get? more) (freeNames nodes) := by
    intro n _
    cases hn : Entries.get? params n with
    | none => exact .inl rfl
    | some v => exact .inr (h n v hn).symm
  have main := render_covered hc (List.Subset.refl _)
  have same : ∀ r, Template.render ⟨nodes⟩ params = r →
      (∀ n, r ≠ .error (.undefined ⟨n, []⟩)) → Template.render ⟨nodes⟩ more = r := by
    intro r hr hn
    rcases main with he | ⟨n, _, _, _, hx⟩
    · exact he.symm.trans hr
    · exact absurd (hr.symm.trans hx) (hn n)
  refine ⟨?_, fun out ho => same _ ho nofun, fun _ _ he => same _ he nofun, ?_⟩
  · rcases main with he | ⟨n, _, hl, hr, hx⟩
    · exact .inl he
    · exact .inr ⟨n, hx, hl, hr⟩
  · rintro path hp he
    refine same _ he fun n hn => hp ?_
    cases hn
    rfl

/-- A parameter that an untaken branch would have missed, and one that is missed. -/
theorem render_with_more_params_lazily :
    let branch : List Node := [.cond [(.path ⟨"b", []⟩, [.output (.path ⟨"x", []⟩)])]
      (some [.output (.path ⟨"y", []⟩)])]
    let params : Entries Value := [("b", .bool false), ("y", .string "a")]
    let more : Entries Value := [("x", .null), ("b", .bool false), ("y", .string "a")]
    (∀ n v, Entries.get? params n = some v → Entries.get? more n = some v) ∧
    Template.render ⟨branch⟩ params = .ok "a" ∧ Template.render ⟨branch⟩ more = .ok "a" ∧
    Template.render ⟨[.output (.path ⟨"x", []⟩)]⟩ params =
      .error (.undefined ⟨"x", []⟩) := by
  intro branch params more
  have h : ∀ n v, Entries.get? params n = some v → Entries.get? more n = some v := by
    intro n v hn
    simp only [params, Entries.get?] at hn
    simp only [more, Entries.get?]
    split at hn
    · rename_i hb
      subst hb
      simpa using hn
    · split at hn
      · rename_i hy
        subst hy
        simpa using hn
      · cases hn
  exact ⟨h, rfl, (render_with_more_params branch params more h).2.1 _ rfl, rfl⟩

end Stencil.Render
