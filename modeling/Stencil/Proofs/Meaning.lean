import Stencil.Proofs.Entries
import Stencil.Render.Nodes

/-! What nodes mean when names simply have values. There is no buffer and no stack: a node stands
for its own text, and a loop extends the values of names for its body alone. Rendering agrees. -/
namespace Stencil.Render

open Template (Node Expr Target)

def Env.bind (env : Env) (name : String) (v : Value) : Env :=
  fun n => if n = name then some v else env n

/-- Binds from left to right, so that the last of equal names counts. -/
def Env.bindAll (env : Env) : List (String × Value) → Env
  | [] => env
  | (name, v) :: rest => (env.bind name v).bindAll rest

def Env.bindElement (env : Env) : Target → Value → Except RenderError Env
  | .single name, element => .ok (env.bind name element)
  | .unpack names, .seq parts =>
    if parts.length = names.length then .ok (env.bindAll (names.zip parts))
    else .error (.typeError (.unpacking names.length) (.sequenceOf parts.length))
  | .unpack names, v => .error (.typeError (.unpacking names.length) (.value v.kind))

def elements : Value → Except RenderError (List Value)
  | .seq items => .ok items
  | .map entries => .ok (entries.map fun e => .string e.1)
  | v => .error (.typeError .iteration (.value v.kind))

mutual

/-- The texts of the nodes one after another, or the first error. -/
def meaning (env : Env) : List Node → Except RenderError String
  | [] => .ok ""
  | n :: ns => do
    let first ← nodeMeaning env n
    let rest ← meaning env ns
    pure (first ++ rest)

def nodeMeaning (env : Env) : Node → Except RenderError String
  | .text s => .ok s
  | .output e => do outputText (← eval env e)
  | .cond branches otherwise => branchMeaning env (optionalMeaning env otherwise) branches
  | .loop target iterable body empty => do
    let items ← elements (← eval env iterable)
    if items = [] then optionalMeaning env empty
    else
      let texts ← items.zipIdx.mapM fun (element, i) => do
        let inner ← env.bindElement target element
        meaning (inner.bind "loop" (loopInfo i items.length)) body
      pure (String.join texts)

def branchMeaning (env : Env) (otherwise : Except RenderError String) :
    List (Expr × List Node) → Except RenderError String
  | [] => otherwise
  | (condition, body) :: branches => do
    let v ← eval env condition
    if v.isTruthy then meaning env body else branchMeaning env otherwise branches

def optionalMeaning (env : Env) : Option (List Node) → Except RenderError String
  | none => .ok ""
  | some nodes => meaning env nodes

end

/-- Nodes mean what they mean one after the other, up to the first error. -/
theorem meaning_append (env : Env) (xs ys : List Node) :
    meaning env (xs ++ ys) = (do
      let first ← meaning env xs
      let rest ← meaning env ys
      pure (first ++ rest)) := by
  induction xs with
  | nil =>
    change meaning env ys = (meaning env ys).map ("" ++ ·)
    cases meaning env ys <;> simp [Except.map]
  | cons x xs ih =>
    rw [List.cons_append, meaning, meaning, ih]
    cases nodeMeaning env x with
    | error e => rfl
    | ok s =>
      cases meaning env xs with
      | error e => rfl
      | ok t =>
        cases meaning env ys with
        | error e => rfl
        | ok u => exact congrArg Except.ok String.append_assoc.symm

def Frame.over (f : Frame) (env : Env) : Env := fun n => (Entries.get? f n).or (env n)

theorem lookup_ofParams (params : Entries Value) :
    (Scope.ofParams params).lookup = Entries.get? params := rfl

theorem lookup_push (s : Scope) (f : Frame) : (s.push f).lookup = Frame.over f s.lookup := by
  funext n
  simp only [Scope.lookup, Scope.push, Frame.over, List.findSome?_cons]
  cases Entries.get? f n <;> rfl

theorem over_insert (f : Frame) (env : Env) (name : String) (v : Value) :
    Frame.over (Entries.insert f name v) env = (Frame.over f env).bind name v := by
  funext n
  simp only [Frame.over, Env.bind, Entries.get?_insert]
  split <;> rfl

theorem over_merge (f : Frame) (env : Env) (pairs : List (String × Value)) :
    Frame.over (Entries.merge f pairs) env = (Frame.over f env).bindAll pairs := by
  induction pairs generalizing f with
  | nil => rfl
  | cons p pairs ih =>
    have h := ih (Entries.insert f p.1 p.2)
    rw [over_insert] at h
    exact h

theorem over_bindTarget (env : Env) (t : Target) (item : Value) :
    (Frame.over · env) <$> bindTarget t item = env.bindElement t item := by
  cases t with
  | single name =>
    refine congrArg Except.ok (funext fun n => ?_)
    by_cases hn : name = n <;> simp [Frame.over, Entries.get?, Env.bind, hn, eq_comm]
  | unpack names =>
    cases item with
    | seq parts =>
      simp only [bindTarget, Env.bindElement]
      split
      · exact congrArg Except.ok (over_merge [] env (names.zip parts))
      · rfl
    | _ => rfl

/-- The frame of a round binds the names of the loop, and `loop` after them. -/
theorem roundFrame_ok {target : Target} {item : Value} {i length : Nat} {frame : Frame}
    (h : roundFrame target item i length = .ok frame) :
    ∃ f, bindTarget target item = .ok f ∧ frame = Entries.insert f "loop" (loopInfo i length) := by
  rw [roundFrame] at h
  cases hb : bindTarget target item with
  | error e =>
    rw [hb] at h
    cases h
  | ok f =>
    rw [hb] at h
    cases h
    exact ⟨f, rfl, rfl⟩

def writeTo (out : String) (text : Except RenderError String) : Except RenderError String :=
  text.map (out ++ ·)

@[simp] theorem writeTo_ok (out text : String) : writeTo out (.ok text) = .ok (out ++ text) := rfl

@[simp] theorem writeTo_error (out : String) (e : RenderError) :
    writeTo out (.error e) = .error e := rfl

theorem writeTo_map_append (out first : String) (text : Except RenderError String) :
    writeTo out (text.map (first ++ ·)) = writeTo (out ++ first) text := by
  cases text <;> simp [Except.map, String.append_assoc]

theorem iterate_elements (v : Value) : iterate v = elements v := by
  cases v <;> simp [iterate, elements, Entries.keys]

def roundMeaning (m : Env → Except RenderError String) (env : Env) (target : Target) (length : Nat)
    (element : Value) (i : Nat) : Except RenderError String := do
  let inner ← env.bindElement target element
  m (inner.bind "loop" (loopInfo i length))

section

variable {body : Scope → String → Except RenderError String} {m : Env → Except RenderError String}

theorem round_writes (hb : ∀ scope out, body scope out = writeTo out (m scope.lookup))
    (scope : Scope) (target : Target) (length : Nat) (item : Value) (i : Nat) (out : String) :
    (roundFrame target item i length >>= fun frame => body (scope.push frame) out) =
      writeTo out (roundMeaning m scope.lookup target length item i) := by
  rw [roundMeaning, roundFrame, ← over_bindTarget]
  cases bindTarget target item with
  | error e => rfl
  | ok f =>
    change body (scope.push (Entries.insert f "loop" (loopInfo i length))) out =
      writeTo out (m ((Frame.over f scope.lookup).bind "loop" (loopInfo i length)))
    rw [hb, lookup_push, over_insert]

/-- If the body writes what it means wherever it stands, so do the rounds of a loop. -/
theorem rounds_write (hb : ∀ scope out, body scope out = writeTo out (m scope.lookup))
    (scope : Scope) (target : Target) (length : Nat) (items : List Value) (i : Nat)
    (out : String) :
    renderRounds body scope target length i items out =
      writeTo out (String.join <$> (items.zipIdx i).mapM fun (element, j) =>
        roundMeaning m scope.lookup target length element j) := by
  induction items generalizing i out with
  | nil =>
    change Except.ok out = .ok (out ++ String.join [])
    rw [String.join_nil, String.append_empty]
  | cons item items ih =>
    have hr := round_writes hb scope target length item i out
    rw [renderRounds, ← bind_assoc, hr]
    simp only [List.zipIdx_cons, List.mapM_cons]
    cases roundMeaning m scope.lookup target length item i with
    | error e => rfl
    | ok text =>
      change renderRounds body scope target length (i + 1) items (out ++ text) = _
      rw [ih, ← writeTo_map_append]
      cases (items.zipIdx (i + 1)).mapM fun (element, j) =>
        roundMeaning m scope.lookup target length element j with
      | error e => rfl
      | ok texts =>
        change Except.ok (out ++ (text ++ String.join texts)) =
          .ok (out ++ String.join (text :: texts))
        rw [String.join_cons]

end

mutual

/-- Wherever it starts, rendering writes what the nodes mean. -/
theorem renderNodes_writes (scope : Scope) (out : String) :
    (ns : List Node) → renderNodes scope out ns = writeTo out (meaning scope.lookup ns)
  | [] => by
    change Except.ok out = .ok (out ++ "")
    rw [String.append_empty]
  | n :: ns => by
    rw [renderNodes, renderNode_writes scope out n, meaning]
    cases nodeMeaning scope.lookup n with
    | error e => rfl
    | ok first =>
      change renderNodes scope (out ++ first) ns =
        writeTo out ((meaning scope.lookup ns).map (first ++ ·))
      rw [renderNodes_writes scope (out ++ first) ns, writeTo_map_append]

theorem renderNode_writes (scope : Scope) (out : String) :
    (n : Node) → renderNode scope out n = writeTo out (nodeMeaning scope.lookup n)
  | .text s => rfl
  | .output e => by
    rw [renderNode, nodeMeaning]
    cases eval scope.lookup e with
    | error e => rfl
    | ok v => rfl
  | .cond branches otherwise => by
    rw [renderNode, nodeMeaning, renderOptional_writes scope out otherwise]
    exact renderBranches_writes scope out (optionalMeaning scope.lookup otherwise) branches
  | .loop target iterable body empty => by
    rw [renderNode, nodeMeaning]
    cases eval scope.lookup iterable with
    | error e => rfl
    | ok v =>
      change (iterate v >>= _) = writeTo out (elements v >>= _)
      rw [iterate_elements]
      cases elements v with
      | error e => rfl
      | ok items =>
        cases items with
        | nil => exact renderOptional_writes scope out empty
        | cons item items =>
          exact rounds_write (m := fun env => meaning env body)
            (fun scope out => renderNodes_writes scope out body) scope target
            (item :: items).length (item :: items) 0 out

theorem renderBranches_writes (scope : Scope) (out : String)
    (otherwise : Except RenderError String) :
    (branches : List (Expr × List Node)) →
      (do match ← renderBranches scope out branches with
        | some out => pure out
        | none => writeTo out otherwise) =
      writeTo out (branchMeaning scope.lookup otherwise branches)
  | [] => rfl
  | (condition, body) :: branches => by
    rw [renderBranches, branchMeaning]
    cases eval scope.lookup condition with
    | error e => rfl
    | ok v =>
      change (do match ← (if v.isTruthy then _ else _) with
        | some out => pure out
        | none => writeTo out otherwise) = writeTo out (if v.isTruthy then _ else _)
      split
      · rw [renderNodes_writes scope out body]
        cases meaning scope.lookup body <;> rfl
      · exact renderBranches_writes scope out otherwise branches

theorem renderOptional_writes (scope : Scope) (out : String) :
    (nodes : Option (List Node)) →
      renderOptional scope out nodes = writeTo out (optionalMeaning scope.lookup nodes)
  | none => by
    change Except.ok out = .ok (out ++ "")
    rw [String.append_empty]
  | some nodes => renderNodes_writes scope out nodes

end

/-- Rendering a template is working out what its nodes mean, with the parameters as the values of
names at first. -/
theorem render_compositional (nodes : List Node) (params : Entries Value) :
    Template.render ⟨nodes⟩ params = meaning (Entries.get? params) nodes := by
  rw [Template.render, renderNodes_writes, lookup_ofParams]
  cases meaning (Entries.get? params) nodes <;> simp

end Stencil.Render
