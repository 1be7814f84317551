import Mathlib
import Stencil.Proofs.Integers
import Stencil.Proofs.Meaning

/-! What `loop` stands for in the body of a loop: the round that this loop is in, and in the body of
a loop inside it the round of that one. It can be read off the rounds alone, as if it were no name
at all that a loop binds and a loop inside it hides. -/
namespace Stencil.Render

open Template (Node Expr Target)

structure Round where
  index0 : Nat
  length : Nat

def Env.inRound (env : Env) : Option Round → Env
  | none => env
  | some r => env.bind "loop" (loopInfo r.index0 r.length)

mutual

/-- The texts of nodes in a round of the innermost loop around them. All of them are in that same
round, and only the body of a loop among them is in another one. -/
def meaningIn (round : Option Round) (env : Env) : List Node → Except RenderError String
  | [] => .ok ""
  | n :: ns => do
    let first ← nodeMeaningIn round env n
    let rest ← meaningIn round env ns
    pure (first ++ rest)

def nodeMeaningIn (round : Option Round) (env : Env) : Node → Except RenderError String
  | .text s => .ok s
  | .output e => do outputText (← eval (env.inRound round) e)
  | .cond branches otherwise =>
    branchMeaningIn round env (optionalMeaningIn round env otherwise) branches
  | .loop target iterable body empty => do
    let items ← elements (← eval (env.inRound round) iterable)
    if items = [] then optionalMeaningIn round env empty
    else
      let texts ← items.zipIdx.mapM fun (element, i) => do
        let inner ← env.bindElement target element
        meaningIn (some ⟨i, items.length⟩) inner body
      pure (String.join texts)

def branchMeaningIn (round : Option Round) (env : Env) (otherwise : Except RenderError String) :
    List (Expr × List Node) → Except RenderError String
  | [] => otherwise
  | (condition, body) :: branches => do
    let v ← eval (env.inRound round) condition
    if v.isTruthy then meaningIn round env body
    else branchMeaningIn round env otherwise branches

def optionalMeaningIn (round : Option Round) (env : Env) :
    Option (List Node) → Except RenderError String
  | none => .ok ""
  | some nodes => meaningIn round env nodes

end

/-! The names of an element may be bound before the round is known or in a round around it. -/

section

variable {env env' : Env} {w : Value}

theorem bind_under (h : env.bind "loop" w = env'.bind "loop" w) (name : String) (v : Value) :
    (env.bind name v).bind "loop" w = (env'.bind name v).bind "loop" w := by
  funext n
  have hn := congrFun h n
  by_cases hl : n = "loop"
  · simp only [Env.bind, if_pos hl]
  · simp only [Env.bind, if_neg hl] at hn ⊢
    rw [hn]

theorem bindAll_under (h : env.bind "loop" w = env'.bind "loop" w)
    (pairs : List (String × Value)) :
    (env.bindAll pairs).bind "loop" w = (env'.bindAll pairs).bind "loop" w := by
  induction pairs generalizing env env' with
  | nil => exact h
  | cons p pairs ih => exact ih (bind_under h p.1 p.2)

theorem bindElement_under (h : env.bind "loop" w = env'.bind "loop" w) (target : Target)
    (element : Value) :
    (Env.bind · "loop" w) <$> env.bindElement target element =
      (Env.bind · "loop" w) <$> env'.bindElement target element := by
  cases target with
  | single name => exact congrArg Except.ok (bind_under h name element)
  | unpack names =>
    cases element with
    | seq parts =>
      simp only [Env.bindElement]
      split
      · exact congrArg Except.ok (bindAll_under h (names.zip parts))
      · rfl
    | _ => rfl

theorem inRound_under (env : Env) (round : Option Round) (w : Value) :
    (env.inRound round).bind "loop" w = env.bind "loop" w := by
  funext n
  by_cases hl : n = "loop" <;> cases round <;> simp [Env.inRound, Env.bind, hl]

end

/-- A round of a loop that is itself in a round, if its body means `m` by names and `m'` by
rounds. -/
theorem element_inRound {m m' : Env → Except RenderError String} {length i : Nat}
    (h : ∀ env, m (env.inRound (some ⟨i, length⟩)) = m' env) (env : Env) (round : Option Round)
    (target : Target) (element : Value) :
    ((env.inRound round).bindElement target element >>= fun inner =>
      m (inner.bind "loop" (loopInfo i length))) =
        env.bindElement target element >>= m' := by
  have hb := bindElement_under (inRound_under env round (loopInfo i length)) target element
  have hm : (fun inner => m (inner.bind "loop" (loopInfo i length))) = m' := funext h
  calc
    _ = ((Env.bind · "loop" (loopInfo i length)) <$> (env.inRound round).bindElement target element)
          >>= m := (bind_map_left _ _ _).symm
    _ = ((Env.bind · "loop" (loopInfo i length)) <$> env.bindElement target element) >>= m := by
      rw [hb]
    _ = env.bindElement target element >>= m' := by rw [bind_map_left, hm]

mutual

/-- Nodes mean by the rounds of loops what they mean by the names that loops bind. -/
theorem meaning_inRound (round : Option Round) (env : Env) :
    (ns : List Node) → meaning (env.inRound round) ns = meaningIn round env ns
  | [] => rfl
  | n :: ns => by
    rw [meaning, meaningIn, nodeMeaning_inRound round env n, meaning_inRound round env ns]

theorem nodeMeaning_inRound (round : Option Round) (env : Env) :
    (n : Node) → nodeMeaning (env.inRound round) n = nodeMeaningIn round env n
  | .text s => rfl
  | .output e => rfl
  | .cond branches otherwise => by
    rw [nodeMeaning, nodeMeaningIn, optionalMeaning_inRound round env otherwise,
      branchMeaning_inRound round env _ branches]
  | .loop target iterable body empty => by
    have hb (length i : Nat) (element : Value) :
        ((env.inRound round).bindElement target element >>= fun inner =>
          meaning (inner.bind "loop" (loopInfo i length)) body) =
            env.bindElement target element >>= fun inner =>
              meaningIn (some ⟨i, length⟩) inner body :=
      element_inRound (m := fun env => meaning env body)
        (fun env => meaning_inRound (some ⟨i, length⟩) env body) env round target element
    rw [nodeMeaning, nodeMeaningIn]
    simp only [hb, optionalMeaning_inRound round env empty]

theorem branchMeaning_inRound (round : Option Round) (env : Env)
    (otherwise : Except RenderError String) :
    (branches : List (Expr × List Node)) →
      branchMeaning (env.inRound round) otherwise branches =
        branchMeaningIn round env otherwise branches
  | [] => rfl
  | (condition, body) :: branches => by
    rw [branchMeaning, branchMeaningIn, meaning_inRound round env body,
      branchMeaning_inRound round env otherwise branches]

theorem optionalMeaning_inRound (round : Option Round) (env : Env) :
    (nodes : Option (List Node)) →
      optionalMeaning (env.inRound round) nodes = optionalMeaningIn round env nodes
  | none => rfl
  | some nodes => meaning_inRound round env nodes

end

/-- The rounds of a loop, one for each item from first to last. -/
theorem renderRounds_eq (body : Scope → String → Except RenderError String) (scope : Scope)
    (target : Target) (length i : Nat) (items : List Value) (out : String) :
    renderRounds body scope target length i items out =
      (items.zipIdx i).foldlM (fun out (item, j) => do
        let frame ← roundFrame target item j length
        body (scope.push frame) out) out := by
  induction items generalizing i out with
  | nil => rfl
  | cons item items ih =>
    rw [renderRounds, List.zipIdx_cons, List.foldlM_cons]
    simp only [ih, bind_assoc]

theorem renderNode_loop {scope : Scope} {iterable : Expr} {v : Value} {items : List Value}
    (hv : eval scope.lookup iterable = .ok v) (hi : iterate v = .ok items) (hn : items ≠ [])
    (out : String) (target : Target) (body : List Node) (empty : Option (List Node)) :
    renderNode scope out (.loop target iterable body empty) =
      items.zipIdx.foldlM (fun out (item, i) => do
        let frame ← roundFrame target item i items.length
        renderNodes (scope.push frame) out body) out := by
  have he : items.isEmpty = false := by simpa using hn
  rw [renderNode, hv]
  change (iterate v >>= _) = _
  rw [hi]
  change (if items.isEmpty then _ else _) = _
  rw [he, if_neg Bool.false_ne_true, renderRounds_eq]

/-- `loop` in the frame of a round hides whatever else has that name. -/
theorem lookup_roundFrame {target : Target} {item : Value} {i length : Nat} {frame : Frame}
    (h : roundFrame target item i length = .ok frame) (scope : Scope) :
    ∃ env : Env, (scope.push frame).lookup = env.inRound (some ⟨i, length⟩) := by
  obtain ⟨f, _, rfl⟩ := roundFrame_ok h
  exact ⟨Frame.over f scope.lookup, by rw [lookup_push, over_insert, Env.inRound]⟩

/-- What `loop` tells in round number `i`. None of the subtractions goes below zero, so that they
are those of integers. -/
theorem loopInfo_eq {i length : Nat} (h1 : 1 ≤ i) (h : i ≤ length) :
    loopInfo (i - 1) length = .map [("index", .ofInt i), ("index0", .ofInt (i - 1)),
      ("first", .bool (i = 1)), ("last", .bool (i = length)), ("length", .ofInt length),
      ("revindex", .ofInt (length - i + 1)), ("revindex0", .ofInt (length - i))] := by
  obtain ⟨j, rfl⟩ := Nat.exists_eq_add_of_le' h1
  have hr : ((length - j : Nat) : Int) = length - (j + 1 : Nat) + 1 := by omega
  have hr0 : ((length - (j + 1) : Nat) : Int) = length - (j + 1 : Nat) := Int.ofNat_sub h
  have h0 : (j : Int) = (j + 1 : Nat) - 1 := by omega
  simp only [loopInfo, Value.ofNat, Nat.add_sub_cancel, hr, hr0, ← h0, Nat.add_eq_right]

/-- A count that a machine can hold is an integer and no float. -/
theorem ofInt_count {length : Nat} (hl : length < 2 ^ 63) {k : Int} (h : 0 ≤ k)
    (hk : k ≤ length) : ∃ n : Int64, Value.ofInt k = .int n ∧ n.toInt = k := by
  have hn : (Int64.ofInt k).toInt = k := by
    exact Int64.toInt_ofInt_of_le (by omega) (by omega)
  exact ⟨Int64.ofInt k, by rw [← hn, Value.ofInt_toInt, hn], hn⟩

/-- A loop renders its body once for each item, in order. In the round of item number `i` its body
means what it means in that round, in which `loop` tells this number and what follows from it, and
only the bodies of loops inside it are in rounds of their own. -/
theorem loop_tells_round {scope : Scope} {iterable : Expr} {v : Value} {items : List Value}
    (hv : eval scope.lookup iterable = .ok v) (hi : iterate v = .ok items) (hn : items ≠ [])
    (target : Target) (body : List Node) (empty : Option (List Node)) :
    (∀ out, renderNode scope out (.loop target iterable body empty) =
      items.zipIdx.foldlM (fun out (item, i) => do
        let frame ← roundFrame target item i items.length
        renderNodes (scope.push frame) out body) out) ∧
    (∀ i item frame, 1 ≤ i → items[i - 1]? = some item →
      roundFrame target item (i - 1) items.length = .ok frame →
      i ≤ items.length ∧
      (scope.push frame).lookup "loop" = some (.map [("index", .ofInt i),
        ("index0", .ofInt (i - 1)), ("first", .bool (i = 1)), ("last", .bool (i = items.length)),
        ("length", .ofInt items.length), ("revindex", .ofInt (items.length - i + 1)),
        ("revindex0", .ofInt (items.length - i))]) ∧
      ∀ out, renderNodes (scope.push frame) out body =
        writeTo out (meaningIn (some ⟨i - 1, items.length⟩) (scope.push frame).lookup body)) ∧
    (items.length < 2 ^ 63 → ∀ k : Int, 0 ≤ k → k ≤ items.length →
      ∃ n : Int64, Value.ofInt k = .int n ∧ n.toInt = k) := by
  refine ⟨fun out => renderNode_loop hv hi hn out target body empty, ?_,
    fun hl k h hk => ofInt_count hl h hk⟩
  intro i item frame h1 hitem hframe
  have hlt : i - 1 < items.length := (List.getElem?_eq_some_iff.1 hitem).1
  have hle : i ≤ items.length := Nat.le_of_pred_lt hlt
  obtain ⟨env, henv⟩ := lookup_roundFrame hframe scope
  refine ⟨hle, ?_, fun out => ?_⟩
  · rw [henv, Env.inRound, Env.bind, if_pos rfl, loopInfo_eq h1 hle]
  · have he : (env.inRound (some ⟨i - 1, items.length⟩)).inRound (some ⟨i - 1, items.length⟩) =
        env.inRound (some ⟨i - 1, items.length⟩) := inRound_under env _ _
    rw [renderNodes_writes, henv, ← meaning_inRound, he]

theorem loop_tells_round_nested :
    let scope : Scope := .ofParams [("xs", .seq [.int 10, .int 20]), ("ys", .seq [.null])]
    let told (key : String) : Node := .output (.path ⟨"loop", [.key key]⟩)
    let inner : Node := .loop (.single "y") (.path ⟨"ys", []⟩) [told "index"] none
    let items : List Value := [.int 10, .int 20]
    eval scope.lookup (.path ⟨"xs", []⟩) = .ok (.seq items) ∧ iterate (.seq items) = .ok items ∧
    items ≠ [] ∧ items.length < 2 ^ 63 ∧
    renderNode scope "" (.loop (.single "x") (.path ⟨"xs", []⟩)
      [told "index", inner, told "revindex"] none) = .ok "112211" ∧
    ∃ frame, roundFrame (.single "x") (.int 20) 1 2 = .ok frame ∧
      (scope.push frame).lookup "loop" = some (.map [("index", .int 2), ("index0", .int 1),
        ("first", .bool false), ("last", .bool true), ("length", .int 2), ("revindex", .int 1),
        ("revindex0", .int 0)]) ∧
      ∃ n : Int64, Value.ofInt 2 = .int n ∧ n.toInt = 2 := by
  intro scope told inner items
  have hv : eval scope.lookup (.path ⟨"xs", []⟩) = .ok (.seq items) := rfl
  have hn : items ≠ [] := List.cons_ne_nil _ _
  have hl : items.length < 2 ^ 63 := by decide
  obtain ⟨hfold, hround, hcount⟩ := loop_tells_round hv rfl hn (.single "x")
    [told "index", inner, told "revindex"] none
  have hlast := (hround 2 (.int 20) _ (by decide) rfl rfl).2.1
  exact ⟨hv, rfl, hn, hl, (hfold "").trans (by cbv), _, rfl, hlast.trans (by cbv),
    hcount hl 2 (by decide) (by decide)⟩

end Stencil.Render
