import Stencil.Proofs.LoopVariables

/-! Another name for the item of a loop. The name may be any that the body does not mention; the
body then says it wherever the old one meant the item, and the loop goes as before in every scope,
whatever the two names stand for outside of it. -/
namespace Stencil.Template

def Path.renamed (x y : String) (p : Path) : Path := if p.root = x then ⟨y, p.segments⟩ else p

/-- The nodes with `y` for `x` at the root of each path, but not in the body of a loop that gives
the name `x` itself. -/
def renamed (x y : String) : List Node → List Node :=
  substitute (fun p => .path (p.renamed x y)) fun target => x ∉ target.names

end Stencil.Template

namespace Stencil.Render

open Template (Node Expr Path Segment Target mentioned renamed freeNames)

variable {α : Type} {x y : String}

/-- The results are the same, or both are failures on a path, which starts from `x` in the first and
from `y` in the second. -/
inductive SameUpTo (x y : String) : Except RenderError α → Except RenderError α → Prop where
  | same (r : Except RenderError α) : SameUpTo x y r r
  | undefined (segments : List Segment) :
      SameUpTo x y (.error (.undefined ⟨x, segments⟩)) (.error (.undefined ⟨y, segments⟩))

theorem stepwise_sameUpTo (x y : String) : Stepwise fun _ => SameUpTo x y where
  refl := .same
  bind := by
    intro α β r r' f g h hf
    cases h with
    | undefined segments => exact .undefined segments
    | same r =>
      cases r with
      | error e => exact .same _
      | ok a => exact hf a rfl

theorem SameUpTo.eq_ok {a : α} {r r' : Except RenderError α} (h : SameUpTo x y r r')
    (hr : r = .ok a) : r' = .ok a := by
  cases h with
  | same => exact hr
  | undefined => cases hr

/-- A path from one root fails where the path from another does, if both start at one value. -/
theorem follow_sameUpTo (reached segments : List Segment) (v : Value) :
    SameUpTo x y (follow ⟨x, reached⟩ v segments) (follow ⟨y, reached⟩ v segments) := by
  induction segments generalizing reached v with
  | nil => exact .same _
  | cons s rest ih =>
    rw [follow, follow]
    cases step v s with
    | error e => exact .same _
    | ok next =>
      cases next with
      | none => exact .undefined _
      | some w => exact ih _ w

structure Renames (x y : String) (s s' : Scope) : Prop where
  root : s'.lookup y = s.lookup x
  others : ∀ n, n ≠ x → n ≠ y → s'.lookup n = s.lookup n

theorem Renames.resolve {s s' : Scope} (h : Renames x y s s') {p : Path} (hp : p.root ≠ y) :
    SameUpTo x y (resolve s.lookup p) (resolve s'.lookup (p.renamed x y)) := by
  rw [Path.renamed]
  by_cases hx : p.root = x
  · rw [if_pos hx, Render.resolve, Render.resolve, h.root, hx]
    cases s.lookup x with
    | none => exact .undefined []
    | some v => exact follow_sameUpTo [] p.segments v
  · rw [if_neg hx, Render.resolve, Render.resolve, h.others p.root hx hp]
    exact .same _

/-- A loop that gives neither name changes nothing about them. -/
theorem Renames.push {s s' : Scope} (h : Renames x y s s') {frame : Frame}
    (hx : Entries.get? frame x = none) (hy : Entries.get? frame y = none) :
    Renames x y (s.push frame) (s'.push frame) := by
  constructor
  · simp only [lookup_push, Frame.over, hx, hy, Option.none_or, h.root]
  · intro n hnx hny
    simp only [lookup_push, Frame.over, h.others n hnx hny]

/-- A loop that gives the name `x` itself makes all names but `y` stand for the same. -/
theorem Renames.push_hiding {s s' : Scope} (h : Renames x y s s') {frame : Frame}
    (hx : Entries.get? frame x ≠ none) {n : String} (hn : n ≠ y) :
    (s.push frame).lookup n = (s'.push frame).lookup n := by
  simp only [lookup_push, Frame.over]
  by_cases hnx : n = x
  · obtain ⟨v, hv⟩ := Option.ne_none_iff_exists'.1 hx
    rw [hnx, hv]
    rfl
  · rw [h.others n hnx hn]

theorem renderNodes_congr {s s' : Scope} {ns : List Node}
    (h : ∀ n ∈ freeNames ns, s.lookup n = s'.lookup n) (out : String) :
    renderNodes s out ns = renderNodes s' out ns := by
  have hc : Covers s.lookup s'.lookup (freeNames ns) := fun n hn => .inr (h n hn)
  rcases renderNodes_covered hc out ns (List.Subset.refl _) with he | ⟨n, hn, hl, hr, _⟩
  · exact he
  · exact absurd ((h n hn).symm.trans hl) hr

theorem carries_renamed (hx : x ≠ "loop") (hy : y ≠ "loop") {names : List String}
    (hn : y ∉ names) :
    Carries (fun _ => SameUpTo x y) (fun p => .path (p.renamed x y))
      (fun target => x ∉ target.names) names (Renames x y) where
  path h hp := h.resolve fun he => hn (he ▸ hp)
  enter := by
    intro s s' target item i length frame h hent ht hf
    have hxt : x ∉ target.names := of_decide_eq_true hent
    have hyt : y ∉ target.names := fun hm => hn (ht hm)
    exact h.push (get?_roundFrame_none hf hxt hx) (get?_roundFrame_none hf hyt hy)
  leave := by
    intro s s' target item i length frame body h hent hb hf out
    have hxt : x ∈ target.names := by simpa using of_decide_eq_false hent
    have hbound : x ∈ target.bound := by
      cases target with
      | single name => exact List.mem_cons_of_mem _ hxt
      | unpack names => exact List.mem_cons_of_mem _ hxt
    have hcongr : renderNodes (s.push frame) out body = renderNodes (s'.push frame) out body := by
      refine renderNodes_congr (fun n hm => ?_) out
      refine h.push_hiding (roundFrame_binds hf hbound) ?_
      rintro rfl
      exact hn (hb (freeNames_mentioned body hm))
    rw [hcongr]
    exact .same _

/-- In a round of the loop and of the loop with the other name, the two names stand for the item. -/
theorem renames_round (hx : x ≠ "loop") (hy : y ≠ "loop") {item : Value} {i length : Nat}
    {f f' : Frame} (hf : roundFrame (.single x) item i length = .ok f)
    (hf' : roundFrame (.single y) item i length = .ok f') (scope : Scope) :
    Renames x y (scope.push f) (scope.push f') := by
  have hdx : (Target.single x).names.Nodup := List.nodup_singleton x
  have hdy : (Target.single y).names.Nodup := List.nodup_singleton y
  have hfx := get?_roundFrame hdx hf (.item x item) hx
  have hfy := get?_roundFrame hdy hf' (.item y item) hy
  constructor
  · simp only [lookup_push, Frame.over, hfx, hfy, Option.some_or]
  · intro n hnx hny
    simp only [lookup_push, Frame.over]
    by_cases hl : n = "loop"
    · obtain ⟨_, _, rfl⟩ := roundFrame_ok hf
      obtain ⟨_, _, rfl⟩ := roundFrame_ok hf'
      simp only [Entries.get?_insert, if_pos hl]
    · have hxn : n ∉ (Target.single x).names := fun hm => hnx (List.mem_singleton.1 hm)
      have hyn : n ∉ (Target.single y).names := fun hm => hny (List.mem_singleton.1 hm)
      rw [get?_roundFrame_none hf hxn hl, get?_roundFrame_none hf' hyn hl]

/-- A loop may give its items another name that its body does not mention. In every scope it puts
out the same or fails in the same way, only that a path from the old name now starts from the new
one. -/
theorem loop_variable_renamed (hx : x ≠ "loop") (hy : y ≠ "loop") {body : List Node}
    (hb : y ∉ mentioned body) (scope : Scope) (out : String) (iterable : Expr)
    (empty : Option (List Node)) :
    SameUpTo x y (renderNode scope out (.loop (.single x) iterable body empty))
      (renderNode scope out (.loop (.single y) iterable (renamed x y body) empty)) := by
  have hR := stepwise_sameUpTo x y
  rw [renderNode, renderNode]
  refine hR.bind (.same _) fun v _ => hR.bind (.same _) fun items _ => ?_
  split
  · exact .same _
  · refine renderRounds_stepwise hR (fun item i out => ?_) items 0 out
    obtain ⟨f, hf⟩ := roundFrame_of_takes (.single x item) i items.length
    obtain ⟨f', hf'⟩ := roundFrame_of_takes (.single y item) i items.length
    rw [hf, hf']
    exact renderNodes_substitute hR (carries_renamed hx hy hb) (renames_round hx hy hf hf' scope)
      out body (List.Subset.refl _)

/-- The loop inside gives the old name anew, so that its body keeps it; its items and its other body
take the new one, which outside of both loops is the name of a parameter. -/
theorem loop_variable_renamed_nested :
    let body : List Node := [.loop (.single "x") (.path ⟨"x", [.key "parts"]⟩)
      [.output (.path ⟨"x", []⟩)] (some [.output (.path ⟨"x", [.key "name"]⟩)])]
    let other : List Node := [.loop (.single "x") (.path ⟨"y", [.key "parts"]⟩)
      [.output (.path ⟨"x", []⟩)] (some [.output (.path ⟨"y", [.key "name"]⟩)])]
    let rows : Expr := .path ⟨"rows", []⟩
    let scope : Scope := .ofParams [("y", .string "outside"), ("rows", .seq [
      .map [("parts", .seq [.string "a", .string "b"])],
      .map [("parts", .seq []), ("name", .string "c")]])]
    "x" ≠ "loop" ∧ "y" ≠ "loop" ∧ "y" ∉ mentioned body ∧ renamed "x" "y" body = other ∧
    renderNode scope "" (.loop (.single "x") rows body none) = .ok "abc" ∧
    renderNode scope "" (.loop (.single "y") rows other none) = .ok "abc" ∧
    renderNode (.ofParams [("rows", .seq [.null])]) "" (.loop (.single "x") rows body none) =
      .error (.undefined ⟨"x", [.key "parts"]⟩) ∧
    renderNode (.ofParams [("rows", .seq [.null])]) "" (.loop (.single "y") rows other none) =
      .error (.undefined ⟨"y", [.key "parts"]⟩) := by
  intro body other rows scope
  have hx : "x" ≠ "loop" := by decide
  have hy : "y" ≠ "loop" := by decide
  have hb : "y" ∉ mentioned body := by decide
  have ho : renamed "x" "y" body = other := rfl
  have hok : renderNode scope "" (.loop (.single "x") rows body none) = .ok "abc" := by cbv
  have hsame := loop_variable_renamed hx hy hb scope "" rows none
  rw [ho] at hsame
  exact ⟨hx, hy, hb, ho, hok, hsame.eq_ok hok, by cbv, by cbv⟩

end Stencil.Render
