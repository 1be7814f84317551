import Stencil.Render.Nodes

/-! How far a path leads. Its segments are taken one after another, and the first that leads nowhere
decides how the path fails, whatever stands after it. -/
namespace Stencil

namespace Template

def Path.upTo (p : Path) (k : Nat) : Path := ⟨p.root, p.segments.take k⟩

def Path.further (p : Path) (more : List Segment) : Path := ⟨p.root, p.segments ++ more⟩

variable {p : Path} {k : Nat}

end Template

namespace Render

open Template (Path Segment)

inductive Leads : Value → List Segment → Value → Prop where
  | done (v : Value) : Leads v [] v
  | next {v w u : Value} {s : Segment} {rest : List Segment} :
      step v s = .ok (some w) → Leads w rest u → Leads v (s :: rest) u

/-- How a path fails at its first `k` segments, when fewer of them lead to a value. -/
inductive FailsAt (env : Env) (p : Path) : Nat → RenderError → Prop where
  | unbound : env p.root = none → FailsAt env p 0 (.undefined (p.upTo 0))
  | missing {k : Nat} {v : Value} {s : Segment} : resolve env (p.upTo k) = .ok v →
      p.segments[k]? = some s → (∀ m, s ≠ .method m) → lookup? v s = none →
      FailsAt env p (k + 1) (.undefined (p.upTo (k + 1)))
  | notMap {k : Nat} {v : Value} {m : Template.Method} : resolve env (p.upTo k) = .ok v →
      p.segments[k]? = some (.method m) → v.kind ≠ .mapping →
      FailsAt env p (k + 1) (.typeError (.method m) (.value v.kind))

variable {env : Env} {p : Path} {k : Nat} {v : Value}

theorem follow_ok {reached : Path} {l : List Segment} {u : Value} :
    follow reached v l = .ok u ↔ Leads v l u := by
  induction l generalizing reached v with
  | nil =>
    rw [follow]
    constructor
    · rintro ⟨⟩
      exact .done _
    · rintro ⟨⟩
      rfl
  | cons s rest ih =>
    rw [follow]
    constructor
    · intro h
      cases hs : step v s with
      | error e =>
        rw [hs] at h
        cases h
      | ok next =>
        rw [hs] at h
        cases next with
        | none => cases h
        | some w => exact .next hs (ih.1 h)
    · rintro (_ | ⟨hs, hr⟩)
      rw [hs]
      exact ih.2 hr

theorem follow_append (reached : Path) (v : Value) (l more : List Segment) :
    follow reached v (l ++ more) =
      follow reached v l >>= fun w => follow (reached.further l) w more := by
  induction l generalizing reached v with
  | nil =>
    have hr : reached.further [] = reached := by rw [Path.further, List.append_nil]
    rw [hr]
    rfl
  | cons s l ih =>
    rw [List.cons_append, follow, follow]
    cases step v s with
    | error e => rfl
    | ok next =>
      cases next with
      | none => rfl
      | some w =>
        dsimp only
        rw [ih, Path.further, Path.further, List.append_assoc]
        rfl

/-- A longer path goes on from where the shorter one leads. -/
theorem resolve_further (env : Env) (p : Path) (more : List Segment) :
    resolve env (p.further more) = resolve env p >>= fun v => follow p v more := by
  rw [resolve, resolve, Path.further]
  cases env p.root with
  | none => rfl
  | some v => exact follow_append ⟨p.root, []⟩ v p.segments more

theorem FailsAt.text {e : RenderError} {q : Path} (h : FailsAt env p k e) (he : e = .undefined q) :
    q.text = p.root ++ String.join ((p.segments.take k).map Segment.text) := by
  cases h with
  | unbound => cases he; rfl
  | missing => cases he; rfl
  | notMap => cases he

/-- Nothing after the first missing segment is looked at. -/
example : resolve (Scope.ofParams [("user", .map [("name", .string "Ana")])]).lookup
    ⟨"user", [.key "address", .key "city", .method .items]⟩ =
      .error (.undefined ⟨"user", [.key "address"]⟩) := rfl

end Render
end Stencil
