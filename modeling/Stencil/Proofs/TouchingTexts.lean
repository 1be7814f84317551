import Stencil.Proofs.Concatenation
import Stencil.Proofs.TextParts

/-! Texts next to each other. How a text is divided into tokens does not show: sources with the same
symbols, once the texts that touch are joined, are the same template. -/
namespace Stencil.Template

def prepend : Symbol → List Symbol → List Symbol
  | .text s, .text t :: ss => .text (s ++ t) :: ss
  | s, ss => s :: ss

def fuse (ss : List Symbol) : List Symbol := ss.foldr prepend []

theorem prepend_texts (s t : String) (ss : List Symbol) :
    prepend (.text s) (prepend (.text t) ss) = prepend (.text (s ++ t)) ss := by
  cases ss with
  | nil => rfl
  | cons a ss =>
    cases a with
    | text u => simp only [prepend, String.append_assoc]
    | _ => rfl

theorem fuse_append (xs ys : List Symbol) : fuse (xs ++ ys) = xs.foldr prepend (fuse ys) :=
  List.foldr_append

theorem fuse_join (ts us : List Token) :
    fuse (symbols (join ts us)) = fuse (symbols ts ++ symbols us) := by
  rcases join_cases ts us with hj | ⟨xs, s, p, v, q, ys, rfl, rfl, hj⟩
  · rw [hj, symbols, List.map_append]
    rfl
  · rw [hj]
    simp only [symbols, List.map_append, List.map_cons, List.map_nil, List.append_assoc,
      fuse_append]
    exact congrArg (List.foldr prepend · (xs.map Token.symbol)) (prepend_texts s v _).symm

/-! Symbols with the same texts, however divided, are the same letter by letter. -/

def letters (s : String) : List String := s.toList.map String.singleton

theorem letters_append (s t : String) : letters (s ++ t) = letters s ++ letters t := by
  simp [letters]

theorem join_letters (s : String) : String.join (letters s) = s := by
  apply String.toList_injective
  simp [letters, String.toList_join, List.flatMap_map]

def Symbol.parts (cut : String → List String) : Symbol → List Symbol
  | .text s => (cut s).map .text
  | s => [s]

theorem symbols_cut (cut : String → List String) (ts : List Token) :
    symbols (cutTokens cut ts) = (symbols ts).flatMap (Symbol.parts cut) := by
  rw [cutTokens, symbols, symbols, List.map_flatMap, List.flatMap_map]
  refine List.flatMap_congr fun t _ => ?_
  obtain ⟨s, p⟩ := t
  cases s with
  | text s => simp [Token.parts, Symbol.parts]
  | _ => rfl

theorem parts_prepend (s : Symbol) (ss : List Symbol) :
    (prepend s ss).flatMap (Symbol.parts letters) =
      (s :: ss).flatMap (Symbol.parts letters) := by
  cases ss with
  | nil => cases s <;> rfl
  | cons a ss =>
    cases s with
    | text s =>
      cases a with
      | text t => simp [prepend, Symbol.parts, letters_append]
      | _ => rfl
    | _ => rfl

theorem parts_fuse (ss : List Symbol) :
    (fuse ss).flatMap (Symbol.parts letters) = ss.flatMap (Symbol.parts letters) := by
  induction ss with
  | nil => rfl
  | cons s ss ih =>
    rw [List.flatMap_cons, ← ih]
    exact parts_prepend s (fuse ss)

/-- The nodes with each text in its letters, so that it does not show how texts are divided. -/
def letterTemplate (t : Template) : Template := ⟨cutNodes letters t.nodes⟩

theorem render_letterTemplate (t : Template) (params : Entries Value) :
    (letterTemplate t).render params = t.render params := by
  simp only [letterTemplate, render, Render.renderNodes_writes,
    Render.meaning_cutNodes join_letters]

def placeless {α : Type} (x : Except ParseError α) : Except String α :=
  x.mapError ParseError.message

theorem placeless_movedBy {α : Type} (f : Pos → Pos) (x : Except ParseError α) :
    placeless (movedBy f id x) = placeless x := by
  cases x <;> rfl

theorem placeless_map {α β : Type} (f : α → β) (x : Except ParseError α) :
    placeless (x.map f) = (placeless x).map f := by
  cases x <;> rfl

/-- Only the symbols matter to the reader. -/
theorem parse_congr {ts us : List Token} (h : symbols ts = symbols us) :
    placeless (parse ts) = placeless (parse us) := by
  have hs (ts : List Token) : ts.map (Token.moved fun _ => .start) =
      (symbols ts).map fun s => ⟨s, .start⟩ := by
    rw [symbols, List.map_map]
    rfl
  rw [← placeless_movedBy (fun _ => .start), ← parse_moved, hs, h, ← hs, parse_moved,
    placeless_movedBy]

/-- Texts that touch are read as one, however they are divided. -/
theorem parse_fused {ts us : List Token} (ht : Stream ts) (hu : Stream us)
    (h : fuse (symbols ts) = fuse (symbols us)) :
    placeless ((parse ts).map (cutNodes letters)) =
      placeless ((parse us).map (cutNodes letters)) := by
  rw [← parse_cut letters ht, ← parse_cut letters hu]
  refine parse_congr ?_
  rw [symbols_cut, symbols_cut, ← parts_fuse, h, parts_fuse]

theorem ofSource_fused {o : Options} {source other : String}
    (h : placeless ((tokenize o source).map (fuse ∘ symbols)) =
      placeless ((tokenize o other).map (fuse ∘ symbols))) :
    placeless ((ofSource o source).map letterTemplate) =
      placeless ((ofSource o other).map letterTemplate) := by
  have read {source : String} {ts : List Token} (ht : tokenize o source = .ok ts) :
      placeless ((ofSource o source).map letterTemplate) =
        (placeless ((parse ts).map (cutNodes letters))).map Template.mk := by
    rw [ofSource, ht]
    dsimp only
    cases parse ts <;> rfl
  cases hx : tokenize o source with
  | error e =>
    cases hy : tokenize o other with
    | error e' =>
      rw [hx, hy] at h
      rw [ofSource, ofSource, hx, hy]
      simpa [placeless, Except.map, Except.mapError] using h
    | ok us =>
      rw [hx, hy] at h
      cases h
  | ok ts =>
    cases hy : tokenize o other with
    | error e =>
      rw [hx, hy] at h
      cases h
    | ok us =>
      rw [hx, hy] at h
      rw [read hx, read hy,
        parse_fused (tokenize_stream hx) (tokenize_stream hy) (Except.ok.inj h)]

/-- Sources of the same letters render to the same text, or fail in the same way. -/
theorem render_letters {o : Options} {source other : String}
    (h : placeless ((ofSource o source).map letterTemplate) =
      placeless ((ofSource o other).map letterTemplate)) (params : Entries Value) :
    placeless ((ofSource o source).map (·.render params)) =
      placeless ((ofSource o other).map (·.render params)) := by
  have through (x : Except ParseError Template) :
      placeless (x.map (·.render params)) =
        (placeless (x.map letterTemplate)).map (·.render params) := by
    rw [← placeless_map]
    cases x with
    | error e => rfl
    | ok t => exact congrArg Except.ok (render_letterTemplate t params).symm
  rw [through, through, h]

end Stencil.Template
