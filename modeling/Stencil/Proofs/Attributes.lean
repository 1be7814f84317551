import Stencil.Proofs.PathPrefixes
import Stencil.Proofs.PathReading

/-! A word after a dot and the same word in brackets. Both take one entry of what the path before
them leads to, and the word is the key of the entry, unless it is a capitalized constant that stands
after a dot. -/
namespace Stencil.Template

def Path.entry (path : Path) (key : String) : Path := ⟨path.root, path.segments ++ [.key key]⟩

/-- The key that a word after a dot stands for. Of the two spellings of a constant only the one in
small letters is left. -/
def attributeKey : String → String
  | "True" => "true"
  | "False" => "false"
  | "None" => "none"
  | w => w

variable {p w : String} {path : Path} {k : Keyword}

theorem attributeKey_plain (h : w ∉ ["True", "False", "None"]) : attributeKey w = w := by
  simp only [List.mem_cons, List.not_mem_nil, or_false, not_or] at h
  exact attributeKey.eq_4 w h.1 h.2.1 h.2.2

theorem ofWord?_plain (h : w ∉ ["True", "False", "None"]) :
    Keyword.ofWord? w = Keyword.all.find? (·.spelling = w) := by
  simp only [List.mem_cons, List.not_mem_nil, or_false, not_or] at h
  exact Keyword.ofWord?.eq_4 w h.1 h.2.1 h.2.2

/-- What the lexer makes of a word, a name or a keyword, has the key in its spelling. -/
theorem attributeKey_ofWord? (w : String) :
    attributeKey w = (Keyword.ofWord? w).elim w Keyword.spelling := by
  by_cases h : w ∈ ["True", "False", "None"]
  · simp only [List.mem_cons, List.not_mem_nil, or_false] at h
    rcases h with rfl | rfl | rfl <;> rfl
  · rw [attributeKey_plain h, ofWord?_plain h]
    cases hk : Keyword.all.find? (·.spelling = w) with
    | none => rfl
    | some k =>
      have hs := List.find?_some hk
      exact (of_decide_eq_true hs).symm

theorem quoted_name {cs : List Char} (h : isName cs) : Quoted '\'' cs cs := by
  have hc : ∀ c ∈ cs, (c = '_' || Unicode.isAlphanumeric c) = true := by
    cases cs with
    | nil => cases h
    | cons c cs =>
      obtain ⟨hf, hr⟩ := Bool.and_eq_true_iff.1 h
      intro d hd
      rcases List.mem_cons.1 hd with rfl | hd
      · simp only [Bool.or_eq_true] at hf
        simpa [Unicode.isAlphanumeric] using hf.imp_right .inl
      · exact List.all_eq_true.1 hr d hd
  clear h
  induction cs with
  | nil => exact .nil
  | cons c cs ih =>
    obtain ⟨hf, hr⟩ := List.forall_mem_cons.1 hc
    refine .char ?_ ?_ (ih hr)
    · rintro rfl
      exact absurd hf (by decide)
    · rintro rfl
      exact absurd hf (by decide)

theorem spelling_name (h : isName w.toList) :
    Spelling ((Keyword.ofWord? w).elim (.word w) .keyword) w.toList := by
  cases hk : Keyword.ofWord? w with
  | none =>
    have hs := Spelling.word h (by rwa [String.ofList_toList])
    rwa [String.ofList_toList] at hs
  | some k => exact .keyword h (by rwa [String.ofList_toList])

theorem IsPath.append {ss : List Symbol} {l : List Segment} {more : String} (h : IsPath p path)
    (hl : Steps ss l) (hs : SpelledOut ss more.toList) :
    IsPath (p ++ more) ⟨path.root, path.segments ++ l⟩ := by
  obtain ⟨s, hsteps, hspell⟩ := h
  refine ⟨s ++ ss, hsteps.append hl, ?_⟩
  rw [String.toList_append]
  exact hspell.append hs

theorem spelledOut_nil : SpelledOut [] [] := .nil (List.forall_mem_nil _)

theorem IsPath.quoted (h : IsPath p path) (hw : Quoted '\'' w.toList w.toList) :
    IsPath (p ++ "['" ++ w ++ "']") (path.entry w) := by
  have hq : Spelling (.string w) ('\'' :: w.toList ++ ['\'']) := by
    have hs := Spelling.string (.inr rfl) hw
    rwa [String.ofList_toList] at hs
  have hs : SpelledOut [.leftBracket, .string w, .rightBracket] ("['" ++ w ++ "']").toList := by
    have hs := SpelledOut.lexeme .leftBracket (.lexeme hq (.lexeme .rightBracket spelledOut_nil))
    simpa using hs
  have he : p ++ "['" ++ w ++ "']" = p ++ ("['" ++ w ++ "']") := by
    simp only [String.append_assoc]
  rw [he]
  exact h.append (.key w .done) hs

theorem IsPath.bracket (h : IsPath p path) (hw : isName w.toList) :
    IsPath (p ++ "['" ++ w ++ "']") (path.entry w) :=
  h.quoted (quoted_name hw)

theorem IsPath.attribute (h : IsPath p path) (hw : isName w.toList) :
    IsPath (p ++ "." ++ w) (path.entry (attributeKey w)) := by
  have hs : SpelledOut [.dot, (Keyword.ofWord? w).elim (.word w) .keyword] ("." ++ w).toList := by
    have hs := SpelledOut.lexeme .dot (.lexeme (spelling_name hw) spelledOut_nil)
    simpa using hs
  have hl : Steps [.dot, (Keyword.ofWord? w).elim (.word w) .keyword] [.key (attributeKey w)] := by
    rw [attributeKey_ofWord?]
    cases Keyword.ofWord? w with
    | none => exact .name w .done
    | some k => exact .keyword k .done
  rw [String.append_assoc]
  exact h.append hl hs

end Stencil.Template

namespace Stencil.Render

open Template

def entryAt (env : Env) (path : Path) (key : String) : Except RenderError Value :=
  match resolve env path with
  | .error e => .error e
  | .ok v =>
    match lookup? v (.key key) with
    | some found => .ok found
    | none => .error (.undefined (path.entry key))

def entryText (params : Entries Value) (path : Path) (key : String) :
    Except RenderError String := do
  outputText (← entryAt (Scope.ofParams params).lookup path key)

theorem resolve_entry (env : Env) (path : Path) (key : String) :
    resolve env (path.entry key) = entryAt env path key := by
  have hp : path.entry key = path.further [.key key] := rfl
  rw [hp, resolve_further, entryAt]
  cases resolve env path with
  | error e => rfl
  | ok v =>
    have hs : step v (.key key) = .ok (lookup? v (.key key)) := rfl
    change follow path v [.key key] = _
    rw [follow, hs]
    dsimp only
    cases lookup? v (.key key) <;> rfl

theorem render_entry (params : Entries Value) (path : Path) (key : String) :
    Template.render ⟨[.output (.path (path.entry key))]⟩ params = entryText params path key := by
  rw [Template.render, renderNodes, renderNode, eval, resolve_entry, entryText]
  cases entryAt (Scope.ofParams params).lookup path key with
  | error e => rfl
  | ok v =>
    have ho (text : Except RenderError String) :
        ((do pure ("" ++ (← text))) >>= (renderNodes (.ofParams params) · [])) = text := by
      cases text with
      | error e => rfl
      | ok s => exact congrArg Except.ok String.empty_append
    exact ho (outputText v)

end Stencil.Render

namespace Stencil.Template

open Render (entryText)

/-- The tag around a path with a word in brackets puts out the entry of that key, and with the word
after a dot it does the same, unless the word is a constant with a capital. -/
theorem attribute_reads_entry (o : Options) {p w : String} {path : Path} (hp : IsPath p path)
    (hw : isName w.toList) :
    (∃ t, ofSource o (outputTag (p ++ "['" ++ w ++ "']")) = .ok t ∧
      ∀ params, t.render params = entryText params path w) ∧
    (∃ t, ofSource o (outputTag (p ++ "." ++ w)) = .ok t ∧
      ∀ params, t.render params = entryText params path (attributeKey w)) ∧
    (w ∉ ["True", "False", "None"] → attributeKey w = w) :=
  ⟨⟨_, ofSource_path o (hp.bracket hw), fun params => Render.render_entry params path w⟩,
    ⟨_, ofSource_path o (hp.attribute hw), fun params => Render.render_entry params path _⟩,
    attributeKey_plain⟩

theorem isPath_root (name : String) (hn : isName name.toList)
    (hk : Keyword.ofWord? name = none) : IsPath name ⟨name, []⟩ := by
  have hs := SpelledOut.lexeme (spelling_name hn) spelledOut_nil
  rw [hk, List.append_nil] at hs
  exact ⟨[], .done, hs⟩

theorem attribute_reads_entry_in :
    IsPath "m" ⟨"m", []⟩ ∧ isName "in".toList ∧
    (∃ t, ofSource ⟨true, true⟩ "\x7b\x7b m['in'] \x7d\x7d" = .ok t ∧
      t.render [("m", .map [("in", .int 1)])] = .ok "1") ∧
    ∃ t, ofSource ⟨true, true⟩ "\x7b\x7b m.in \x7d\x7d" = .ok t ∧
      t.render [("m", .map [("in", .int 1)])] = .ok "1" := by
  have hp : IsPath "m" ⟨"m", []⟩ := isPath_root "m" (by decide) (by decide)
  have hw : isName "in".toList := by decide
  obtain ⟨⟨t, ht, hr⟩, ⟨u, hu, hs⟩, -⟩ := attribute_reads_entry ⟨true, true⟩ hp hw
  exact ⟨hp, hw, ⟨t, ht, (hr _).trans rfl⟩, u, hu, (hs _).trans rfl⟩

/-- The map has an entry with a capitalized constant for its key. In brackets the word leads to it,
and after a dot it does not. -/
theorem capitalized_constant_lost :
    isName "True".toList ∧
    (∃ t, ofSource ⟨true, true⟩ "\x7b\x7b m['True'] \x7d\x7d" = .ok t ∧
      t.render [("m", .map [("True", .int 1)])] = .ok "1") ∧
    ∃ t, ofSource ⟨true, true⟩ "\x7b\x7b m.True \x7d\x7d" = .ok t ∧
      t.render [("m", .map [("True", .int 1)])] = .error (.undefined ⟨"m", [.key "true"]⟩) := by
  have hp : IsPath "m" ⟨"m", []⟩ := isPath_root "m" (by decide) (by decide)
  have hw : isName "True".toList := by decide
  refine ⟨hw, ⟨_, ofSource_path _ (hp.bracket hw), ?_⟩, _, ofSource_path _ (hp.attribute hw), ?_⟩
  · exact (Render.render_entry _ _ _).trans rfl
  · exact (Render.render_entry _ _ _).trans rfl

end Stencil.Template
