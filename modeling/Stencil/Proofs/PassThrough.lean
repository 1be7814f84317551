import Stencil.Proofs.Concatenation

/-! Text and data come through untouched. A template of texts with variables between them renders
to the texts with the values between them, under every setting of the options, whatever the values
hold. -/
namespace Stencil.Template

def filled (write : String → String) (first : String) : List (String × String) → String
  | [] => first
  | (name, next) :: slots => first ++ write name ++ filled write next slots

def outputTag (name : String) : String := "\x7b\x7b " ++ name ++ " \x7d\x7d"

def Unmarked (s : String) : Prop := ∀ d ∈ ["\x7b\x7b", "\x7b%", "\x7b#"], ¬ d.toList <:+: s.toList

/-- Names of variables between texts without opening delimiters, where no text before a tag ends
in a brace that would open it. -/
def Fillable (first : String) : List (String × String) → Prop
  | [] => Unmarked first
  | (name, next) :: slots =>
    (Unmarked first ∧ ¬ ['{'] <:+ first.toList) ∧
      (isName name.toList ∧ Keyword.ofWord? name = none) ∧ Fillable next slots

instance (s : String) : Decidable (Unmarked s) :=
  inferInstanceAs (Decidable (∀ d ∈ ["\x7b\x7b", "\x7b%", "\x7b#"], ¬ d.toList <:+: s.toList))

instance decidableFillable (first : String) :
    (slots : List (String × String)) → Decidable (Fillable first slots)
  | [] => inferInstanceAs (Decidable (Unmarked first))
  | (_, next) :: slots =>
    have := decidableFillable next slots
    inferInstanceAs (Decidable (_ ∧ _ ∧ _))

def textSymbols (s : String) : List Symbol := if s = "" then [] else [.text s]

def filledSymbols (first : String) : List (String × String) → List Symbol
  | [] => textSymbols first
  | (name, next) :: slots =>
    textSymbols first ++
      (.opening .output :: .word name :: .closing .output :: filledSymbols next slots)

def textNodes (s : String) : List Node := if s = "" then [] else [.text s]

def filledNodes (first : String) : List (String × String) → List Node
  | [] => textNodes first
  | (name, next) :: slots =>
    textNodes first ++ (.output (.path ⟨name, []⟩) :: filledNodes next slots)

variable {gs rest : List Glyph} {o : Options} {before after : List Piece}

theorem plain_of_unmarked {s : String} (hs : Unmarked s) (h : gs.map Glyph.char = s.toList)
    (hr : rest = [] ∨ ¬ ['{'] <:+ s.toList) : Plain gs rest := by
  by_cases hn : s = ""
  · rw [hn, String.toList_empty, List.map_eq_nil_iff] at h
    rw [h]
    exact plain_nil
  · exact plain_of_isText ⟨hn, hs⟩ h hr

theorem textTokens_symbols {s : String} (h : gs.map Glyph.char = s.toList) :
    (textTokens gs).map Token.symbol = textSymbols s := by
  cases gs with
  | nil =>
    have hs : s = "" := String.toList_eq_nil_iff.1 h.symm
    rw [hs]
    rfl
  | cons g gs =>
    have hs : s ≠ "" := by
      rintro rfl
      cases h
    rw [textTokens, textOf, h, String.ofList_toList, textSymbols, if_neg hs]
    rfl

/-- White space goes only next to block tags and comments. -/
theorem kept_between (hb : before.getLast?.any Piece.isBlock = false)
    (ha : after.head?.any Piece.isBlock = false) : kept o before gs after = gs := by
  have ht : trimmed o before gs after = gs := by
    rw [trimmed, trims, hb]
    simp
  rw [kept, ht, ha]
  simp

theorem outputTag_written (name : String) :
    outputTag name = Part.written 1 (.tag .output [.word name]) := by
  apply String.toList_injective
  simp [outputTag, Part.written, Tag.opener, Tag.closer, spaced, Symbol.written]

theorem layout_filled (first : String) (slots : List (String × String))
    (h : Fillable first slots) (hg : gs.map Glyph.char = (filled outputTag first slots).toList) :
    ∃ ps, Layout gs ps ∧ ∀ o before, before.getLast?.any Piece.isBlock = false →
      (settled o before ps).map Token.symbol = filledSymbols first slots := by
  induction slots generalizing first gs with
  | nil =>
    refine ⟨[.text gs], .last (plain_of_unmarked h hg (.inl rfl)), ?_⟩
    intro o before hb
    rw [settled, settled, List.append_nil, kept_between hb rfl]
    exact textTokens_symbols hg
  | cons slot slots ih =>
    obtain ⟨name, next⟩ := slot
    obtain ⟨⟨hu, he⟩, hw, hf⟩ := h
    rw [filled, String.toList_append, String.toList_append, List.append_assoc] at hg
    obtain ⟨text, more, rfl, ht, hm⟩ := List.map_eq_append_iff.1 hg
    obtain ⟨tag, more, rfl, hk, hm⟩ := List.map_eq_append_iff.1 hm
    obtain ⟨ps, hl, hs⟩ := ih next hf hm
    have hi : ∀ s ∈ [Symbol.word name], s.IsInner := by
      intro s hs
      rw [List.mem_singleton.1 hs]
      exact hw
    rw [outputTag_written] at hk
    obtain ⟨g, k, body, tokens, rfl, ho, hr, hsym⟩ := readOpened_written hi hk more
    refine ⟨.text text :: .tag .output tokens :: ps, ?_, ?_⟩
    · exact .tag (plain_of_unmarked hu ht (.inr he)) ho hr hl
    · intro o before hb
      have hs := hs o (before ++ [.text text] ++ [.tag .output tokens]) (by simp [Piece.isBlock])
      rw [settled, settled, kept_between hb rfl, List.map_append, List.map_append,
        textTokens_symbols ht, hsym, hs]
      rfl

theorem tokenize_filled (o : Options) {first : String} {slots : List (String × String)}
    (h : Fillable first slots) :
    ∃ ts, tokenize o (filled outputTag first slots) = .ok ts ∧
      symbols ts = filledSymbols first slots := by
  obtain ⟨ps, hl, hs⟩ := layout_filled first slots h (map_char_locate Pos.start _)
  exact ⟨_, tokenize_of_layout o hl, hs o [] rfl⟩

theorem textNodes_phrase (s : String) : NodesPhrase (textSymbols s) (textNodes s) := by
  rw [textSymbols, textNodes]
  split
  · exact .nil
  · exact .cons (.text s) .nil

theorem variable_phrase (name : String) :
    NodePhrase [.opening .output, .word name, .closing .output] (.output (.path ⟨name, []⟩)) := by
  have hp : Phrase .primary [.word name] (.path ⟨name, []⟩) := .path name .done
  exact .output (.conjunction (.negation (.comparison (.filtered (.primary hp)))))

theorem filledNodes_phrase (first : String) (slots : List (String × String)) :
    NodesPhrase (filledSymbols first slots) (filledNodes first slots) := by
  induction slots generalizing first with
  | nil => exact textNodes_phrase first
  | cons slot slots ih =>
    obtain ⟨name, next⟩ := slot
    exact (textNodes_phrase first).append (.cons (variable_phrase name) (ih next))

end Stencil.Template

namespace Stencil.Render

open Template

variable {params : Entries Value} {value : String → String}

theorem render_textNodes (s out : String) :
    renderNodes (.ofParams params) out (textNodes s) = .ok (out ++ s) := by
  rw [textNodes]
  split
  · rename_i hs
    rw [hs, String.append_empty]
    rfl
  · rfl

theorem render_variable {name s : String} (h : Entries.get? params name = some (.string s))
    (out : String) (ns : List Node) :
    renderNodes (.ofParams params) out (.output (.path ⟨name, []⟩) :: ns) =
      renderNodes (.ofParams params) (out ++ s) ns := by
  have hv : eval (Scope.ofParams params).lookup (.path ⟨name, []⟩) = .ok (.string s) := by
    rw [eval, resolve, lookup_ofParams]
    simp only [h]
    rfl
  rw [renderNodes, renderNode, hv]
  rfl

theorem render_filledNodes (first : String) (slots : List (String × String))
    (hv : ∀ e ∈ slots, Entries.get? params e.1 = some (.string (value e.1))) (out : String) :
    renderNodes (.ofParams params) out (filledNodes first slots) =
      .ok (out ++ filled value first slots) := by
  induction slots generalizing first out with
  | nil => exact render_textNodes first out
  | cons slot slots ih =>
    obtain ⟨name, next⟩ := slot
    have hn := hv _ List.mem_cons_self
    have hv := ih next fun e he => hv e (List.mem_cons_of_mem _ he)
    rw [filledNodes, renderNodes_append, render_textNodes]
    change renderNodes _ (out ++ first) _ = _
    rw [render_variable hn, hv, filled]
    simp only [String.append_assoc]

end Stencil.Render

namespace Stencil.Template

/-- Under any options a template that only outputs variables holding strings renders to its texts
with these strings between them. Nothing in a string is read as part of the template. -/
theorem render_filled (o : Options) {first : String} {slots : List (String × String)}
    (h : Fillable first slots) {params : Entries Value} {value : String → String}
    (hv : ∀ e ∈ slots, Entries.get? params e.1 = some (.string (value e.1))) :
    ∃ t, ofSource o (filled outputTag first slots) = .ok t ∧
      t.render params = .ok (filled value first slots) := by
  obtain ⟨ts, ht, hs⟩ := tokenize_filled o h
  have hp : parse ts = .ok (filledNodes first slots) := by
    apply parse_complete
    rw [hs]
    exact filledNodes_phrase first slots
  refine ⟨⟨filledNodes first slots⟩, ?_, ?_⟩
  · rw [ofSource, ht]
    simp only [hp]
  · have hr := Render.render_filledNodes first slots hv ""
    rw [String.empty_append] at hr
    exact hr

/-- A line that a block tag would lose keeps its spaces around a variable, and the value is a
template itself. -/
theorem render_filled_markup :
    let slots := [("x", " \n"), ("y", "\x7b")]
    let params : Entries Value := [("y", .string "\x7d\x7d\n"), ("x", .string "\x7b% if x %\x7d")]
    Fillable "  " slots ∧
    filled outputTag "  " slots = "  \x7b\x7b x \x7d\x7d \n\x7b\x7b y \x7d\x7d\x7b" ∧
    ∃ t, ofSource ⟨true, true⟩ (filled outputTag "  " slots) = .ok t ∧
      t.render params = .ok "  \x7b% if x %\x7d \n\x7d\x7d\n\x7b" := by
  intro slots params
  have hf : Fillable "  " slots := by decide
  refine ⟨hf, by decide, ?_⟩
  let value (name : String) : String := if name = "x" then "\x7b% if x %\x7d" else "\x7d\x7d\n"
  have hv : ∀ e ∈ slots, Entries.get? params e.1 = some (.string (value e.1)) := by
    intro e he
    simp only [slots, List.mem_cons, List.not_mem_nil, or_false] at he
    rcases he with rfl | rfl
    · rfl
    · rfl
  exact render_filled ⟨true, true⟩ hf hv

end Stencil.Template
