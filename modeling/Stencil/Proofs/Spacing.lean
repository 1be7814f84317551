import Stencil.Proofs.TextParts

/-! What the options leave alone. All that they drop is white space, so a source has the same tokens
and the same nodes under every setting, up to the white space in its texts. -/
namespace Stencil.Template

def ink (s : String) : String := String.ofList (s.toList.filter (!Unicode.isSpace ·))

/-- A token without the white space of its text, and without the place where the text starts. A
text of nothing else is left out. -/
def Token.bare : Token → Option Token
  | ⟨.text s, _⟩ => if ink s = "" then none else some ⟨.text (ink s), .start⟩
  | t => some t

def bareTokens (ts : List Token) : List Token := ts.filterMap Token.bare

mutual

def bareNodes : List Node → List Node
  | [] => []
  | n :: ns => (bareNode n).toList ++ bareNodes ns

def bareNode : Node → Option Node
  | .text s => if ink s = "" then none else some (.text (ink s))
  | .output e => some (.output e)
  | .loop target iterable body empty =>
    some (.loop target iterable (bareNodes body) (bareOptional empty))
  | .cond branches otherwise => some (.cond (bareBranches branches) (bareOptional otherwise))

def bareBranches : List (Expr × List Node) → List (Expr × List Node)
  | [] => []
  | (condition, body) :: branches => (condition, bareNodes body) :: bareBranches branches

def bareOptional : Option (List Node) → Option (List Node)
  | none => none
  | some ns => some (bareNodes ns)

end

def bareTemplate (t : Template) : Template := ⟨bareNodes t.nodes⟩

/-! Tokens. -/

def inkOf (gs : List Glyph) : List Glyph := gs.filter (!·.isSpace)

theorem inkOf_eq_nil {gs : List Glyph} (h : gs.all Glyph.isSpace) : inkOf gs = [] := by
  apply List.filter_eq_nil_iff.2
  intro g hg
  simpa using List.all_eq_true.1 h g hg

theorem inkOf_append (xs ys : List Glyph) : inkOf (xs ++ ys) = inkOf xs ++ inkOf ys :=
  List.filter_append xs ys

theorem ink_textOf (gs : List Glyph) : ink (textOf gs) = textOf (inkOf gs) := by
  rw [ink, textOf, String.toList_ofList, List.filter_map]
  rfl

theorem inkOf_trimLine (final : Bool) (gs : List Glyph) : inkOf (trimLine final gs) = inkOf gs := by
  rw [trimLine, splitLine_eq]
  split
  · rename_i h
    have hs : (gs.take (lineLength gs)).all Glyph.isSpace := by
      apply List.all_eq_true.2
      intro g hg
      exact isSpace_of_isTrimmable (List.all_eq_true.1 (Bool.and_eq_true_iff.1 h).2 g hg)
    conv_rhs => rw [← List.take_append_drop (lineLength gs) gs, inkOf_append, inkOf_eq_nil hs]
    rfl
  · rfl

theorem inkOf_stripIndent (clean : Bool) (gs : List Glyph) :
    inkOf (stripIndent clean gs) = inkOf gs := by
  rw [stripIndent]
  split
  · rename_i h
    have hs := isSpace_of_indent (Bool.and_eq_true_iff.1 h).2
    conv_rhs => rw [← fullLines_append_lastLine gs, inkOf_append, inkOf_eq_nil hs]
    rw [List.append_nil]
  · rfl

/-- Of the token of a text only the characters that are not white space matter. -/
theorem bareTokens_textTokens (gs : List Glyph) :
    bareTokens (textTokens gs) =
      if textOf (inkOf gs) = "" then [] else [⟨.text (textOf (inkOf gs)), .start⟩] := by
  cases gs with
  | nil => rfl
  | cons g gs =>
    rw [textTokens, bareTokens, List.filterMap_cons, Token.bare, ink_textOf]
    split
    · rename_i h
      split at h
      · rename_i hn
        rw [if_pos hn]
        rfl
      · cases h
    · rename_i t h
      split at h
      · cases h
      · rename_i hn
        cases h
        rw [if_neg hn]
        rfl

/-- Neither the options nor what they are decided by change the tokens by more than white space. -/
theorem bareTokens_settle (o o' : Options) (ps : List Piece) (dirty dirty' after after' : Bool) :
    bareTokens (settle o dirty after ps) = bareTokens (settle o' dirty' after' ps) := by
  have append (ts us : List Token) : bareTokens (ts ++ us) = bareTokens ts ++ bareTokens us :=
    List.filterMap_append
  induction ps generalizing dirty dirty' after after' with
  | nil => rfl
  | cons p ps ih =>
    cases p with
    | comment => exact ih _ _ _ _
    | tag tag tokens =>
      cases tag with
      | output => rw [settle, settle, append, append, ih]
      | block => rw [settle, settle, append, append, ih]
    | text gs =>
      have kept (o : Options) (dirty after : Bool) :
          inkOf (let gs := if o.trim && after && !dirty then trimLine ps.isEmpty gs else gs
            if o.lstrip && startsBlock ps then stripIndent (!dirty) gs else gs) = inkOf gs := by
        dsimp only
        split
        · rw [inkOf_stripIndent]
          split
          · exact inkOf_trimLine _ gs
          · rfl
        · split
          · exact inkOf_trimLine _ gs
          · rfl
      rw [settle, settle, append, append, bareTokens_textTokens, bareTokens_textTokens, kept o,
        kept o', ih]

/-! Nodes. Leaving out white space is one way to take texts apart. -/

def inkParts (s : String) : List String := if ink s = "" then [] else [ink s]

theorem bareTokens_eq (ts : List Token) : bareTokens ts = cutTokens inkParts ts := by
  rw [bareTokens, cutTokens, List.filterMap_eq_flatMap_toList]
  refine List.flatMap_congr fun t _ => ?_
  obtain ⟨s, _⟩ := t
  cases s with
  | text s => by_cases hs : ink s = "" <;> simp [Token.bare, Token.parts, inkParts, hs]
  | _ => rfl

mutual

theorem bareNodes_eq : (ns : List Node) → bareNodes ns = cutNodes inkParts ns
  | [] => rfl
  | n :: ns => by rw [bareNodes, cutNodes, bareNode_eq n, bareNodes_eq ns]

theorem bareNode_eq : (n : Node) → (bareNode n).toList = cutNode inkParts n
  | .text s => by by_cases hs : ink s = "" <;> simp [bareNode, cutNode, inkParts, hs]
  | .output e => rfl
  | .loop target iterable body empty => by
    rw [bareNode, cutNode, bareNodes_eq body, bareOptional_eq empty]
    rfl
  | .cond branches otherwise => by
    rw [bareNode, cutNode, bareBranches_eq branches, bareOptional_eq otherwise]
    rfl

theorem bareBranches_eq :
    (branches : List (Expr × List Node)) → bareBranches branches = cutBranches inkParts branches
  | [] => rfl
  | (condition, body) :: branches => by
    rw [bareBranches, cutBranches, bareNodes_eq body, bareBranches_eq branches]

theorem bareOptional_eq :
    (nodes : Option (List Node)) → bareOptional nodes = cutOptional inkParts nodes
  | none => rfl
  | some ns => congrArg some (bareNodes_eq ns)

end

/-- The bare tokens of a source are read as its bare nodes, or fail as its tokens do. -/
theorem parse_bare {ts : List Token} (h : Stream ts) :
    parse (bareTokens ts) = (parse ts).map bareNodes := by
  rw [bareTokens_eq, parse_cut inkParts h, funext bareNodes_eq]

/-- Under any two settings a source fails in the same way, or its tokens differ in the white space
of texts at most. The same holds for its nodes. -/
theorem options_drop_spaces (o o' : Options) (source : String) :
    (tokenize o source).map bareTokens = (tokenize o' source).map bareTokens ∧
      (ofSource o source).map bareTemplate = (ofSource o' source).map bareTemplate := by
  have ht : (tokenize o source).map bareTokens = (tokenize o' source).map bareTokens := by
    rw [tokenize, tokenize]
    cases pieces (glyphs source) with
    | error e => rfl
    | ok ps => exact congrArg Except.ok (bareTokens_settle o o' ps false false false false)
  have nodes (o : Options) : (ofSource o source).map bareTemplate =
      ((tokenize o source).map bareTokens).bind fun ts => (parse ts).map Template.mk := by
    rw [ofSource]
    cases hs : tokenize o source with
    | error e => rfl
    | ok ts =>
      have hp := parse_bare (tokenize_stream hs)
      simp only [Except.map, Except.bind] at hp ⊢
      rw [hp]
      cases parse ts <;> rfl
  constructor
  · exact ht
  · rw [nodes o, nodes o', ht]

end Stencil.Template
