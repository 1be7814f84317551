import Stencil.Proofs.GrammarComplete
import Stencil.Proofs.GrammarSound
import Stencil.Proofs.Meaning
import Stencil.Proofs.MovedTokens
import Stencil.Proofs.Seam

/-! A template put together from two, the first of full lines, says what the two say one after the
other. -/
namespace Stencil.Render

open Template (Node)

theorem renderNodes_append (scope : Scope) (out : String) (xs ys : List Node) :
    renderNodes scope out (xs ++ ys) =
      renderNodes scope out xs >>= fun out => renderNodes scope out ys := by
  induction xs generalizing out with
  | nil => rfl
  | cons x xs ih =>
    rw [List.cons_append, renderNodes, renderNodes]
    cases renderNode scope out x with
    | error e => rfl
    | ok out => exact ih out

/-- Two texts are rendered as one. -/
theorem renderNodes_texts (scope : Scope) (out s t : String) (ns : List Node) :
    renderNodes scope out (.text (s ++ t) :: ns) =
      renderNodes scope out (.text s :: .text t :: ns) := by
  change renderNodes scope (out ++ (s ++ t)) ns = renderNodes scope (out ++ s ++ t) ns
  rw [String.append_assoc]

/-- Nodes one after the other write their texts one after the other, up to the first error. -/
theorem render_append (xs ys : List Node) (params : Entries Value) :
    Template.render ⟨xs ++ ys⟩ params = (do
      let x ← Template.render ⟨xs⟩ params
      let y ← Template.render ⟨ys⟩ params
      pure (x ++ y)) := by
  simp only [Template.render, renderNodes_writes, meaning_append]
  cases meaning (Scope.ofParams params).lookup xs with
  | error e => rfl
  | ok x =>
    cases meaning (Scope.ofParams params).lookup ys with
    | error e => rfl
    | ok y => exact congrArg Except.ok (by simp)

end Stencil.Render

namespace Stencil.Template

variable {s t : List Symbol} {xs ys ns : List Node}

theorem NodesPhrase.append (hx : NodesPhrase s xs) (hy : NodesPhrase t ys) :
    NodesPhrase (s ++ t) (xs ++ ys) := by
  induction xs generalizing s with
  | nil =>
    cases hx
    exact hy
  | cons x xs ih =>
    cases hx with
    | cons hn hx =>
      rw [List.append_assoc]
      exact .cons hn (ih hx)

/-- A node other than a text ends in a delimiter. -/
theorem NodePhrase.text_or_closing {n : Node} (h : NodePhrase s n) :
    (∃ x, s = [.text x] ∧ n = .text x) ∨ ∃ a tag, s = a ++ [.closing tag] := by
  cases h with
  | text x => exact .inl ⟨x, rfl, rfl⟩
  | output => exact .inr ⟨_, _, rfl⟩
  | @thousands s => exact .inr ⟨.opening .output :: s ++ [.thousands], .output, by simp⟩
  | _ => exact .inr ⟨_, .block, (List.append_assoc _ _ [Symbol.closing .block]).symm⟩

theorem NodesPhrase.of_nil (h : NodesPhrase [] ns) : ns = [] := by
  generalize hs : ([] : List Symbol) = s at h
  cases h with
  | nil => rfl
  | cons hn _ =>
    rcases hn.text_or_closing with ⟨x, rfl, _⟩ | ⟨a, tag, rfl⟩ <;> simp at hs

/-- A text that comes last is the last node. -/
theorem NodesPhrase.last_text {x : String} (h : NodesPhrase t ns) (ht : t = s ++ [.text x]) :
    ∃ ms, ns = ms ++ [.text x] ∧ NodesPhrase s ms := by
  induction ns generalizing s t with
  | nil =>
    cases h
    simp at ht
  | cons n ns ih =>
    cases h with
    | @cons u _ v _ hn hns =>
      rcases List.eq_nil_or_concat v with rfl | ⟨v, y, rfl⟩
      · rw [List.append_nil] at ht
        obtain rfl := hns.of_nil
        rcases hn.text_or_closing with ⟨y, rfl, rfl⟩ | ⟨a, tag, rfl⟩
        · rw [← List.nil_append [Symbol.text y]] at ht
          obtain ⟨rfl, hy⟩ := List.append_inj' ht rfl
          cases hy
          exact ⟨[], rfl, .nil⟩
        · obtain ⟨_, hc⟩ := List.append_inj' ht rfl
          cases hc
      · rw [List.concat_eq_append, ← List.append_assoc] at ht
        obtain ⟨rfl, hy⟩ := List.append_inj' ht rfl
        obtain ⟨ms, rfl, hm⟩ := ih hns (by rw [List.concat_eq_append, hy])
        exact ⟨n :: ms, rfl, .cons hn hm⟩

theorem symbols_moved (f : Pos → Pos) (ts : List Token) :
    symbols (ts.map (Token.moved f)) = symbols ts := by
  rw [symbols, symbols, List.map_map]
  rfl

theorem join_nil (ts : List Token) : join [] ts = ts := by
  cases ts <;> rfl

/-- Tokens are joined as they are, or two texts become one. -/
theorem join_cases (ts us : List Token) :
    join ts us = ts ++ us ∨ ∃ xs s p v q ys, ts = xs ++ [⟨.text s, p⟩] ∧ us = ⟨.text v, q⟩ :: ys ∧
      join ts us = xs ++ ⟨.text (s ++ v), p⟩ :: ys := by
  unfold join
  split
  · rename_i s p v q ys hs
    split
    · obtain ⟨xs, rfl⟩ := List.getLast?_eq_some_iff.1 hs
      exact .inr ⟨xs, s, p, v, q, ys, rfl, rfl, by simp⟩
    · exact .inl rfl
  · exact .inl rfl

/-- Joined tokens are read as the nodes of both, perhaps with two texts in one. -/
theorem parse_join {ts us : List Token} (hx : parse ts = .ok xs) (hy : parse us = .ok ys) :
    ∃ zs, parse (join ts us) = .ok zs ∧
      ∀ params, render ⟨zs⟩ params = render ⟨xs ++ ys⟩ params := by
  rcases join_cases ts us with hj | ⟨us', s, p, v, q, vs, rfl, rfl, hj⟩
  · refine ⟨xs ++ ys, ?_, fun _ => rfl⟩
    have hp := (parse_sound hx).append (parse_sound hy)
    rw [hj]
    exact parse_complete (by simpa [symbols] using hp)
  · have hs : symbols (us' ++ [⟨.text s, p⟩]) = symbols us' ++ [.text s] := by simp [symbols]
    obtain ⟨ms, rfl, hm⟩ := (parse_sound hx).last_text hs
    have hv : readNodes [] [.text v] vs = .ok ys := by
      rwa [parse, readNodes] at hy
    obtain ⟨ks, hk, rfl⟩ := readNodes_completes hv
    refine ⟨ms ++ .text (s ++ v) :: ks, ?_, fun params => ?_⟩
    · rw [hj]
      refine parse_complete ?_
      have hp := hm.append (.cons (.text (s ++ v)) hk)
      simpa [symbols] using hp
    · have hn : ms ++ [.text s] ++ ([.text v].reverse ++ ks) = ms ++ .text s :: .text v :: ks := by
        simp
      rw [hn]
      simp only [render, Render.renderNodes_append, Render.renderNodes_texts]

theorem tokenize_empty (o : Options) : tokenize o "" = .ok [] := by
  have hl : Layout (glyphs "") [.text []] := .last plain_nil
  rw [tokenize_of_layout o hl, settled_text_nil]

variable {o : Options} {a : String} {ts : List Token}

/-- The positions of a text move down by the lines that come before it. -/
theorem tokenize_append (ha : a = "" ∨ ['\n'] <:+ a.toList) (h : tokenize o a = .ok ts)
    (b : String) :
    tokenize o (a ++ b) =
      (movedBy (Pos.below a) (List.map (Token.moved (Pos.below a))) (tokenize o b)).map
        (join ts) := by
  have hl : Located (glyphs (a ++ b)) := located_glyphs (a ++ b)
  have hg := glyphs_append ha b
  rw [hg] at hl
  rw [tokenize_eq, tokenize_eq o b, hg, ← tokensOf_moved]
  rcases ha with rfl | ha
  · rw [tokenize_empty] at h
    cases h
    exact (congrFun Except.map_id _).symm
  · rw [tokenize_eq] at h
    exact tokensOf_append hl (endsLine_glyphs ha) h

theorem ofSource_eq_ok {source : String} {t : Template} (h : ofSource o source = .ok t) :
    ∃ us, tokenize o source = .ok us ∧ parse us = .ok t.nodes := by
  rw [ofSource] at h
  split at h
  · cases h
  · rename_i us hu
    split at h
    · cases h
    · rename_i ns hn
      cases h
      exact ⟨us, hu, hn⟩

/-- What a source of full lines says is said first, and what follows it is read as if it stood
alone. -/
theorem source_append (ha : a = "" ∨ ['\n'] <:+ a.toList) (h : tokenize o a = .ok ts)
    (b : String) :
    (∀ us, tokenize o b = .ok us →
      tokenize o (a ++ b) = .ok (join ts (us.map (Token.moved (Pos.below a))))) ∧
    (∀ e, tokenize o b = .error e → tokenize o (a ++ b) = .error (e.moved (Pos.below a))) ∧
    ∀ s t, ofSource o a = .ok s → ofSource o b = .ok t →
      ∃ whole, ofSource o (a ++ b) = .ok whole ∧ ∀ params, whole.render params = (do
        let first ← s.render params
        let rest ← t.render params
        pure (first ++ rest)) := by
  have hw := tokenize_append ha h b
  refine ⟨fun us hu => ?_, fun e he => ?_, fun s t hs ht => ?_⟩
  · rw [hw, hu]
    rfl
  · rw [hw, he]
    rfl
  · obtain ⟨ts', hts, hx⟩ := ofSource_eq_ok hs
    obtain ⟨us, hus, hy⟩ := ofSource_eq_ok ht
    cases h.symm.trans hts
    have hm : parse (us.map (Token.moved (Pos.below a))) = .ok t.nodes := by
      rw [parse_moved, hy]
      rfl
    obtain ⟨zs, hz, hr⟩ := parse_join hx hm
    refine ⟨⟨zs⟩, ?_, fun params => ?_⟩
    · rw [hus] at hw
      rw [ofSource, hw]
      simp only [movedBy, Except.map, hz]
    · rw [hr, Render.render_append]

theorem tokenize_line : tokenize ⟨true, true⟩ "x\n" = .ok [⟨.text "x\n", ⟨1, 1⟩⟩] := by
  have hl : Layout (glyphs "x\n") [.text [⟨'x', ⟨1, 1⟩⟩, ⟨'\n', ⟨1, 2⟩⟩]] :=
    .last (plain_cons.2 ⟨rfl, plain_cons.2 ⟨rfl, plain_nil⟩⟩)
  rw [tokenize_of_layout _ hl]
  decide

theorem tokenize_comment_line : tokenize ⟨true, true⟩ "y\n\x7b# #\x7d\nz" =
    .ok [⟨.text "y\n", ⟨1, 1⟩⟩, ⟨.text "z", ⟨3, 1⟩⟩] := by
  have hr : readOpened ⟨'\x7b', ⟨2, 1⟩⟩ ⟨'#', ⟨2, 2⟩⟩
      ([⟨' ', ⟨2, 3⟩⟩, ⟨'#', ⟨2, 4⟩⟩, ⟨'\x7d', ⟨2, 5⟩⟩] ++ [⟨'\n', ⟨2, 6⟩⟩, ⟨'z', ⟨3, 1⟩⟩]) =
      .ok (.comment, [⟨'\n', ⟨2, 6⟩⟩, ⟨'z', ⟨3, 1⟩⟩]) := by rfl
  have hl : Layout (glyphs "y\n\x7b# #\x7d\nz") [.text [⟨'y', ⟨1, 1⟩⟩, ⟨'\n', ⟨1, 2⟩⟩], .comment,
      .text [⟨'\n', ⟨2, 6⟩⟩, ⟨'z', ⟨3, 1⟩⟩]] :=
    .tag (plain_cons.2 ⟨rfl, plain_cons.2 ⟨rfl, plain_nil⟩⟩) rfl hr
      (.last (plain_cons.2 ⟨rfl, plain_cons.2 ⟨rfl, plain_nil⟩⟩))
  rw [tokenize_of_layout _ hl]
  decide

/-- The texts next to the seam are one text, and the line of the comment moves down. -/
theorem source_append_comment_line :
    tokenize ⟨true, true⟩ ("x\n" ++ "y\n\x7b# #\x7d\nz") =
      .ok [⟨.text "x\ny\n", ⟨1, 1⟩⟩, ⟨.text "z", ⟨4, 1⟩⟩] ∧
    ∃ whole, ofSource ⟨true, true⟩ ("x\n" ++ "y\n\x7b# #\x7d\nz") = .ok whole ∧
      ∀ params, whole.render params = .ok "x\ny\nz" := by
  obtain ⟨ht, _, hr⟩ := source_append (.inr ⟨['x'], rfl⟩) tokenize_line "y\n\x7b# #\x7d\nz"
  refine ⟨ht _ tokenize_comment_line, ?_⟩
  have hs : ofSource ⟨true, true⟩ "x\n" = .ok ⟨[.text "x\n"]⟩ := by
    rw [ofSource, tokenize_line]
    cbv
  have ht : ofSource ⟨true, true⟩ "y\n\x7b# #\x7d\nz" = .ok ⟨[.text "y\n", .text "z"]⟩ := by
    rw [ofSource, tokenize_comment_line]
    cbv
  exact hr _ _ hs ht

end Stencil.Template
