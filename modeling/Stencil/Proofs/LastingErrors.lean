import Stencil.Proofs.Concatenation
import Stencil.Proofs.NodeReading

/-! Grammar errors that last. Once the tokens of full lines are refused for anything but a missing
closing tag, they are refused for the same reason at the same place whatever text follows them. -/
namespace Stencil.Template

variable {stack : Stack} {done : List Node} {ts us : List Token} {e : ParseError}

/-- What comes before a text is a run of texts and whole tags, if it is one together with it. -/
theorem Stream.before_text {t : Token} {s : String} (hs : t.symbol = .text s)
    (h : Stream ts) {front : List Token} (ht : ts = front ++ [t]) : Stream front := by
  induction h generalizing front with
  | nil => simp at ht
  | @text s' p more hx _ ih =>
    cases front with
    | nil => exact .nil
    | cons x front =>
      obtain ⟨rfl, hm⟩ := List.cons.inj ht
      exact .text hx (ih hm)
  | @tag tag p inner q more hi _ ih =>
    rcases List.eq_nil_or_concat more with rfl | ⟨more, x, rfl⟩
    · -- the closing delimiter comes last, and it is no text
      have hc : (⟨.opening tag, p⟩ :: inner) ++ [⟨.closing tag, q⟩] = front ++ [t] := ht
      obtain ⟨_, hl⟩ := List.append_inj' hc rfl
      obtain rfl := List.singleton_inj.1 hl
      cases hs
    · rw [List.concat_eq_append] at ht ih
      have hc : (⟨.opening tag, p⟩ :: (inner ++ ⟨.closing tag, q⟩ :: more)) ++ [x] =
          front ++ [t] := by
        rw [← ht]
        simp
      obtain ⟨rfl, hx⟩ := List.append_inj' hc rfl
      exact .tag hi (ih (congrArg (more ++ ·) hx))

/-- At the end of the tokens only a closing tag can be missing. -/
theorem readNodes_end (h : readNodes stack done [] = .error e) :
    ∃ block, e.cause = .missingCloser block := by
  cases stack with
  | nil =>
    rw [readNodes] at h
    cases h
  | cons open_ outer =>
    rw [readNodes] at h
    cases h
    exact ⟨_, rfl⟩

/-- A last text changes nothing about that. -/
theorem readNodes_last_text {s : String} {p : Pos}
    (h : readNodes stack done [⟨.text s, p⟩] = .error e) :
    ∃ block, e.cause = .missingCloser block := by
  rw [readNodes] at h
  exact readNodes_end h

/-- If what follows a run of texts and whole tags can only lack a closing tag, any other error is in
the run itself, and it is there whatever else follows. -/
theorem Decides.lasting (h : Decides stack done ts) {rest : List Token}
    (hr : ∀ stack done e, readNodes stack done rest = .error e →
      ∃ block, e.cause = .missingCloser block)
    (he : readNodes stack done (ts ++ rest) = .error e)
    (hc : ∀ block, e.cause ≠ .missingCloser block) (later : List Token) :
    readNodes stack done (ts ++ later) = .error e := by
  rcases h with ⟨e', _, hall⟩ | ⟨progress, hall⟩
  · rw [hall] at he
    cases he
    exact hall later
  · rw [hall] at he
    obtain ⟨block, hb⟩ := hr _ _ _ he
    exact absurd hb (hc block)

/-- A text at the end of the first tokens may become a longer one at the seam. It is not where the
error is, so the tokens before it are already refused. -/
theorem parse_join_error (h : Stream ts) (he : parse ts = .error e)
    (hc : ∀ block, e.cause ≠ .missingCloser block) (us : List Token) :
    parse (join ts us) = .error e := by
  rcases join_cases ts us with hj | ⟨front, s, p, v, q, back, rfl, rfl, hj⟩
  · rw [hj]
    have hd := stream_decides h [] []
    have hn : readNodes [] [] (ts ++ []) = .error e := by rwa [List.append_nil]
    exact hd.lasting (fun _ _ _ => readNodes_end) hn hc us
  · rw [hj]
    have hd := stream_decides (h.before_text rfl rfl) [] []
    exact hd.lasting (fun _ _ _ => readNodes_last_text) he hc _

/-- Of tokens that end within a tag it would not hold: the error at their end is another one when
more tokens follow. -/
example : parse [⟨.opening .block, ⟨1, 1⟩⟩] = .error ⟨.expected .blockKeyword none, ⟨1, 1⟩⟩ ∧
    parse [⟨.opening .block, ⟨1, 1⟩⟩, ⟨.pipe, ⟨1, 4⟩⟩] = .error ⟨.unknownBlock .pipe, ⟨1, 4⟩⟩ := by
  constructor <;> cbv

/-- A source of full lines that is tokens but no template, and not for want of a closing tag, is
refused with the very same error when more text that is tokens follows it. -/
theorem grammar_error_lasts {o : Options} {a b : String} (ha : a = "" ∨ ['\n'] <:+ a.toList)
    (hts : tokenize o a = .ok ts) (hus : tokenize o b = .ok us) (he : ofSource o a = .error e)
    (hc : ∀ block, e.cause ≠ .missingCloser block) :
    ofSource o (a ++ b) = .error e := by
  have hp : parse ts = .error e := by
    rw [ofSource, hts] at he
    dsimp only at he
    split at he
    · rename_i e' hp
      cases he
      exact hp
    · cases he
  have hw : tokenize o (a ++ b) = .ok (join ts (us.map (Token.moved (Pos.below a)))) := by
    rw [tokenize_append ha hts, hus]
    rfl
  have hj := parse_join_error (tokenize_stream hts) hp hc (us.map (Token.moved (Pos.below a)))
  rw [ofSource, hw]
  simp only [hj]

/-- A closing tag of no block stays one, though an `if` that lacks its own follows below. -/
theorem grammar_error_lasts_stray_closer :
    let a := "\x7b% endif %\x7d\n"
    let b := "\x7b% if x %\x7d"
    let e : ParseError := ⟨.strayCloser .cond, ⟨1, 4⟩⟩
    (a = "" ∨ ['\n'] <:+ a.toList) ∧
    (∃ ts, tokenize ⟨true, true⟩ a = .ok ts) ∧ (∃ us, tokenize ⟨true, true⟩ b = .ok us) ∧
    ofSource ⟨true, true⟩ a = .error e ∧ (∀ block, e.cause ≠ .missingCloser block) ∧
    ofSource ⟨true, true⟩ (a ++ b) = .error e := by
  intro a b e
  have ha : tokenize ⟨true, true⟩ a = .ok [⟨.opening .block, ⟨1, 1⟩⟩,
      ⟨.keyword .endif, ⟨1, 4⟩⟩, ⟨.closing .block, ⟨1, 10⟩⟩] := by
    decide +kernel
  have hb : tokenize ⟨true, true⟩ b = .ok [⟨.opening .block, ⟨1, 1⟩⟩,
      ⟨.keyword .if_, ⟨1, 4⟩⟩, ⟨.word "x", ⟨1, 7⟩⟩, ⟨.closing .block, ⟨1, 9⟩⟩] := by
    decide +kernel
  have hl : a = "" ∨ ['\n'] <:+ a.toList := .inr (by decide)
  have he : ofSource ⟨true, true⟩ a = .error e := by
    rw [ofSource, ha]
    cbv
  have hc : ∀ block, e.cause ≠ .missingCloser block := by
    intro block h
    cases h
  exact ⟨hl, ⟨_, ha⟩, ⟨_, hb⟩, he, hc, grammar_error_lasts hl ha hb he hc⟩

end Stencil.Template
