import Stencil.Proofs.TagReading
import Stencil.Template.Parse

/-! Reading the nodes of a source. A run of texts and whole tags is read to its end before anything
after it is looked at, so that a source never ends too early for its reader. -/
namespace Stencil.Template

variable {ts : List Token} {stack : Stack} {done : List Node}

theorem tagRest_of_inner {tag : Tag} {q : Pos} :
    ∀ {inner : List Token}, (∀ t ∈ inner, t.symbol.inTag) →
      TagRest (inner ++ [⟨.closing tag, q⟩])
  | [], _ => .closing tag q
  | t :: _, h => .cons (h t List.mem_cons_self)
      (tagRest_of_inner fun s hs => h s (List.mem_cons_of_mem t hs))

/-- An output tag is read without looking at what comes after it. -/
theorem readNodes_output (stack : Stack) (done : List Node) (p : Pos) (h : TagRest ts)
    (rest : List Token) :
    readNodes stack done (⟨.opening .output, p⟩ :: (ts ++ rest)) =
      match readOutput p ts with
      | .error e => .error e
      | .ok r => readNodes stack (.output r.value :: done) rest := by
  have ha := readOutput_agrees p h rest
  rw [readNodes]
  cases hx : readOutput p ts with
  | error e =>
    rw [hx] at ha
    rw [ha.of_error.2]
  | ok r =>
    rw [hx] at ha
    obtain ⟨hn, hy⟩ := ha.of_ok
    rw [hy]
    simp [hn]

/-- So is a block tag from its keyword on. -/
theorem readNodes_block (stack : Stack) (done : List Node) (k : Keyword) (p q : Pos)
    (h : TagRest ts) (rest : List Token) :
    readNodes stack done (⟨.opening .block, p⟩ :: ⟨.keyword k, q⟩ :: (ts ++ rest)) =
      match readBlock stack done k q ts with
      | .error e => .error e
      | .ok r => readNodes r.value.1 r.value.2 rest := by
  have ha := readBlock_agrees stack done k q h rest
  rw [readNodes]
  cases hx : readBlock stack done k q ts with
  | error e =>
    rw [hx] at ha
    rw [ha.of_error.2]
  | ok r =>
    rw [hx] at ha
    obtain ⟨hn, hy⟩ := ha.of_ok
    rw [hy]
    simp [hn]

/-- How the reading of `ts` goes does not depend on what comes after: it fails in the same way, or
it reaches the same state. -/
def Decides (stack : Stack) (done : List Node) (ts : List Token) : Prop :=
  (∃ e, e.cause.inStream ∧ ∀ rest, readNodes stack done (ts ++ rest) = .error e) ∨
    ∃ progress : Progress,
      ∀ rest, readNodes stack done (ts ++ rest) = readNodes progress.1 progress.2 rest

theorem Decides.append {us : List Token} (ht : Decides stack done ts)
    (hu : ∀ stack done, Decides stack done us) : Decides stack done (ts ++ us) := by
  rcases ht with ⟨e, he, ht⟩ | ⟨progress, ht⟩
  · exact .inl ⟨e, he, fun rest => by rw [List.append_assoc, ht]⟩
  · rcases hu progress.1 progress.2 with ⟨e, he, hu⟩ | ⟨next, hu⟩
    · exact .inl ⟨e, he, fun rest => by rw [List.append_assoc, ht, hu]⟩
    · exact .inr ⟨next, fun rest => by rw [List.append_assoc, ht, hu]⟩

theorem text_decides (s : String) (p : Pos) : Decides stack done [⟨.text s, p⟩] :=
  .inr ⟨(stack, .text s :: done), fun rest => by rw [List.cons_append, readNodes]; rfl⟩

theorem output_decides (p : Pos) (h : TagRest ts) :
    Decides stack done (⟨.opening .output, p⟩ :: ts) := by
  cases hx : readOutput p ts with
  | error e =>
    have ha := readOutput_agrees p h []
    rw [hx] at ha
    refine .inl ⟨e, ha.of_error.1, fun rest => ?_⟩
    rw [List.cons_append, readNodes_output stack done p h, hx]
  | ok r =>
    refine .inr ⟨(stack, .output r.value :: done), fun rest => ?_⟩
    rw [List.cons_append, readNodes_output stack done p h, hx]

theorem block_decides (p : Pos) (h : TagRest ts) :
    Decides stack done (⟨.opening .block, p⟩ :: ts) := by
  cases h with
  | closing tag q => exact .inl ⟨_, rfl, fun rest => by simp [readNodes]; rfl⟩
  | @cons s q us hs h =>
    cases s with
    | keyword k =>
      cases hx : readBlock stack done k q us with
      | error e =>
        have ha := readBlock_agrees stack done k q h []
        rw [hx] at ha
        refine .inl ⟨e, ha.of_error.1, fun rest => ?_⟩
        rw [List.cons_append, List.cons_append, readNodes_block stack done k p q h, hx]
      | ok r =>
        refine .inr ⟨r.value, fun rest => ?_⟩
        rw [List.cons_append, List.cons_append, readNodes_block stack done k p q h, hx]
    | _ => exact .inl ⟨_, rfl, fun rest => by simp [readNodes]; rfl⟩

/-- A run of texts and whole tags is read to its end before anything after it is looked at. -/
theorem stream_decides {ts : List Token} (h : Stream ts) (stack : Stack) (done : List Node) :
    Decides stack done ts := by
  induction h generalizing stack done with
  | nil => exact .inr ⟨(stack, done), fun _ => rfl⟩
  | text _ _ ih => exact (text_decides _ _).append ih
  | @tag tag p inner q ts hi _ ih =>
    have ht : TagRest (inner ++ [⟨.closing tag, q⟩]) := tagRest_of_inner hi
    have hd : Decides stack done (⟨.opening tag, p⟩ :: (inner ++ [⟨.closing tag, q⟩])) := by
      cases tag with
      | output => exact output_decides p ht
      | block => exact block_decides p ht
    simpa using hd.append ih

/-- The tokens of a source never end where one is expected, and none stands outside all tags. -/
theorem readNodes_inStream {ts : List Token} (h : Stream ts) {e : ParseError}
    (he : readNodes stack done ts = .error e) : e.cause.inStream := by
  rcases stream_decides h stack done with ⟨e', hc, hr⟩ | ⟨⟨stack', done'⟩, hr⟩
  · have := hr []
    rw [List.append_nil, he] at this
    cases this
    exact hc
  · have := hr []
    rw [List.append_nil, he] at this
    cases stack' with
    | nil => simp [readNodes] at this
    | cons open_ outer =>
      rw [readNodes] at this
      cases this
      rfl

theorem inStream_of_isLexical {cause : Cause} (h : cause.isLexical) : cause.inStream := by
  cases cause with
  | expected | unexpected => cases h
  | _ => rfl

theorem ofSource_inStream {o : Options} {source : String} {e : ParseError}
    (h : ofSource o source = .error e) : e.cause.inStream := by
  rw [ofSource] at h
  split at h
  · rename_i he
    cases h
    exact inStream_of_isLexical (tokenize_isLexical he)
  · rename_i ts ht
    split at h
    · rename_i he
      cases h
      exact readNodes_inStream (tokenize_stream ht) he
    · cases h

/-- The tokens of a source are texts and whole tags. So no source is refused because it ends where
something is expected, or for a symbol that stands outside all tags. -/
theorem source_is_stream (o : Options) (source : String) :
    (∀ ts, tokenize o source = .ok ts → Stream ts) ∧
    ∀ e, ofSource o source = .error e →
      (∀ what, e.cause ≠ .expected what none) ∧ ∀ s, e.cause ≠ .unexpected s := by
  refine ⟨fun ts h => tokenize_stream h, fun e h => ?_⟩
  have hc := ofSource_inStream h
  constructor
  · intro what hw
    rw [hw] at hc
    cases hc
  · intro s hs
    rw [hs] at hc
    cases hc

theorem tokenize_empty_tag : tokenize ⟨true, true⟩ "\x7b\x7b\x7d\x7d" =
    .ok [⟨.opening .output, ⟨1, 1⟩⟩, ⟨.closing .output, ⟨1, 3⟩⟩] := by
  have hr : readTag .output ⟨1, 1⟩ false [⟨'}', ⟨1, 3⟩⟩, ⟨'}', ⟨1, 4⟩⟩] =
      .ok ([⟨.closing .output, ⟨1, 3⟩⟩], []) :=
    readTag_close false (rfl : skipSpaces _ = ⟨'}', ⟨1, 3⟩⟩ :: [⟨'}', ⟨1, 4⟩⟩]) rfl
  have ho : readOpened ⟨'{', ⟨1, 1⟩⟩ ⟨'{', ⟨1, 2⟩⟩ ([⟨'}', ⟨1, 3⟩⟩, ⟨'}', ⟨1, 4⟩⟩] ++ []) =
      .ok (.tag .output [⟨.opening .output, ⟨1, 1⟩⟩, ⟨.closing .output, ⟨1, 3⟩⟩], []) := by
    simp [readOpened, hr]
  have hl : Layout (glyphs "\x7b\x7b\x7d\x7d") [.text [],
      .tag .output [⟨.opening .output, ⟨1, 1⟩⟩, ⟨.closing .output, ⟨1, 3⟩⟩], .text []] :=
    .tag plain_nil rfl ho (.last plain_nil)
  exact tokenize_of_layout _ hl

/-- An empty tag is refused at its closing delimiter. -/
theorem source_is_stream_empty_tag :
    Stream [⟨.opening .output, ⟨1, 1⟩⟩, ⟨.closing .output, ⟨1, 3⟩⟩] ∧
    ofSource ⟨true, true⟩ "\x7b\x7b\x7d\x7d" =
      .error ⟨.expected .expression (some (.closing .output)), ⟨1, 3⟩⟩ ∧
    ∀ what, Cause.expected .expression (some (.closing .output)) ≠ .expected what none := by
  have he : ofSource ⟨true, true⟩ "\x7b\x7b\x7d\x7d" =
      .error ⟨.expected .expression (some (.closing .output)), ⟨1, 3⟩⟩ := by
    have hx : readExpr ⟨1, 1⟩ [⟨.closing .output, ⟨1, 3⟩⟩] =
        .error ⟨.expected .expression (some (.closing .output)), ⟨1, 3⟩⟩ := by
      rw [readExpr, readAnd, readNot, readComparison, readFiltered, readPrimary]
      · rfl
      all_goals simp
    rw [ofSource, tokenize_empty_tag]
    simp [parse, readNodes, readOutput, hx]
  obtain ⟨ht, hc⟩ := source_is_stream ⟨true, true⟩ "\x7b\x7b\x7d\x7d"
  exact ⟨ht _ tokenize_empty_tag, he, (hc _ he).1⟩

end Stencil.Template
