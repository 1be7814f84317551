import Mathlib
import Stencil.Proofs.Loading
import Stencil.Yaml.Write

/-! Texts that hold nothing. The check for a blank file ends its lines at line feeds and takes any
white space for blank; a document ends its lines at other breaks too and knows only the space. -/
namespace Stencil

namespace Yaml

/-- Whether there is nothing but blanks and comments in a text. A byte order mark may start a
line. -/
def isBare (start comment : Bool) : List Char → Bool
  | [] => true
  | c :: cs =>
    if isLineBreak c then isBare true false cs
    else if comment || c = '#' then isBare false true cs
    else (c = ' ' || (c = byteOrderMark && start)) && isBare false false cs

namespace Scan

variable {comment : Bool} {c : Cell} {cells : List Cell}

theorem skipGap_break (h : c.isBreak) :
    skipGap false comment true (c :: cells) = skipGap false false true cells := by
  simp [skipGap, Cell.endsLine, h]

theorem skipGap_comment (hb : c.endsLine = false) (h : comment ∨ c.char = '#') :
    skipGap false comment true (c :: cells) = skipGap false true true cells := by
  have hb' : c.isBreak = false := (Bool.or_eq_false_iff.1 hb).1
  rcases h with h | h <;> simp [skipGap, hb, hb', h]

theorem skipGap_blank (hb : c.endsLine = false)
    (h : c.char = ' ' ∨ c.char = byteOrderMark ∧ c.column = 0) :
    skipGap false false true (c :: cells) = skipGap false false true cells := by
  have hb' : c.isBreak = false := (Bool.or_eq_false_iff.1 hb).1
  rcases h with h | ⟨h, hc⟩
  · simp [skipGap, hb', h]
  · have hm : byteOrderMark ≠ '#' := by decide
    simp [skipGap, hb', h, hc, hm]

theorem skipGap_stop (hb : c.endsLine = false) (hc : c.char ≠ '#')
    (h : ¬ (c.char = ' ' ∨ c.char = byteOrderMark ∧ c.column = 0)) :
    skipGap false false true (c :: cells) = (true, c :: cells) := by
  have hb' : c.isBreak = false := (Bool.or_eq_false_iff.1 hb).1
  obtain ⟨hs, hm⟩ := not_or.1 h
  simp [skipGap, hb', hc, hs, hm]

theorem isBare_break (start : Bool) {c : Char} (h : isLineBreak c) (cs : List Char) :
    isBare start comment (c :: cs) = isBare true false cs := by
  rw [isBare, if_pos h]

/-- The line feed of a carriage return counts as a line break of its own here, which changes the
places of what follows but not their columns. -/
theorem skipGap_locate_break {c : Char} (h : isLineBreak c) (comment : Bool) (m : Mark)
    (cs : List Char) :
    ∃ m' : Mark, m'.column = 0 ∧ skipGap false comment true (locate m (c :: cs)) =
      skipGap false false true (locate m' cs) := by
  by_cases hcr : ∃ ds, c = '\r' ∧ cs = '\n' :: ds
  · obtain ⟨ds, rfl, rfl⟩ := hcr
    have hl : locate m ('\r' :: '\n' :: ds) = ⟨'\n', m⟩ :: locate (m.newLine 2) ds := by rw [locate]
    have hr : locate ⟨m.index + 1, m.line, 0⟩ ('\n' :: ds) =
        ⟨'\n', ⟨m.index + 1, m.line, 0⟩⟩ :: locate (m.newLine 2) ds :=
      locate.eq_3 _ _ _ nofun
    refine ⟨⟨m.index + 1, m.line, 0⟩, rfl, ?_⟩
    rw [hl, hr, skipGap_break rfl, skipGap_break rfl]
  · refine ⟨m.newLine c.utf8Size, rfl, ?_⟩
    rw [locate.eq_3 _ _ _ fun ds hc hcs => hcr ⟨ds, hc, hcs⟩]
    split
    · exact skipGap_break rfl
    · next hc =>
      have hs : c = lineSeparator ∨ c = paragraphSeparator := by
        simp only [isLineBreak, Bool.or_eq_true, decide_eq_true_eq] at h hc
        tauto
      rw [if_pos (by simpa using hs)]
      rcases hs with rfl | rfl <;> exact skipGap_break rfl

theorem isEnd_eq_false {c : Char} (h : isAllowed c) (m : Mark) : Cell.isEnd ⟨c, m⟩ = false := by
  rw [← Bool.not_eq_true]
  intro he
  obtain rfl : c = '\x00' := by simpa [Cell.isEnd] using he
  exact absurd h (by decide)

theorem skipGap_locate_cons {c : Char} (hb : isLineBreak c = false) (ha : isAllowed c)
    (comment : Bool) (m : Mark) (cs : List Char) :
    skipGap false comment true (locate m (c :: cs)) =
      if comment || c = '#' then skipGap false true true (locate (m.next c.utf8Size) cs)
      else if c = ' ' || (c = byteOrderMark && m.column = 0) then
        skipGap false false true (locate (m.next c.utf8Size) cs)
      else (true, ⟨c, m⟩ :: locate (m.next c.utf8Size) cs) := by
  simp only [isLineBreak, Bool.or_eq_false_iff, decide_eq_false_iff_not] at hb
  have hcr : ∀ ds, c = '\r' → cs = '\n' :: ds → False := fun _ hc _ => hb.1.1.1.2 hc
  have hcell : Cell.endsLine ⟨c, m⟩ = false := by
    simp [Cell.endsLine, Cell.isBreak, hb, isEnd_eq_false ha]
  rw [locate.eq_3 _ _ _ hcr, if_neg (by simp [hb]), if_neg (by simp [hb])]
  by_cases hm : comment ∨ c = '#'
  · rw [skipGap_comment hcell hm, if_pos (by simpa using hm)]
  · obtain ⟨hcom, hhash⟩ := not_or.1 hm
    rw [if_neg (by simpa using hm), Bool.eq_false_iff.2 hcom]
    by_cases hs : c = ' ' ∨ c = byteOrderMark ∧ m.column = 0
    · rw [skipGap_blank hcell hs, if_pos (by simpa using hs)]
    · rw [skipGap_stop hcell hhash hs, if_neg (by simpa using hs)]

/-- Where the gap at the start of a text ends, the end of the text is exactly if it is bare. -/
theorem skipGap_locate (comment : Bool) (cs : List Char) (m : Mark) (h : cs.all isAllowed) :
    ∃ c rest, skipGap false comment true (locate m cs) = (true, c :: rest) ∧
      c.isEnd = isBare (m.column = 0) comment cs := by
  induction cs generalizing comment m with
  | nil => cases comment <;> exact ⟨⟨'\x00', m⟩, [], rfl, rfl⟩
  | cons c cs ih =>
    obtain ⟨hc, hcs⟩ := Bool.and_eq_true_iff.1 h
    by_cases hb : isLineBreak c
    · obtain ⟨m', hm, hskip⟩ := skipGap_locate_break hb comment m cs
      rw [hskip, isBare_break _ hb]
      simpa [hm] using ih false m' hcs
    · have hb := Bool.eq_false_iff.2 hb
      rw [skipGap_locate_cons hb hc, isBare, hb, if_neg Bool.false_ne_true]
      split
      · exact ih true (m.next c.utf8Size) hcs
      split
      · next hs =>
        rw [hs, Bool.true_and]
        exact ih false (m.next c.utf8Size) hcs
      · next hs =>
        rw [Bool.eq_false_iff.2 hs, Bool.false_and]
        exact ⟨_, _, rfl, isEnd_eq_false hc m⟩

def Pushes (x : Option Scan) : Prop :=
  ∀ s, x = some s → ∃ (u : Scan) (t : Token) (rest : List Cell), s = u.push t rest

theorem pushes_some (s : Scan) (t : Token) (rest : List Cell) : Pushes (some (s.push t rest)) := by
  rintro _ ⟨⟩
  exact ⟨s, t, rest, rfl⟩

theorem pushes_none : Pushes none := nofun

theorem pushes_bind {α : Type} {f : α → Option Scan} (x : Option α) (h : ∀ a, Pushes (f a)) :
    Pushes (x >>= f) := by
  intro s hs
  obtain ⟨a, -, ha⟩ := Option.bind_eq_some_iff.1 hs
  exact h a s ha

theorem pushes_ite {p : Prop} [Decidable p] {x y : Option Scan} (hx : Pushes x) (hy : Pushes y) :
    Pushes (if p then x else y) := by
  split
  · exact hx
  · exact hy

theorem pushes_openFlow (s : Scan) (here : Mark) (t : Token) (rest : List Cell) :
    Pushes (s.openFlow here t rest) :=
  pushes_bind _ fun _ => pushes_some _ _ _

theorem pushes_closeFlow (s : Scan) (t : Token) (rest : List Cell) :
    Pushes (s.closeFlow t rest) :=
  pushes_bind _ fun _ => pushes_some _ _ _

theorem pushes_readValue (s : Scan) (here : Mark) (rest : List Cell) :
    Pushes (s.readValue here rest) := by
  rw [readValue]
  split
  · exact pushes_some _ _ _
  · exact pushes_ite pushes_none (pushes_some _ _ _)

theorem pushes_readToken (s : Scan) (c : Cell) (rest : List Cell) :
    Pushes (s.readToken c rest) := by
  have one (x : Option Scan) (t : Token) (r : List Cell) :
      Pushes (x >>= fun s => some (s.push t r)) := pushes_bind x fun s => pushes_some s t r
  rw [readToken]
  refine pushes_ite (pushes_bind _ fun _ => pushes_bind _ fun _ => pushes_some _ _ _) <|
    pushes_ite (one _ _ _) <| pushes_ite (one _ _ _) <|
    pushes_ite (pushes_openFlow _ _ _ _) <| pushes_ite (pushes_openFlow _ _ _ _) <|
    pushes_ite (pushes_closeFlow _ _ _) <| pushes_ite (pushes_closeFlow _ _ _) <|
    pushes_ite (pushes_bind _ fun _ => pushes_some _ _ _) <|
    pushes_ite (pushes_ite pushes_none (pushes_bind _ fun _ => pushes_some _ _ _)) <|
    pushes_ite (pushes_ite pushes_none (pushes_bind _ fun _ => pushes_some _ _ _)) <|
    pushes_ite (pushes_readValue _ _ _) <|
    pushes_ite (pushes_bind _ fun _ => one _ _ _) <|
    pushes_ite (pushes_bind _ fun _ => one _ _ _) <|
    pushes_ite (pushes_bind _ fun _ => one _ _ _) <|
    pushes_ite (pushes_bind _ fun _ => pushes_bind _ fun _ => pushes_some _ _ _) <|
    pushes_ite (pushes_bind _ fun _ => one _ _ _) <|
    pushes_ite (pushes_bind _ fun _ => one _ _ _) <|
    pushes_ite (pushes_bind _ fun _ => pushes_bind _ fun _ => pushes_some _ _ _) pushes_none

theorem giveUp_tokens {s s' : Scan} (h : s.giveUp = some s') : s'.tokens = s.tokens := by
  unfold giveUp at h
  split at h
  · split at h
    · cases h
    · cases h
      rfl
  · cases h
    rfl

theorem dropStale_tokens {s s' : Scan} {here : Mark} (h : s.dropStale here = some s') :
    s'.tokens = s.tokens := by
  obtain ⟨candidate, -, h⟩ := Option.bind_eq_some_iff.1 h
  obtain ⟨levels, -, h⟩ := Option.bind_eq_some_iff.1 h
  cases h
  rfl

theorem closeBlocks_size (column : Int) (tokens : Array Token) (indent : Int) (outer : List Int) :
    tokens.size ≤ (closeBlocks column tokens indent outer).1.size := by
  induction outer generalizing tokens indent with
  | nil => exact Nat.le_refl _
  | cons i outer ih =>
    rw [closeBlocks]
    split
    · exact Nat.le_trans (by simp) (ih _ i)
    · exact Nat.le_refl _

theorem dedent_size (s : Scan) (column : Int) : s.tokens.size ≤ (s.dedent column).tokens.size := by
  rw [dedent]
  split
  · exact Nat.le_refl _
  · exact closeBlocks_size column s.tokens s.indent s.outer

/-- Once there is a token, it stays. -/
theorem run_ne_nil {fuel : Nat} {s : Scan} {ts : List Token} (hs : 0 < s.tokens.size)
    (h : run fuel s = some ts) : ts ≠ [] := by
  induction fuel generalizing s with
  | zero => cases h
  | succ fuel ih =>
    rw [run] at h
    split at h
    · cases h
    · obtain ⟨u, hu, h⟩ := Option.bind_eq_some_iff.1 h
      have hu : 0 < u.tokens.size := by rwa [dropStale_tokens hu]
      split at h
      · obtain ⟨v, hv, h⟩ := Option.bind_eq_some_iff.1 h
        cases h
        rw [giveUp_tokens hv]
        refine List.ne_nil_of_length_pos (Nat.lt_of_lt_of_le hu ?_)
        exact Nat.le_trans (dedent_size u _) (dedent_size _ _)
      · obtain ⟨v, hv, h⟩ := Option.bind_eq_some_iff.1 h
        obtain ⟨w, t, rest, rfl⟩ := pushes_readToken _ _ _ v hv
        exact ih (by simp [push]) h

/-- A text without tokens ends where its first gap does. -/
theorem run_start {fuel : Nat} {cells rest : List Cell} {c : Cell}
    (h : skipGap false false true cells = (true, c :: rest)) :
    run (fuel + 1) (.start cells) = some [] ↔ c.isEnd := by
  have hskip : (start cells).skip = { start cells with rest := c :: rest } := by
    simp [skip, start, inFlow, h]
  rw [run, hskip]
  by_cases hc : c.isEnd
  · simp [start, hc, dropStale, refresh, dedent, inFlow, closeBlocks, giveUp]
  · simp only [hc, Bool.false_eq_true, if_false, iff_false]
    intro h
    obtain ⟨u, hu, h⟩ := Option.bind_eq_some_iff.1 h
    obtain ⟨v, hv, h⟩ := Option.bind_eq_some_iff.1 h
    obtain ⟨w, t, rest, rfl⟩ := pushes_readToken _ _ _ v hv
    exact run_ne_nil (by simp [push]) h rfl

end Scan

theorem tokens?_eq_nil {s : String} :
    tokens? s = some [] ↔ s.toList.all isAllowed ∧ isBare true false s.toList := by
  rw [tokens?, cells?]
  by_cases ha : s.toList.all isAllowed
  · obtain ⟨c, rest, hc, hb⟩ := Scan.skipGap_locate false s.toList .start ha
    have hlen : (locate .start s.toList).length = (locate .start s.toList).length - 1 + 1 := by
      cases hl : locate .start s.toList with
      | nil =>
        rw [hl] at hc
        cases hc
      | cons c cs => rfl
    rw [if_pos ha, Option.bind_eq_bind, Option.bind_some, hlen, Scan.run_start hc, hb]
    simp [ha, Mark.start]
  · simp [ha]

theorem Document.ofSource?_of_tokens {s : String} (h : tokens? s = some []) :
    ofSource? s = some .null := by
  rw [ofSource?, h]
  rfl

end Yaml

namespace Store

open Yaml (tokens? isAllowed isBare isLineBreak Document)

/-- White space only spaces and line feeds, and carriage returns before these. -/
def PlainSpace (cs : List Char) : Prop :=
  (∀ c ∈ cs, Unicode.isSpace c → c = ' ' ∨ c = '\n' ∨ c = '\r') ∧
    ∀ xs ys, cs = xs ++ '\r' :: ys → ys.head? = some '\n'

theorem PlainSpace.tail {c : Char} {cs : List Char} (h : PlainSpace (c :: cs)) : PlainSpace cs := by
  refine ⟨fun d hd => h.1 d (List.mem_cons_of_mem c hd), fun xs ys hs => h.2 (c :: xs) ys ?_⟩
  rw [hs, List.cons_append]

theorem isBare_of_isBlank {cs : List Char} (hs : PlainSpace cs) {comment : Bool}
    (h : isBlank comment cs) (start : Bool) : isBare start comment cs := by
  induction cs generalizing start comment with
  | nil => rfl
  | cons c cs ih =>
    rw [isBlank] at h
    by_cases hn : c = '\n'
    · subst hn
      exact ih hs.tail (by simpa using h) true
    · rw [if_neg hn] at h
      by_cases hr : c = '\r'
      · -- a line feed follows, at which the line ends for both
        obtain ⟨ds, rfl⟩ := List.head?_eq_some_iff.1 (hs.2 [] cs (congrArg (· :: cs) hr))
        have hds : isBlank false ('\n' :: ds) := by
          split at h
          · exact h
          · exact (Bool.and_eq_true_iff.1 h).2
        rw [hr]
        exact ih hs.tail hds true
      · have hb : isLineBreak c = false := by
          rw [← Bool.not_eq_true]
          intro hb
          simp only [isLineBreak, Bool.or_eq_true, decide_eq_true_eq, hn, hr, false_or] at hb
          rcases hb with (rfl | rfl) | rfl <;>
            exact absurd (hs.1 _ List.mem_cons_self rfl) (by decide)
        rw [isBare, hb, if_neg Bool.false_ne_true]
        by_cases hm : comment || c = '#'
        · rw [if_pos hm] at h ⊢
          exact ih hs.tail h false
        · rw [if_neg hm] at h ⊢
          obtain ⟨hspace, h⟩ := Bool.and_eq_true_iff.1 h
          have hc : c = ' ' := by
            rcases hs.1 c List.mem_cons_self hspace with hc | hc | hc
            · exact hc
            · exact absurd hc hn
            · exact absurd hc hr
          simp [hc, ih hs.tail h false]

/-- A file whose text counts as blank gives no parameters, whatever its document is. There is none
exactly if the text is bare, as it is where its white space is plain. -/
theorem blank_text {text : String} (h : isBlank false text.toList) :
    (∀ (files : Files) path, files.text? path = some text → load files path = .ok ⟨[]⟩) ∧
      (tokens? text = some [] ↔ text.toList.all isAllowed ∧ isBare true false text.toList) ∧
      (tokens? text = some [] → Document.ofSource? text = some .null) ∧
      (text.toList.all isAllowed → PlainSpace text.toList → tokens? text = some []) := by
  refine ⟨fun files path ht => ?_, Yaml.tokens?_eq_nil, Document.ofSource?_of_tokens, ?_⟩
  · rw [load_of_text ht, readParams, if_pos h]
    rfl
  · exact fun ha hs => Yaml.tokens?_eq_nil.2 ⟨ha, isBare_of_isBlank hs h true⟩

/-- A carriage return ends the comment of this text, and a key comes after it. -/
theorem key_after_comment_lost :
    let files : Files := fun _ => some "# c\rkey: 1\n".toUTF8
    isBlank false "# c\rkey: 1\n".toList ∧ load files "p.yaml" = .ok ⟨[]⟩ ∧
      Document.ofSource? "# c\rkey: 1\n" = some (.mapping [(.string "key", .int 1)]) ∧
      valueOf (.mapping [(.string "key", .int 1)]) = .ok (.map [("key", .int 1)]) := by
  intro files
  have ht : files.text? "p.yaml" = some "# c\rkey: 1\n" := fromUTF8?_toUTF8 "# c\rkey: 1\n"
  have hb : isBlank false "# c\rkey: 1\n".toList := by decide
  refine ⟨hb, ?_, by cbv, rfl⟩
  rw [load_of_text ht, readParams, if_pos hb]
  rfl

theorem blank_text_comments :
    let files : Files := fun _ => some "  # a\r\n\n# b".toUTF8
    isBlank false "  # a\r\n\n# b".toList ∧ load files "p.yaml" = .ok ⟨[]⟩ ∧
      Document.ofSource? "  # a\r\n\n# b" = some .null := by
  intro files
  have hb : isBlank false "  # a\r\n\n# b".toList := rfl
  obtain ⟨hl, ht, hd, -⟩ := blank_text hb
  have hf : files.text? "p.yaml" = some "  # a\r\n\n# b" :=
    fromUTF8?_toUTF8 "  # a\r\n\n# b"
  exact ⟨hb, hl files "p.yaml" hf, hd (ht.2 ⟨rfl, by decide⟩)⟩

end Store
end Stencil
