import Stencil.Proofs.FloatRange
import Stencil.Proofs.Integers
import Stencil.Proofs.LexicalErrors
import Stencil.Proofs.PathReading

/-! What number literals become. The reader of a source is followed to each place in a tag where
it starts a symbol: an error there is the error of the source, and all tokens of tags come from
there. -/
namespace Stencil.Template

inductive Outside (gs : List Glyph) : List Glyph → Prop where
  | start : Outside gs gs
  | tag {hs g k body p rest} : Outside gs hs → (splitOpener hs).2 = g :: k :: body →
      readOpened g k body = .ok (p, rest) → Outside gs rest

/-- The reader comes to a rest of the source within a tag, past white space. The symbol before is a
dot or not. -/
inductive Within (gs : List Glyph) (tag : Tag) : Bool → List Glyph → Prop where
  | opened {hs g k rest} : Outside gs hs → (splitOpener hs).2 = g :: k :: rest → k.char ≠ '#' →
      tag = (if k.char = '%' then .block else .output) → Within gs tag false (skipSpaces rest)
  | symbol {afterDot g rest s more} : Within gs tag afterDot (g :: rest) →
      tag.closesAt g rest = false → readSymbol afterDot g rest = .ok (s, more) →
      Within gs tag (s = .dot) (skipSpaces more)

variable {gs hs rest : List Glyph} {tag : Tag} {afterDot : Bool} {e : ParseError}

theorem splitOpener_suffix (gs : List Glyph) : (splitOpener gs).2 <:+ gs :=
  ⟨_, (splitOpener_divides gs).1⟩

theorem Outside.suffix (h : Outside gs hs) : hs <:+ gs := by
  induction h with
  | start => exact List.suffix_rfl
  | @tag hs g k body p rest _ hs' hp ih =>
    have hbody : body <:+ g :: k :: body := ⟨[g, k], rfl⟩
    exact (((readOpened_suffix hp).trans hbody).trans (hs' ▸ splitOpener_suffix hs)).trans ih

theorem Within.suffix (h : Within gs tag afterDot hs) : hs <:+ gs := by
  induction h with
  | @opened hs g k rest ho hs' _ _ =>
    have hrest : rest <:+ g :: k :: rest := ⟨[g, k], rfl⟩
    exact (((skipSpaces_suffix rest).trans hrest).trans (hs' ▸ splitOpener_suffix hs)).trans
      ho.suffix
  | symbol _ _ hr ih => exact ((skipSpaces_suffix _).trans (readSymbol_suffix hr)).trans ih

theorem Outside.error (h : Outside gs hs) (he : pieces hs = .error e) : pieces gs = .error e := by
  induction h with
  | start => exact he
  | @tag hs g k body p rest _ hs' hp ih =>
    refine ih ?_
    rw [pieces_opened (Prod.ext rfl hs'), hp]
    simp only [Except.bind, he]
    rfl

/-- Where the reader of a tag fails, the source fails. -/
theorem Within.error (h : Within gs tag afterDot hs)
    (he : ∀ opener more, skipSpaces more = hs → readTag tag opener afterDot more = .error e) :
    pieces gs = .error e := by
  induction h with
  | @opened hs g k rest ho hs' hk ht =>
    refine ho.error ?_
    have hopened : readOpened g k rest = .error e := by
      rw [readOpened, if_neg hk, ← ht]
      simp only [he g.pos rest rfl]
    rw [pieces_opened (Prod.ext rfl hs'), hopened]
    rfl
  | @symbol afterDot g rest s more _ hc hr ih =>
    refine ih fun opener before hb => ?_
    rw [readTag_eq, hb]
    simp only [hc, hr, he opener more rfl]
    rfl

theorem Within.symbol_error {g : Glyph} {cause : Cause} (h : Within gs tag afterDot (g :: rest))
    (hc : tag.closesAt g rest = false) (hr : readSymbol afterDot g rest = .error cause) :
    pieces gs = .error ⟨cause, g.pos⟩ := by
  refine h.error fun opener more hm => ?_
  rw [readTag_eq, hm]
  simp only [hc, hr]
  rfl

def ReadFrom (gs : List Glyph) (t : Token) : Prop :=
  ∃ tag afterDot g rest more, Within gs tag afterDot (g :: rest) ∧
    readSymbol afterDot g rest = .ok (t.symbol, more) ∧ t.pos = g.pos

theorem readTag_readFrom {opener : Pos} {more : List Glyph} {tokens : List Token}
    (hw : Within gs tag afterDot (skipSpaces hs))
    (h : readTag tag opener afterDot hs = .ok (tokens, more)) {t : Token} (ht : t ∈ tokens) :
    t.symbol = .closing tag ∨ ReadFrom gs t := by
  fun_induction readTag tag opener afterDot hs generalizing tokens with
  | case1 => cases h
  | case2 =>
    cases h
    rw [List.mem_singleton.1 ht]
    exact .inl rfl
  | case3 => cases h
  | case4 => cases h
  | case5 dot hs g r hg hc s more' hr _ tokens' rest' htag ih =>
    cases h
    rw [hg] at hw
    rcases List.mem_cons.1 ht with rfl | ht
    · exact .inr ⟨tag, dot, g, r, more', hw, hr, rfl⟩
    · exact ih (hw.symbol (Bool.eq_false_iff.2 hc) hr) htag ht

theorem Layout.readFrom {ps : List Piece} (hl : Layout hs ps) (ho : Outside gs hs) {p : Piece}
    (hp : p ∈ ps) {t : Token} (ht : t ∈ p.tokens) :
    (∃ tag, t.symbol = .opening tag ∨ t.symbol = .closing tag) ∨ ReadFrom gs t := by
  induction hl with
  | last =>
    rw [List.mem_singleton.1 hp] at ht
    cases ht
  | @tag text body rest g k q ps hplain hopens hq _ ih =>
    have hsplit : (splitOpener (text ++ (g :: k :: body ++ rest))).2 = g :: k :: (body ++ rest) :=
      congrArg Prod.snd (splitOpener_plain hplain (.inr hopens))
    rcases List.mem_cons.1 hp with rfl | hp
    · cases ht
    rcases List.mem_cons.1 hp with rfl | hp
    · unfold readOpened at hq
      split at hq
      · split at hq
        · cases hq
          cases ht
        · cases hq
      · rename_i hk
        simp only at hq
        split at hq
        · cases hq
        · rename_i tokens more htag
          cases hq
          rcases List.mem_cons.1 ht with rfl | ht
          · exact .inl ⟨_, .inl rfl⟩
          · rcases readTag_readFrom (.opened ho hsplit hk rfl) htag ht with hclose | hread
            · exact .inl ⟨_, .inr hclose⟩
            · exact .inr hread
    · exact ih (.tag ho hsplit hq) hp

theorem mem_settled {o : Options} {before ps : List Piece} {t : Token}
    (h : t ∈ settled o before ps) : (∃ s, t.symbol = .text s) ∨ ∃ p ∈ ps, t ∈ p.tokens := by
  induction ps generalizing before with
  | nil => cases h
  | cons p ps ih =>
    have hlater {before : List Piece} (h : t ∈ settled o before ps) :
        (∃ s, t.symbol = .text s) ∨ ∃ q ∈ p :: ps, t ∈ q.tokens :=
      (ih h).imp_right fun ⟨q, hq, ht⟩ => ⟨q, List.mem_cons_of_mem p hq, ht⟩
    cases p with
    | comment => exact hlater h
    | tag tag tokens =>
      rcases List.mem_append.1 h with h | h
      · exact .inr ⟨_, List.mem_cons_self, h⟩
      · exact hlater h
    | text gs =>
      rcases List.mem_append.1 h with h | h
      · unfold textTokens at h
        split at h
        · cases h
        · rw [List.mem_singleton.1 h]
          exact .inl ⟨_, rfl⟩
      · exact hlater h

/-- A token of a source is a text, a delimiter or read within a tag. -/
theorem token_readFrom {o : Options} {source : String} {ts : List Token} {t : Token}
    (h : tokenize o source = .ok ts) (ht : t ∈ ts) :
    (∃ s, t.symbol = .text s) ∨ (∃ tag, t.symbol = .opening tag ∨ t.symbol = .closing tag) ∨
      ReadFrom (glyphs source) t := by
  obtain ⟨ps, hl, rfl⟩ := (tokenize_by_lines o source ts).1 h
  rcases mem_settled ht with htext | ⟨p, hp, ht⟩
  · exact .inl htext
  · exact .inr (hl.readFrom .start hp ht)

def signedInt (negative : Bool) (digits : List Char) : Int :=
  if negative then -(Nat.ofDigitChars 10 digits 0 : Int) else Nat.ofDigitChars 10 digits 0

/-- A number literal: digits that the reader of the source comes to within a tag. What follows is
no digit. -/
structure NumberAt (source : String) (afterDot : Bool) (before : List Char) (negative : Bool)
    (digits rest : List Char) : Prop where
  chars : source.toList = before ++ (minus negative ++ (digits ++ rest))
  areDigits : AreDigits digits
  maximal : ∀ d ∈ rest.head?, d.isDigit = false
  reached : ∃ tag, Within (glyphs source) tag afterDot
    (locate (placeAfter before) (minus negative ++ (digits ++ rest)))

theorem ofDigits?_some {negative : Bool} {digits : List Char} {n : Int64}
    (h : Value.ofDigits? negative digits = some n) : n.toInt = signedInt negative digits :=
  Value.toInt_of_int64? h

theorem ofDigits?_none_iff {negative : Bool} {digits : List Char} :
    Value.ofDigits? negative digits = none ↔
      signedInt negative digits < -2 ^ 63 ∨ 2 ^ 63 ≤ signedInt negative digits := by
  have hmin : Int64.minValue.toInt = -2 ^ 63 := by decide
  have hmax : Int64.maxValue.toInt = 2 ^ 63 - 1 := by decide
  change Value.int64? (signedInt negative digits) = none ↔ _
  rw [Value.int64?, hmin, hmax]
  split
  · exact iff_of_false (Option.some_ne_none _) (by omega)
  · exact iff_of_true rfl (by omega)

theorem NumberStarts.digits {negative : Bool} {ds : List Glyph}
    (h : NumberStarts negative ds gs) : ds.head?.any Glyph.isDigit := by
  cases h <;> assumption

theorem NumberStarts.ne_nil {negative : Bool} {ds : List Glyph} (h : NumberStarts negative ds gs) :
    gs ≠ [] := by
  rintro rfl
  cases h with
  | digit hd => cases hd

theorem NumberStarts.chars {negative : Bool} {ds : List Glyph} (h : NumberStarts negative ds gs) :
    gs.map Glyph.char = minus negative ++ ds.map Glyph.char := by
  cases h with
  | digit => rfl
  | signed hg _ => exact congrArg (· :: _) hg

theorem head_isDigit {digits : List Char} (h : AreDigits digits) (rest : List Char) :
    (digits ++ rest).head?.any Char.isDigit := by
  obtain ⟨c, cs, rfl⟩ := List.exists_cons_of_ne_nil h.1
  exact h.2 c List.mem_cons_self

theorem numberStarts_of_chars {negative : Bool} {cs : List Char} (hd : cs.head?.any Char.isDigit)
    (h : gs.map Glyph.char = minus negative ++ cs) :
    ∃ ds, ds.map Glyph.char = cs ∧ NumberStarts negative ds gs := by
  have hhead {ds : List Glyph} (hds : ds.map Glyph.char = cs) : ds.head?.any Glyph.isDigit := by
    rw [← hds, List.head?_map, Option.any_map] at hd
    exact hd
  cases negative with
  | false => exact ⟨gs, h, .digit (hhead h)⟩
  | true =>
    obtain ⟨g, ds, rfl, hg, hds⟩ := List.map_eq_cons_iff.1 h
    exact ⟨ds, hds, .signed hg (hhead hds)⟩

theorem NumberStarts.startsInner {negative : Bool} {ds : List Glyph} {g : Glyph}
    (h : NumberStarts negative ds (g :: gs)) : startsInner g.char := by
  cases h with
  | digit hd => exact isDigit_starts hd
  | signed hg _ =>
    rw [hg]
    decide

def Symbol.isNumber : Symbol → Bool
  | int _ | float _ => true
  | _ => false

theorem readWord_not_number (gs : List Glyph) : (readWord gs).1.isNumber = false := by
  unfold readWord
  dsimp only
  split <;> rfl

theorem readSign_not_number {c : Char} {s : Symbol} (h : readSign c gs = .ok (s, rest)) :
    s.isNumber = false := by
  unfold readSign at h
  split at h
  case h_5 =>
    unfold readThousands at h
    split at h
    · split at h <;> cases h
      rfl
    · cases h
  all_goals first | (split at h <;> cases h <;> rfl) | (cases h <;> rfl)

theorem readSymbol_number {g : Glyph} {s : Symbol}
    (h : readSymbol afterDot g gs = .ok (s, rest)) (hs : s.isNumber) :
    ∃ negative ds, NumberStarts negative ds (g :: gs) ∧
      readNumber afterDot negative ds = .ok (s, rest) := by
  unfold readSymbol at h
  split at h
  · split at h <;> cases h
    cases hs
  split at h
  · rename_i hd
    exact ⟨false, g :: gs, .digit hd, h⟩
  split at h
  · rename_i hm
    obtain ⟨hm, hd⟩ := Bool.and_eq_true_iff.1 hm
    exact ⟨true, gs, .signed (of_decide_eq_true hm) hd, h⟩
  split at h
  · have hn := readWord_not_number (g :: gs)
    rw [Except.ok.inj h, hs] at hn
    cases hn
  · rw [readSign_not_number h] at hs
    cases hs

/-- The digits in front of glyphs are those in front of their characters. -/
theorem split_digits {ds : List Glyph} {digits rest : List Char}
    (h : ds.map Glyph.char = digits ++ rest) (hd : ∀ c ∈ digits, c.isDigit)
    (hr : ∀ c ∈ rest.head?, c.isDigit = false) :
    (ds.takeWhile Glyph.isDigit).map Glyph.char = digits ∧
      (ds.dropWhile Glyph.isDigit).map Glyph.char = rest := by
  have hp : Char.isDigit ∘ Glyph.char = Glyph.isDigit := rfl
  rw [← hp, ← List.takeWhile_map, ← List.dropWhile_map, h]
  exact span_stop hd hr

section ReadNumber

variable {negative : Bool} {ds more : List Glyph}

theorem readNumber_int {n : Int64} (h : readNumber afterDot negative ds = .ok (.int n, more)) :
    hasPlaces afterDot ((ds.dropWhile Glyph.isDigit).map Glyph.char) = false ∧
      n.toInt = signedInt negative ((ds.takeWhile Glyph.isDigit).map Glyph.char) := by
  rcases readNumber_cases afterDot negative ds with ⟨p, d, rest, -, -, -, -, hx⟩ | ⟨hp, hx⟩
  · cases hx.symm.trans h
  · rw [hx] at h
    split at h
    · rename_i n' hn
      cases h
      exact ⟨hp, ofDigits?_some hn⟩
    · cases h

theorem readNumber_float {x : Float}
    (h : readNumber afterDot negative ds = .ok (.float x, more)) :
    afterDot = false ∧ ∃ places rest,
      (ds.dropWhile Glyph.isDigit).map Glyph.char = '.' :: (places ++ rest) ∧ AreDigits places ∧
      (∀ d ∈ rest.head?, d.isDigit = false) ∧
      x = floatOf negative ((ds.takeWhile Glyph.isDigit).map Glyph.char) places := by
  rcases readNumber_cases afterDot negative ds with ⟨p, d, rest, hr, hp, hd, hdot, hx⟩ | ⟨-, hx⟩
  · have hd : (d :: rest).head?.any Glyph.isDigit := hd
    cases hx.symm.trans h
    refine ⟨hdot, _, ((d :: rest).dropWhile Glyph.isDigit).map Glyph.char, ?_,
      areDigits_takeWhile hd, not_digit_of_dropWhile _, rfl⟩
    rw [hr, List.map_cons, hp, ← List.map_append, List.takeWhile_append_dropWhile]
  · rw [hx] at h
    split at h <;> cases h

theorem readNumber_error
    (hp : hasPlaces afterDot ((ds.dropWhile Glyph.isDigit).map Glyph.char) = false)
    (hn : Value.ofDigits? negative ((ds.takeWhile Glyph.isDigit).map Glyph.char) = none) :
    readNumber afterDot negative ds = .error (.integerOutOfRange
      (String.ofList (minus negative ++ (ds.takeWhile Glyph.isDigit).map Glyph.char))) := by
  rcases readNumber_cases afterDot negative ds with ⟨p, d, rest, hr, hpoint, hd, hdot, -⟩ | ⟨-, hx⟩
  · have hd : d.char.isDigit := hd
    rw [hr] at hp
    simp [hasPlaces, hpoint, hd, hdot] at hp
  · rw [hx, hn]

end ReadNumber

/-- A number token is read from a literal where it stands. -/
theorem ReadFrom.number {source : String} {t : Token} (h : ReadFrom (glyphs source) t)
    (hn : t.symbol.isNumber) :
    ∃ afterDot before negative ds more,
      NumberAt source afterDot before negative ((ds.takeWhile Glyph.isDigit).map Glyph.char)
        ((ds.dropWhile Glyph.isDigit).map Glyph.char) ∧
      t.pos = placeAfter before ∧ readNumber afterDot negative ds = .ok (t.symbol, more) := by
  obtain ⟨tag, afterDot, g, gs, more, hw, hr, hp⟩ := h
  obtain ⟨negative, ds, hstart, hread⟩ := readSymbol_number hr hn
  obtain ⟨xs, hxs⟩ := hw.suffix
  obtain ⟨hchars, hlocate⟩ := locate_eq_append hxs.symm
  have hplace : g :: gs = locate (placeAfter (xs.map Glyph.char)) ((g :: gs).map Glyph.char) :=
    hlocate.trans (congrArg (locate · _) (foldl_after_placeAfter [] _))
  have hsplit : (g :: gs).map Glyph.char =
      minus negative ++ ((ds.takeWhile Glyph.isDigit).map Glyph.char ++
        (ds.dropWhile Glyph.isDigit).map Glyph.char) := by
    rw [← List.map_append, List.takeWhile_append_dropWhile, hstart.chars]
  have hpos : t.pos = placeAfter (xs.map Glyph.char) := hp.trans (pos_of_locate hplace.symm)
  rw [hsplit] at hchars hplace
  exact ⟨afterDot, xs.map Glyph.char, negative, ds, more,
    ⟨hchars, areDigits_takeWhile hstart.digits, not_digit_of_dropWhile ds, tag, hplace ▸ hw⟩,
    hpos, hread⟩

/-- What the reader does when it comes to a number literal. -/
theorem NumberAt.read {source : String} {before digits rest : List Char} {negative : Bool}
    (h : NumberAt source afterDot before negative digits rest) :
    ∃ tag g gs ds, Within (glyphs source) tag afterDot (g :: gs) ∧ g.pos = placeAfter before ∧
      tag.closesAt g gs = false ∧ readSymbol afterDot g gs = readNumber afterDot negative ds ∧
      (ds.takeWhile Glyph.isDigit).map Glyph.char = digits ∧
      (ds.dropWhile Glyph.isDigit).map Glyph.char = rest := by
  obtain ⟨tag, hw⟩ := h.reached
  obtain ⟨ds, hds, hstart⟩ := numberStarts_of_chars (head_isDigit h.areDigits rest)
    (map_char_locate (placeAfter before) (minus negative ++ (digits ++ rest)))
  obtain ⟨g, gs, hg⟩ := List.exists_cons_of_ne_nil hstart.ne_nil
  rw [hg] at hw hstart
  exact ⟨tag, g, gs, ds, hw, pos_of_locate hg, closesAt_of_starts hstart.startsInner,
    hstart.read afterDot, split_digits hds h.areDigits.2 h.maximal⟩

theorem isFinite_floatOf (negative : Bool) (digits : List Char) {places : List Char}
    (h : AreDigits places) : (floatOf negative digits places).isFinite ↔
      Nat.ofDigitChars 10 (digits ++ places) 0 < floatLimit * 10 ^ places.length := by
  have hfinite := isFinite_toFloat (Nat.ofDigitChars 10 (digits ++ places) 0)
    (List.length_pos_of_ne_nil h.1)
  cases negative with
  | false => exact hfinite
  | true => exact (isFinite_neg _).trans hfinite

theorem number_readFrom {o : Options} {source : String} {ts : List Token} {t : Token}
    (h : tokenize o source = .ok ts) (ht : t ∈ ts) (hn : t.symbol.isNumber) :
    ReadFrom (glyphs source) t := by
  rcases token_readFrom h ht with ⟨s, hs⟩ | ⟨tag, hs | hs⟩ | hr
  · rw [hs] at hn
    cases hn
  · rw [hs] at hn
    cases hn
  · rw [hs] at hn
    cases hn
  · exact hr

section Alone

variable {digits : List Char}

/-- An output tag may hold a number literal alone. -/
theorem numberAt_outputTag (negative : Bool) (hd : AreDigits digits) :
    NumberAt (outputTag (String.ofList (minus negative ++ digits))) false ['\x7b', '\x7b', ' ']
      negative digits [' ', '\x7d', '\x7d'] := by
  generalize hsource : outputTag (String.ofList (minus negative ++ digits)) = source
  have hchars : source.toList =
      ['\x7b', '\x7b', ' '] ++ (minus negative ++ (digits ++ [' ', '\x7d', '\x7d'])) := by
    rw [← hsource]
    simp [outputTag]
  have hplace : placeAfter ['\x7b', '\x7b', ' '] = ⟨1, 4⟩ := by decide
  refine ⟨hchars, hd, by simp, .output, ?_⟩
  rw [hplace]
  obtain ⟨ds, -, hstart⟩ := numberStarts_of_chars (head_isDigit hd _)
    (map_char_locate ⟨1, 4⟩ (minus negative ++ (digits ++ [' ', '\x7d', '\x7d'])))
  obtain ⟨g, gs, hg⟩ := List.exists_cons_of_ne_nil hstart.ne_nil
  rw [hg] at hstart ⊢
  have hglyphs : glyphs source =
      ⟨'\x7b', ⟨1, 1⟩⟩ :: ⟨'\x7b', ⟨1, 2⟩⟩ :: ([⟨' ', ⟨1, 3⟩⟩] ++ g :: gs) := by
    rw [glyphs, hchars, ← hg]
    rfl
  have hsplit : (splitOpener (glyphs source)).2 =
      ⟨'\x7b', ⟨1, 1⟩⟩ :: ⟨'\x7b', ⟨1, 2⟩⟩ :: ([⟨' ', ⟨1, 3⟩⟩] ++ g :: gs) := by
    rw [hglyphs]
    exact congrArg Prod.snd (splitOpener_plain plain_nil (.inr rfl))
  have hw : Within (glyphs source) .output false (skipSpaces ([⟨' ', ⟨1, 3⟩⟩] ++ g :: gs)) :=
    .opened .start hsplit (by decide) rfl
  rwa [skipSpaces_gap (by decide), skipSpaces_cons (not_space_of_starts hstart.startsInner)] at hw

/-- A float literal is all that the tag holds. -/
theorem tagReads_float {places : List Char} (hd : AreDigits digits) (hp : AreDigits places)
    (opener : Pos) {tail : List Glyph} (hg : gs.map Glyph.char = digits ++ '.' :: places)
    (ht : tail.map Glyph.char = ' ' :: Tag.output.closer.toList) :
    TagReads opener false (gs ++ tail)
      [.float (floatOf false digits places), .closing .output] [] := by
  have hchars : (gs ++ tail).map Glyph.char =
      minus false ++ (digits ++ ('.' :: (places ++ ' ' :: Tag.output.closer.toList))) := by
    rw [List.map_append, hg, ht]
    simp [minus]
  generalize gs ++ tail = gs at hchars
  obtain ⟨ds, hds, hstart⟩ := numberStarts_of_chars (head_isDigit hd _) hchars
  obtain ⟨g, gs, rfl⟩ := List.exists_cons_of_ne_nil hstart.ne_nil
  have hread := hstart.read false
  obtain ⟨hdigits, hrest⟩ := split_digits hds hd.2 (by simp)
  rcases readNumber_cases false false ds with ⟨p, d, more, hr, hpoint, -, -, hx⟩ | ⟨hn, -⟩
  · rw [hr] at hrest
    have hmore := (List.cons.inj hrest).2
    obtain ⟨hplaces, hend⟩ := split_digits hmore hp.2 (by simp)
    obtain ⟨tokens, htokens, hsym⟩ := (tagReads_end opener hend).1
    rw [hx, hdigits, hplaces] at hread
    have hstart := hstart.startsInner
    refine ⟨_, readTag_symbol false (skipSpaces_cons (not_space_of_starts hstart))
      (closesAt_of_starts hstart) hread htokens, ?_⟩
    rw [symbols, List.map_cons]
    exact congrArg _ hsym
  · obtain ⟨c, cs, rfl⟩ := List.exists_cons_of_ne_nil hp.1
    have hc : c.isDigit := hp.2 c List.mem_cons_self
    rw [hrest] at hn
    simp [hasPlaces, hc] at hn

theorem tokenize_float (o : Options) {places : List Char} (hd : AreDigits digits)
    (hp : AreDigits places) :
    ∃ ts, tokenize o (outputTag (String.ofList (digits ++ '.' :: places))) = .ok ts ∧
      symbols ts =
        [.opening .output, .float (floatOf false digits places), .closing .output] :=
  tokenize_outputTag o fun opener _ _ hg ht =>
    tagReads_float hd hp opener (hg.trans String.toList_ofList) ht

end Alone

/-- An integer is that of its literal, and a literal out of range is refused where it starts. A
float is that of its literal, which is finite only below the limit. -/
theorem number_literals_exact (o : Options) (source : String) :
    (∀ ts, tokenize o source = .ok ts → ∀ t ∈ ts,
      (∀ n, t.symbol = .int n → ∃ afterDot before negative digits rest,
        NumberAt source afterDot before negative digits rest ∧ hasPlaces afterDot rest = false ∧
        t.pos = placeAfter before ∧ n.toInt = signedInt negative digits) ∧
      ∀ x, t.symbol = .float x → ∃ before negative digits places rest,
        NumberAt source false before negative digits ('.' :: (places ++ rest)) ∧
        AreDigits places ∧ (∀ d ∈ rest.head?, d.isDigit = false) ∧ t.pos = placeAfter before ∧
        x = floatOf negative digits places ∧
        (x.isFinite ↔
          Nat.ofDigitChars 10 (digits ++ places) 0 < floatLimit * 10 ^ places.length)) ∧
    ∀ afterDot before negative digits rest,
      NumberAt source afterDot before negative digits rest → hasPlaces afterDot rest = false →
      signedInt negative digits < -2 ^ 63 ∨ 2 ^ 63 ≤ signedInt negative digits →
      tokenize o source = .error
        ⟨.integerOutOfRange (String.ofList (minus negative ++ digits)), placeAfter before⟩ := by
  refine ⟨fun ts h t ht => ⟨fun n hn => ?_, fun x hx => ?_⟩, ?_⟩
  · have hnumber : t.symbol.isNumber := by rw [hn]; rfl
    obtain ⟨afterDot, before, negative, ds, more, hat, hpos, hread⟩ :=
      (number_readFrom h ht hnumber).number hnumber
    rw [hn] at hread
    obtain ⟨hplaces, hvalue⟩ := readNumber_int hread
    exact ⟨afterDot, before, negative, _, _, hat, hplaces, hpos, hvalue⟩
  · have hnumber : t.symbol.isNumber := by rw [hx]; rfl
    obtain ⟨afterDot, before, negative, ds, more, hat, hpos, hread⟩ :=
      (number_readFrom h ht hnumber).number hnumber
    rw [hx] at hread
    obtain ⟨rfl, places, rest, hrest, hplaces, hstop, rfl⟩ := readNumber_float hread
    exact ⟨before, negative, _, places, rest, hrest ▸ hat, hplaces, hstop, hpos, rfl,
      isFinite_floatOf negative _ hplaces⟩
  · intro afterDot before negative digits rest hat hplaces hrange
    obtain ⟨tag, g, gs, ds, hw, hpos, hclose, hread, rfl, rfl⟩ := hat.read
    rw [readNumber_error hplaces (ofDigits?_none_iff.2 hrange)] at hread
    rw [tokenize, hw.symbol_error hclose hread, hpos]

theorem number_literals_exact_alone :
    (∃ ts, tokenize ⟨true, true⟩ (outputTag "2.5") = .ok ts ∧
      ∃ t ∈ ts, ∃ x, t.symbol = .float x ∧ ∃ before negative digits places rest,
        NumberAt (outputTag "2.5") false before negative digits ('.' :: (places ++ rest)) ∧
        AreDigits places ∧ (∀ d ∈ rest.head?, d.isDigit = false) ∧ t.pos = placeAfter before ∧
        x = floatOf negative digits places ∧
        (x.isFinite ↔
          Nat.ofDigitChars 10 (digits ++ places) 0 < floatLimit * 10 ^ places.length)) ∧
    tokenize ⟨true, true⟩ (outputTag "9223372036854775808") =
      .error ⟨.integerOutOfRange "9223372036854775808", ⟨1, 4⟩⟩ := by
  constructor
  · have hd : AreDigits ['2'] := by decide
    have hp : AreDigits ['5'] := by decide
    obtain ⟨ts, hts, hsymbols⟩ := tokenize_float ⟨true, true⟩ hd hp
    have hmem : Symbol.float (floatOf false ['2'] ['5']) ∈ symbols ts := by
      rw [hsymbols]
      simp
    obtain ⟨t, ht, hsymbol⟩ := List.mem_map.1 hmem
    refine ⟨ts, hts, t, ht, _, hsymbol, ?_⟩
    exact ((number_literals_exact ⟨true, true⟩ (outputTag "2.5")).1 ts hts t ht).2 _ hsymbol
  · have hd : AreDigits "9223372036854775808".toList := by decide
    have hat := numberAt_outputTag false hd
    exact (number_literals_exact ⟨true, true⟩ (outputTag "9223372036854775808")).2 false _ _ _ _
      hat (by decide) (by decide)

/-- A one with 309 zeros. -/
theorem large_float_literal_infinite :
    ∃ ts x, tokenize ⟨true, true⟩
        (outputTag (String.ofList (('1' :: List.replicate 309 '0') ++ '.' :: ['0']))) = .ok ts ∧
      symbols ts = [.opening .output, .float x, .closing .output] ∧ ¬x.isFinite := by
  have hd : AreDigits ('1' :: List.replicate 309 '0') := by
    refine ⟨List.cons_ne_nil _ _, fun c hc => ?_⟩
    rcases List.mem_cons.1 hc with rfl | hc
    · rfl
    · rw [List.eq_of_mem_replicate hc]
      rfl
  have hp : AreDigits ['0'] := by decide
  obtain ⟨ts, hts, hsymbols⟩ := tokenize_float ⟨true, true⟩ hd hp
  refine ⟨ts, _, hts, hsymbols, ?_⟩
  rw [isFinite_floatOf false _ hp]
  decide +kernel

end Stencil.Template
