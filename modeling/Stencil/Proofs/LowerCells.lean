import Mathlib
import Stencil.Yaml.Scan

/-! Text that stands further down. Its cells keep their characters and columns, and no reader looks
at anything else: it gives the same, and leaves the same cells further down. No reader leaves more
cells than it was given. -/
namespace Stencil.Yaml

def Mark.lower (base m : Mark) : Mark := ⟨base.index + m.index, base.line + m.line, m.column⟩

def Cell.lower (base : Mark) (c : Cell) : Cell := ⟨c.char, base.lower c.mark⟩

class Leaves (ρ : Type) where
  rest : ρ → List Cell
  lower : Mark → ρ → ρ

instance : Leaves (List Cell) := ⟨id, fun base => List.map (Cell.lower base)⟩

instance {α ρ : Type} [Leaves ρ] : Leaves (α × ρ) :=
  ⟨fun r => Leaves.rest r.2, fun base r => (r.1, Leaves.lower base r.2)⟩

/-- The outcomes of a reader for at most `n` cells, and for the same cells further down. -/
structure Agree {ρ : Type} [Leaves ρ] (base : Mark) (n : Nat) (x y : Option ρ) : Prop where
  same : y = x.map (Leaves.lower base)
  shorter : ∀ r, x = some r → (Leaves.rest r).length ≤ n

section

variable {ρ σ : Type} [Leaves ρ] [Leaves σ] {base : Mark} {n m : Nat} {x y : Option ρ}

theorem Agree.none : Agree base n (none : Option ρ) none := ⟨rfl, nofun⟩

theorem Agree.some {r : ρ} (h : (Leaves.rest r).length ≤ n) :
    Agree base n (some r) (some (Leaves.lower base r)) := by
  refine ⟨rfl, ?_⟩
  rintro _ ⟨⟩
  exact h

theorem Agree.of_eq {r r' : ρ} (h : r' = Leaves.lower base r) (hn : (Leaves.rest r).length ≤ n) :
    Agree base n (Option.some r) (Option.some r') := by
  rw [h]
  exact .some hn

theorem Agree.mono (h : Agree base n x y) (hn : n ≤ m) : Agree base m x y :=
  ⟨h.same, fun r hr => Nat.le_trans (h.shorter r hr) hn⟩

theorem Agree.bind {f g : ρ → Option σ} (h : Agree base n x y)
    (hf : ∀ r, (Leaves.rest r).length ≤ n → Agree base m (f r) (g (Leaves.lower base r))) :
    Agree base m (x >>= f) (y >>= g) := by
  rw [h.same]
  cases hx : x with
  | none => exact .none
  | some r => exact hf r (h.shorter r hx)

/-- What does not depend on cells comes first. -/
theorem Agree.after {α : Type} (a : Option α) {f g : α → Option ρ}
    (hf : ∀ a, Agree base n (f a) (g a)) : Agree base n (a >>= f) (a >>= g) := by
  cases a with
  | none => exact .none
  | some a => exact hf a

theorem Agree.ite {p : Prop} [Decidable p] {x' y' : Option ρ} (h : p → Agree base n x y)
    (h' : ¬ p → Agree base n x' y') :
    Agree base n (if p then x else x') (if p then y else y') := by
  split
  · next hp => exact h hp
  · next hp => exact h' hp

theorem Agree.ite_iff {p q : Prop} [Decidable p] [Decidable q] {x' y' : Option ρ} (hq : q ↔ p)
    (h : p → Agree base n x y) (h' : ¬ p → Agree base n x' y') :
    Agree base n (if p then x else x') (if q then y else y') := by
  by_cases hp : p
  · rw [if_pos hp, if_pos (hq.2 hp)]
    exact h hp
  · rw [if_neg hp, if_neg fun h => hp (hq.1 h)]
    exact h' hp

/-- The value is changed and the cells are not. -/
theorem Agree.map {f : ρ → σ} (h : Agree base n x y)
    (hr : ∀ r, Leaves.rest (f r) = Leaves.rest r)
    (hl : ∀ r, f (Leaves.lower base r) = Leaves.lower base (f r)) :
    Agree base n (x.map f) (y.map f) := by
  refine ⟨?_, fun s hs => ?_⟩
  · rw [h.same, Option.map_map, Option.map_map]
    exact congrArg (fun g => Option.map g x) (funext hl)
  · obtain ⟨r, hx, rfl⟩ := Option.map_eq_some_iff.1 hs
    rw [hr]
    exact h.shorter r hx

end

variable (base : Mark) (c : Cell) (cs : List Cell)

theorem map_char_lower : (cs.map (Cell.lower base)).map Cell.char = cs.map Cell.char := by
  rw [List.map_map]
  rfl

theorem ofCells_lower : ofCells (cs.map (Cell.lower base)) = ofCells cs := by
  rw [ofCells, map_char_lower, ofCells]

variable {base cs} in
theorem dropWhile_lower {p : Cell → Bool} (hp : ∀ c, p (c.lower base) = p c) :
    (cs.map (Cell.lower base)).dropWhile p = (cs.dropWhile p).map (Cell.lower base) := by
  rw [List.dropWhile_map]
  exact congrArg (fun q => (cs.dropWhile q).map (Cell.lower base)) (funext hp)

variable {base cs} in
theorem takeWhile_lower {p : Cell → Bool} (hp : ∀ c, p (c.lower base) = p c) :
    (cs.map (Cell.lower base)).takeWhile p = (cs.takeWhile p).map (Cell.lower base) := by
  rw [List.takeWhile_map]
  exact congrArg (fun q => (cs.takeWhile q).map (Cell.lower base)) (funext hp)

theorem head?_any_lower (p : Cell → Bool) :
    (cs.map (Cell.lower base)).head?.any p = cs.head?.any fun c => p (c.lower base) := by
  cases cs <;> rfl

theorem gapFollows_lower : gapFollows (cs.map (Cell.lower base)) = gapFollows cs := by
  cases cs <;> rfl

theorem atBoundary_lower (mark : Char) :
    atBoundary mark (cs.map (Cell.lower base)) = atBoundary mark cs := by
  match cs with
  | [] | [_] | [_, _] => rfl
  | a :: b :: c :: rest =>
    have hr := gapFollows_lower base rest
    exact congrArg ((a.column = 0 && a.char = mark && b.char = mark && c.char = mark) && ·) hr

theorem atDocumentBoundary_lower :
    atDocumentBoundary (cs.map (Cell.lower base)) = atDocumentBoundary cs := by
  rw [atDocumentBoundary, atBoundary_lower, atBoundary_lower, atDocumentBoundary]

theorem skipBlanks_lower :
    skipBlanks (cs.map (Cell.lower base)) = (skipBlanks cs).map (Cell.lower base) :=
  dropWhile_lower fun _ => rfl

theorem skipLine_lower :
    skipLine (cs.map (Cell.lower base)) = (skipLine cs).map (Cell.lower base) :=
  dropWhile_lower fun _ => rfl

theorem skipBlanks_shorter : (skipBlanks cs).length ≤ cs.length :=
  (List.dropWhile_sublist _).length_le

theorem skipLine_shorter : (skipLine cs).length ≤ cs.length :=
  (List.dropWhile_sublist _).length_le

/-! Scalars in the flow of a line. -/

theorem atDocumentBoundary_cons_lower :
    atDocumentBoundary (c.lower base :: cs.map (Cell.lower base)) = atDocumentBoundary (c :: cs) :=
  atDocumentBoundary_lower base (c :: cs)

theorem plainEnds_lower (flow : Bool) (indent : Int) (gap : Gap) :
    plainEnds flow indent gap (c.lower base) (cs.map (Cell.lower base)) =
      plainEnds flow indent gap c cs := by
  rw [plainEnds, atDocumentBoundary_cons_lower, gapFollows_lower]
  rfl

theorem readPlain_agree (flow : Bool) (indent : Int) (gap : Gap) :
    Agree base cs.length (readPlain flow indent gap cs)
      (readPlain flow indent gap (cs.map (Cell.lower base))) := by
  induction cs generalizing gap with
  | nil => exact .some (Nat.le_refl _)
  | cons c cs ih =>
    have hcs (gap : Gap) := (ih gap).mono (Nat.le_succ cs.length)
    rw [List.map_cons, readPlain, readPlain, plainEnds_lower, head?_any_lower]
    refine .ite (fun _ => .ite (fun _ => .none) fun _ => hcs _) fun _ => .ite (fun _ => hcs _) ?_
    refine fun _ => .ite (fun _ => .some (Nat.le_refl _)) fun _ => .ite (fun _ => .none) fun _ => ?_
    exact (hcs _).map (fun _ => rfl) fun _ => rfl

theorem Gap.before_agree {n : Nat} {x y : Option (List Char × List Cell)} (h : Agree base n x y)
    (g : Gap) (cs : List Char) : Agree base n (g.before cs x) (g.before cs y) :=
  h.map (fun _ => rfl) fun _ => rfl

theorem readSingle_agree (gap : Gap) (cs : List Cell) :
    Agree base cs.length (readSingle gap cs) (readSingle gap (cs.map (Cell.lower base))) := by
  match cs with
  | [] => exact .none
  | c :: rest =>
    have hrest (gap : Gap) := (readSingle_agree gap rest).mono (Nat.le_succ rest.length)
    rw [List.map_cons, readSingle.eq_def, readSingle.eq_def]
    dsimp only
    rw [atDocumentBoundary_cons_lower]
    refine .ite (fun _ => hrest _) fun _ => .ite (fun _ => hrest _) fun _ => ?_
    refine .ite (fun _ => .none) fun _ => .ite (fun _ => ?_) fun _ =>
      Gap.before_agree base (hrest _) gap [c.char]
    match rest with
    | [] => exact .none
    | d :: more =>
      have hmore := (readSingle_agree (.blanks []) more).mono (m := (c :: d :: more).length)
        (by simp only [List.length_cons]; omega)
      exact .ite (fun _ => Gap.before_agree base hmore gap ['\''])
        fun _ => .some (Nat.le_succ _)

/-- A character that cells spell, and text after it. -/
theorem coded_agree {n : Nat} {x y : Option (List Char × List Cell)} (h : Agree base n x y)
    (g : Gap) (digits : List Cell) :
    Agree base n (do g.before [← coded? digits] x)
      (do g.before [← coded? (digits.map (Cell.lower base))] y) := by
  have hd : coded? (digits.map (Cell.lower base)) = coded? digits := by
    rw [coded?, List.foldlM_map, coded?]
    rfl
  rw [hd]
  exact .after _ fun c => Gap.before_agree base h g [c]

theorem readDouble_agree (gap : Gap) (cs : List Cell) :
    Agree base cs.length (readDouble gap cs) (readDouble gap (cs.map (Cell.lower base))) := by
  match cs with
  | [] => exact .none
  | c :: rest =>
    have hrest (gap : Gap) := (readDouble_agree gap rest).mono (Nat.le_succ rest.length)
    rw [List.map_cons, readDouble.eq_def, readDouble.eq_def]
    dsimp only
    rw [atDocumentBoundary_cons_lower]
    refine .ite (fun _ => hrest _) fun _ => .ite (fun _ => hrest _) fun _ => ?_
    refine .ite (fun _ => .none) fun _ => .ite (fun _ => .some (Nat.le_succ _)) fun _ => ?_
    refine .ite (fun _ => ?_) fun _ => Gap.before_agree base (hrest _) gap [c.char]
    match rest with
    | [] => exact .none
    | e :: rest =>
      have hrest (gap : Gap) := (readDouble_agree gap rest).mono (m := (c :: e :: rest).length)
        (by simp only [List.length_cons]; omega)
      refine .ite (fun _ => Gap.before_agree base (hrest _) gap []) fun _ => .ite (fun _ => ?_) ?_
      · match rest with
        | [] | [_] => exact .none
        | a :: b :: rest =>
          have h := (readDouble_agree (.blanks []) rest).mono
            (m := (c :: e :: a :: b :: rest).length) (by simp only [List.length_cons]; omega)
          exact coded_agree base h gap [a, b]
      refine fun _ => .ite (fun _ => ?_) fun _ => .ite (fun _ => ?_) fun _ => ?_
      · match rest with
        | [] | [_] | [_, _] | [_, _, _] => exact .none
        | a :: b :: u :: v :: rest =>
          have h := (readDouble_agree (.blanks []) rest).mono
            (m := (c :: e :: a :: b :: u :: v :: rest).length)
            (by simp only [List.length_cons]; omega)
          exact coded_agree base h gap [a, b, u, v]
      · match rest with
        | [] | [_] | [_, _] | [_, _, _] | [_, _, _, _] | [_, _, _, _, _] | [_, _, _, _, _, _]
        | [_, _, _, _, _, _, _] => exact .none
        | a :: b :: u :: v :: w :: x :: y :: z :: rest =>
          have h := (readDouble_agree (.blanks []) rest).mono
            (m := (c :: e :: a :: b :: u :: v :: w :: x :: y :: z :: rest).length)
            (by simp only [List.length_cons]; omega)
          exact coded_agree base h gap [a, b, u, v, w, x, y, z]
      · exact .after _ fun d => Gap.before_agree base (hrest _) gap [d]

/-! Scalars in lines of their own. -/

def skipComment (cs : List Cell) : List Cell :=
  if (skipBlanks cs).head?.any (·.char = '#') then skipLine (skipBlanks cs) else skipBlanks cs

theorem skipComment_lower :
    skipComment (cs.map (Cell.lower base)) = (skipComment cs).map (Cell.lower base) := by
  rw [skipComment, skipBlanks_lower, head?_any_lower, skipLine_lower]
  exact (apply_ite (List.map (Cell.lower base)) _ _ _).symm

theorem skipComment_length : (skipComment cs).length ≤ cs.length := by
  rw [skipComment]
  split
  · exact Nat.le_trans (skipLine_shorter _) (skipBlanks_shorter cs)
  · exact skipBlanks_shorter cs

/-- A line must hold nothing more but a comment. -/
theorem lineEnd_agree {ρ : Type} [Leaves ρ] (f : List Cell → ρ)
    (hr : ∀ cs, Leaves.rest (f cs) = cs)
    (hl : ∀ cs, f (cs.map (Cell.lower base)) = Leaves.lower base (f cs)) {cs : List Cell} {n : Nat}
    (hn : cs.length ≤ n) :
    Agree base n
      (match skipComment cs with
        | c :: rest =>
          if c.isBreak then some (f rest) else if c.isEnd then some (f (c :: rest)) else none
        | [] => none)
      (match skipComment (cs.map (Cell.lower base)) with
        | c :: rest =>
          if c.isBreak then some (f rest) else if c.isEnd then some (f (c :: rest)) else none
        | [] => none) := by
  have hs : (skipComment cs).length ≤ n := Nat.le_trans (skipComment_length cs) hn
  rw [skipComment_lower]
  generalize skipComment cs = ds at hs
  cases ds with
  | nil => exact .none
  | cons c rest =>
    rw [List.map_cons]
    dsimp only
    rw [← List.map_cons, hl, hl]
    refine .ite (fun _ => .some ?_) fun _ => .ite (fun _ => .some ?_) fun _ => .none
    · rw [hr]
      exact Nat.le_of_succ_le hs
    · rwa [hr]

theorem readChomp_lower :
    readChomp (cs.map (Cell.lower base)) = Leaves.lower base (readChomp cs) := by
  cases cs with
  | nil => rfl
  | cons c cs =>
    have hc : chomp? (c.lower base) = chomp? c := rfl
    rw [List.map_cons, readChomp, readChomp, hc]
    cases chomp? c <;> rfl

theorem readChomp_length : (readChomp cs).2.length ≤ cs.length := by
  cases cs with
  | nil => exact Nat.le_refl _
  | cons c cs =>
    rw [readChomp]
    cases chomp? c with
    | none => exact Nat.le_refl _
    | some chomp => exact Nat.le_succ _

theorem readIndent_agree :
    Agree base cs.length (readIndent cs) (readIndent (cs.map (Cell.lower base))) := by
  cases cs with
  | nil => exact .some (Nat.le_refl _)
  | cons c cs =>
    have hc : indentDigit? (c.lower base) = indentDigit? c := rfl
    rw [List.map_cons, readIndent, readIndent, hc]
    refine .ite (fun _ => .none) fun _ => ?_
    cases indentDigit? c with
    | none => exact .some (Nat.le_refl _)
    | some n => exact .some (Nat.le_succ _)

theorem readHeader_agree :
    Agree base cs.length (readHeader cs) (readHeader (cs.map (Cell.lower base))) := by
  have hn := readChomp_length cs
  rw [readHeader, readHeader, readChomp_lower]
  generalize readChomp cs = r at hn
  obtain ⟨chomp, rest⟩ := r
  have hrest := (readIndent_agree base rest).mono hn
  have hend (chomp : Chomp) (indent : Option Nat) {r : List Cell} (hr : r.length ≤ cs.length) :=
    lineEnd_agree base (fun rest => (chomp, indent, rest)) (fun _ => rfl) (fun _ => rfl) hr
  cases chomp with
  | clip =>
    refine hrest.bind ?_
    rintro ⟨_ | n, r⟩ hr
    · exact hend .clip none hr
    · dsimp only [Leaves.lower]
      rw [readChomp_lower]
      exact hend (readChomp r).1 (some n) (Nat.le_trans (readChomp_length r) hr)
  | strip => exact hrest.bind fun r hr => hend .strip r.1 hr
  | keep => exact hrest.bind fun r hr => hend .keep r.1 hr

theorem readBreaks_agree (indent : Option Nat) (widest : Nat) :
    Agree base cs.length (readBreaks indent widest cs)
      (readBreaks indent widest (cs.map (Cell.lower base))) := by
  induction cs generalizing widest with
  | nil => exact .some (Nat.le_refl _)
  | cons c cs ih =>
    have hcs (widest : Nat) := (ih widest).mono (Nat.le_succ cs.length)
    rw [List.map_cons, readBreaks, readBreaks]
    refine .ite (fun _ => hcs _) fun _ => .ite (fun _ => .none) fun _ => .ite (fun _ => ?_) ?_
    · exact (hcs _).map (fun _ => rfl) fun _ => rfl
    · exact fun _ => .some (Nat.le_refl _)

/-- One line of a block scalar, and the lines after it. -/
theorem readLines_cons (folded : Bool) (indent : Nat) (first : List Char) (indented : Bool)
    (more : List Char) (c : Cell) (cs : List Cell) :
    readLines folded indent first indented more (c :: cs) =
      if c.column ≠ indent || c.isEnd then some ([], first, more, c :: cs)
      else
        let joint :=
          if folded && first = ['\n'] && !indented && !c.isBlank then
            if more = [] then [' '] else []
          else first
        let line := joint ++ more ++ ((c :: cs).takeWhile (!·.endsLine)).map Cell.char
        match skipLine (c :: cs) with
        | [] => some (line, [], [], [])
        | b :: rest =>
          if b.isBreak then do
            let (more, _, next) ← readBreaks (some indent) 0 rest
            (readLines folded indent [b.char] c.isBlank more next).map fun r => (line ++ r.1, r.2)
          else some (line, [], [], b :: rest) := by
  rw [readLines]
  refine ite_congr rfl (fun _ => rfl) fun _ => ?_
  dsimp only
  split
  · next h => rw [h]
  · next b rest h =>
    rw [h]
    dsimp only
    refine ite_congr rfl (fun _ => ?_) fun _ => rfl
    split
    · next hb => rw [hb]; rfl
    · next hb => rw [hb]; rfl

theorem readLines_agree (folded : Bool) (indent : Nat) (first : List Char) (indented : Bool)
    (more : List Char) (cs : List Cell) :
    Agree base cs.length (readLines folded indent first indented more cs)
      (readLines folded indent first indented more (cs.map (Cell.lower base))) := by
  cases cs with
  | nil =>
    rw [List.map_nil, readLines]
    exact .some (Nat.le_refl _)
  | cons c cs =>
    have hline : ((c :: cs).map (Cell.lower base)).takeWhile (!·.endsLine) =
      ((c :: cs).takeWhile (!·.endsLine)).map (Cell.lower base) := takeWhile_lower fun _ => rfl
    have hskip := skipLine_lower base (c :: cs)
    have hlen := skipLine_shorter (c :: cs)
    rw [List.map_cons] at hline hskip
    rw [List.map_cons, readLines_cons, readLines_cons, hline, hskip, map_char_lower]
    refine .ite (fun _ => .some (Nat.le_refl _)) fun _ => ?_
    dsimp only
    cases hs : skipLine (c :: cs) with
    | nil => exact .some (Nat.zero_le _)
    | cons b rest =>
      rw [hs] at hlen
      refine .ite (fun _ => ?_) fun _ => .some hlen
      refine (readBreaks_agree base rest (some indent) 0).bind ?_
      rintro ⟨more, widest, next⟩ hnext
      have hshort : next.length < (c :: cs).length := Nat.lt_of_le_of_lt hnext hlen
      have h := readLines_agree folded indent [b.char] c.isBlank more next
      exact (h.mono (Nat.le_of_lt hshort)).map (fun _ => rfl) fun _ => rfl
termination_by cs.length
decreasing_by exact hshort

theorem readBlock_agree (folded : Bool) (parent : Int) :
    Agree base cs.length (readBlock folded parent cs)
      (readBlock folded parent (cs.map (Cell.lower base))) := by
  rw [readBlock, readBlock]
  refine (readHeader_agree base cs).bind ?_
  rintro ⟨chomp, extra, header⟩ hheader
  refine ((readBreaks_agree base header _ 0).mono hheader).bind ?_
  rintro ⟨more, widest, breaks⟩ hbreaks
  refine ((readLines_agree base folded _ [] false more breaks).mono hbreaks).bind ?_
  rintro ⟨text, first, more, rest⟩ hrest
  exact .some hrest

end Stencil.Yaml
