import Stencil.Proofs.LaterText
import Stencil.Proofs.PrintRoundTrip

/-! Where the characters of a source stand. Positions grow from character to character, so that no
two characters share one, and the characters of a text stand next to each other. -/
namespace Stencil.Template

def Pos.precedes (p q : Pos) : Prop := p.line < q.line ∨ p.line = q.line ∧ p.column < q.column

theorem Pos.precedes_after (p : Pos) (c : Char) : p.precedes (p.after c) := by
  rw [precedes, after]
  split <;> simp

theorem Pos.precedes.trans {p q r : Pos} (hp : p.precedes q) (hq : q.precedes r) :
    p.precedes r := by
  rw [precedes] at *
  omega

theorem Pos.precedes.ne {p q : Pos} (h : p.precedes q) : p ≠ q := by
  rintro rfl
  rw [precedes] at h
  omega

def Pos.past (p : Pos) (s : String) : Pos := s.toList.foldl Pos.after p

def Pos.down (n : Nat) (p : Pos) : Pos := ⟨p.line + n, p.column⟩

theorem locate_append (p : Pos) (xs ys : List Char) :
    locate p (xs ++ ys) = locate p xs ++ locate (xs.foldl Pos.after p) ys := by
  induction xs generalizing p with
  | nil => rfl
  | cons x xs ih => simp [locate, ih]

theorem precedes_of_mem_locate {p q : Pos} {cs : List Char} {g : Glyph} (hp : p.precedes q)
    (hg : g ∈ locate q cs) : p.precedes g.pos := by
  induction cs generalizing q with
  | nil => cases hg
  | cons c cs ih =>
    rcases List.mem_cons.1 hg with rfl | hg
    · exact hp
    · exact ih (hp.trans (q.precedes_after c)) hg

theorem locate_pairwise (p : Pos) (cs : List Char) :
    (locate p cs).Pairwise fun g h => g.pos.precedes h.pos := by
  induction cs generalizing p with
  | nil => exact .nil
  | cons c cs ih => exact .cons (fun h hh => precedes_of_mem_locate (p.precedes_after c) hh) (ih _)

def Located (gs : List Glyph) : Prop := ∃ p cs, gs = locate p cs

theorem located_glyphs (source : String) : Located (glyphs source) := ⟨_, _, rfl⟩

variable {gs hs as bs : List Glyph} {g h : Glyph}

theorem length_locate (p : Pos) (cs : List Char) : (locate p cs).length = cs.length := by
  rw [← congrArg List.length (map_char_locate p cs), List.length_map]

theorem Located.split (hl : Located (as ++ bs)) :
    ∃ p, as = locate p (as.map Glyph.char) ∧
      bs = locate ((as.map Glyph.char).foldl Pos.after p) (bs.map Glyph.char) := by
  obtain ⟨p, cs, hc⟩ := hl
  have hm := congrArg (List.map Glyph.char) hc
  rw [map_char_locate, List.map_append] at hm
  rw [← hm, locate_append] at hc
  obtain ⟨ha, hb⟩ := List.append_inj hc (by rw [length_locate, List.length_map])
  exact ⟨p, ha, hb⟩

theorem Located.of_infix (hl : Located gs) (hi : hs <:+: gs) : Located hs := by
  obtain ⟨as, bs, rfl⟩ := hi
  obtain ⟨p, hl, _⟩ := hl.split
  have hl : Located (as ++ hs) := ⟨p, _, hl⟩
  obtain ⟨_, _, hs⟩ := hl.split
  exact ⟨_, _, hs⟩

/-- A character stands where the text before it ends. -/
theorem Located.past (hl : Located (g :: gs ++ h :: hs)) :
    g.pos.past (textOf (g :: gs)) = h.pos := by
  obtain ⟨p, hg, hh⟩ := hl.split
  have hp : g.pos = p := congrArg Glyph.pos (List.cons.inj hg).1
  have hq := congrArg Glyph.pos (List.cons.inj hh).1
  rw [hq, hp, Pos.past, textOf, String.toList_ofList]

/-- A part of a text ends where a character stands, if any follows the text. -/
theorem Located.past_infix (hl : Located (as ++ h :: hs)) (hi : g :: gs <:+: as) :
    ∃ x ∈ as ++ h :: hs, g.pos.past (textOf (g :: gs)) = x.pos := by
  obtain ⟨before, after, rfl⟩ := hi
  cases after with
  | nil =>
    have hl : Located (g :: gs ++ h :: hs) := hl.of_infix ⟨before, [], by simp⟩
    exact ⟨h, by simp, hl.past⟩
  | cons x after =>
    have hl : Located (g :: gs ++ x :: (after ++ h :: hs)) := hl.of_infix ⟨before, [], by simp⟩
    exact ⟨x, by simp, hl.past⟩

/-- No two characters share a position. -/
theorem Located.ne (hl : Located (gs ++ hs)) (hg : g ∈ gs) (hh : h ∈ hs) : g.pos ≠ h.pos := by
  obtain ⟨p, cs, hc⟩ := hl
  have hp := locate_pairwise p cs
  rw [← hc, List.pairwise_append] at hp
  exact (hp.2.2 g hg h hh).ne

theorem locate_down (n : Nat) (p : Pos) (cs : List Char) :
    locate (p.down n) cs = (locate p cs).map (Glyph.moved (Pos.down n)) := by
  have ha (p : Pos) (c : Char) : (p.down n).after c = (p.after c).down n := by
    rw [Pos.after, Pos.after]
    split
    · exact congrArg (Pos.mk · 1) (Nat.add_right_comm ..)
    · rfl
  induction cs generalizing p with
  | nil => rfl
  | cons c cs ih =>
    rw [locate, ha, ih]
    rfl

theorem foldl_after_line (p : Pos) (cs : List Char) :
    (cs.foldl Pos.after p).line = p.line + cs.count '\n' := by
  induction cs generalizing p with
  | nil => rfl
  | cons c cs ih =>
    rw [List.foldl_cons, ih, List.count_cons, Pos.after]
    split <;> simp_all
    omega

/-- Where a position comes to stand when the lines of `a` come first. -/
def Pos.below (a : String) : Pos → Pos := Pos.down (a.toList.count '\n')

variable {a : String}

/-- After full lines the next line starts. -/
theorem foldl_after_lines (h : a = "" ∨ ['\n'] <:+ a.toList) :
    a.toList.foldl Pos.after Pos.start = Pos.start.below a := by
  rcases h with rfl | ⟨ds, h⟩
  · rfl
  · rw [Pos.below, ← h, List.foldl_append, List.foldl_cons, List.foldl_nil, Pos.after, if_pos rfl,
      foldl_after_line, List.count_append]
    rfl

/-- What follows full lines stands as many lines further down as they are. -/
theorem glyphs_append (h : a = "" ∨ ['\n'] <:+ a.toList) (b : String) :
    glyphs (a ++ b) = glyphs a ++ (glyphs b).map (Glyph.moved (Pos.below a)) := by
  rw [glyphs, String.toList_append, locate_append, foldl_after_lines h, Pos.below, locate_down]
  rfl

theorem endsLine_glyphs (h : ['\n'] <:+ a.toList) : endsLine (glyphs a) := by
  obtain ⟨ds, h⟩ := h
  rw [glyphs, ← h, locate_append]
  simp [endsLine, locate, isLineFeed]

end Stencil.Template
