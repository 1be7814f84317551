import Stencil.Proofs.BlankFile
import Stencil.Proofs.EmptyText
import Stencil.Proofs.LowerTokens
import Stencil.Proofs.SavedStore

/-! The comment header of a saved file. It holds the path as it is, and is neutral as long as the
path leaves its lines comments and has no character that a text may not hold. -/
namespace Stencil

namespace Yaml

theorem Mark.lower_next (base m : Mark) (width : Nat) :
    (base.lower m).next width = base.lower (m.next width) := by
  simp [lower, next, Nat.add_assoc]

theorem Mark.lower_newLine (base m : Mark) (width : Nat) :
    (base.lower m).newLine width = base.lower (m.newLine width) := by
  simp [lower, newLine, Nat.add_assoc]

theorem Mark.lower_start {m : Mark} (h : m.column = 0) : m.lower .start = m := by
  obtain ⟨index, line, column⟩ := m
  cases h
  rfl

theorem locate_lower (base m : Mark) (cs : List Char) :
    locate (base.lower m) cs = (locate m cs).map (Cell.lower base) := by
  induction m, cs using locate.induct with
  | case1 m => rfl
  | case2 m cs ih =>
    rw [locate, locate, List.map_cons, Mark.lower_newLine, ih]
    rfl
  | case3 m c cs hcr hc ih =>
    rw [locate.eq_3 _ _ _ hcr, locate.eq_3 _ _ _ hcr, if_pos hc, if_pos hc, List.map_cons,
      Mark.lower_newLine, ih]
    rfl
  | case4 m c cs hcr hc hls ih =>
    rw [locate.eq_3 _ _ _ hcr, locate.eq_3 _ _ _ hcr, if_neg hc, if_neg hc, if_pos hls, if_pos hls,
      List.map_cons, Mark.lower_newLine, ih]
    rfl
  | case5 m c cs hcr hc hls ih =>
    rw [locate.eq_3 _ _ _ hcr, locate.eq_3 _ _ _ hcr, if_neg hc, if_neg hc, if_neg hls, if_neg hls,
      List.map_cons, Mark.lower_next, ih]
    rfl

namespace Scan

/-- Comments and blanks with whole lines at the front of a text are skipped. -/
theorem skipGap_header {cs : List Char} (ha : cs.all isAllowed) {comment : Bool} {m : Mark}
    (hb : isBare (m.column = 0) comment cs)
    (he : (cs = [] ∧ comment = false ∧ m.column = 0) ∨ cs.getLast? = some '\n') (text : List Char) :
    ∃ m' : Mark, m'.column = 0 ∧ skipGap false comment true (locate m (cs ++ text)) =
      skipGap false false true (locate m' text) := by
  induction cs generalizing comment m with
  | nil =>
    rcases he with ⟨-, rfl, hm⟩ | he
    · exact ⟨m, hm, rfl⟩
    · cases he
  | cons c cs ih =>
    obtain ⟨hc, hcs⟩ := Bool.and_eq_true_iff.1 ha
    -- the line feed at the end keeps `text` out of the last comment
    have hlast : cs = [] ∧ c = '\n' ∨ cs.getLast? = some '\n' := by
      rcases he with ⟨he, -⟩ | he
      · cases he
      · cases cs with
        | nil => exact .inl ⟨rfl, Option.some.inj he⟩
        | cons d ds => exact .inr (by rwa [List.getLast?_cons_cons] at he)
    by_cases hbreak : isLineBreak c
    · obtain ⟨m', hm, hskip⟩ := skipGap_locate_break hbreak comment m (cs ++ text)
      rw [isBare_break _ hbreak] at hb
      rw [List.cons_append, hskip]
      exact ih hcs (by simpa [hm] using hb) (hlast.imp_left fun h => ⟨h.1, rfl, hm⟩)
    · have hlast : cs.getLast? = some '\n' := hlast.resolve_left fun h => hbreak (h.2 ▸ rfl)
      have hbreak := Bool.eq_false_iff.2 hbreak
      rw [isBare, hbreak, if_neg Bool.false_ne_true] at hb
      rw [List.cons_append, skipGap_locate_cons hbreak hc]
      split at hb
      · next hmark =>
        rw [if_pos hmark]
        exact ih hcs hb (.inr hlast)
      · next hmark =>
        obtain ⟨hblank, hb⟩ := Bool.and_eq_true_iff.1 hb
        rw [if_neg hmark, if_pos hblank]
        exact ih hcs hb (.inr hlast)

theorem run_of_skip {s u : Scan} (h : s.skip = u.skip) (fuel : Nat) : run fuel s = run fuel u := by
  cases fuel with
  | zero => rfl
  | succ fuel => rw [run, run, h]

end Scan

/-- Comments and blanks with whole lines at the front of a text leave its tokens as they are. -/
theorem tokens?_header {header : String} (ha : header.toList.all isAllowed)
    (hb : isBare true false header.toList) (he : header.toList.getLast? = some '\n')
    (text : String) : tokens? (header ++ text) = tokens? text := by
  rw [tokens?, tokens?, cells?, cells?, String.toList_append, List.all_append, ha, Bool.true_and]
  split
  · let whole := locate .start (header.toList ++ text.toList)
    let cells := locate .start text.toList
    obtain ⟨m, hm, hgap⟩ := Scan.skipGap_header (m := .start) ha hb (.inr he) text.toList
    have hcells : locate m text.toList = cells.map (Cell.lower m) := by
      rw [← locate_lower, Mark.lower_start hm]
    have hskip : (Scan.start whole).skip = (Scan.start (locate m text.toList)).skip :=
      congrArg (fun gap => (⟨gap.2, #[], -1, [], gap.1, none, []⟩ : Scan)) hgap
    rw [hcells] at hskip
    have hwhole := Scan.skip_length (.start whole)
    rw [hskip] at hwhole
    have hlength : (cells.map (Cell.lower m)).length = cells.length := List.length_map _
    have hshort := Nat.le_trans (Scan.skip_length (.start (cells.map (Cell.lower m)))) hlength.le
    have hfuel := Scan.run_fuel _ hwhole hshort
    calc Scan.run whole.length (.start whole)
      _ = Scan.run whole.length (.start (cells.map (Cell.lower m))) := Scan.run_of_skip hskip _
      _ = Scan.run cells.length (.start (cells.map (Cell.lower m))) := hfuel
      _ = Scan.run cells.length (.start cells) := Scan.run_lower m (.start cells) _
  · rfl

theorem isBare_append_newline (start comment : Bool) (xs ys : List Char) :
    isBare start comment (xs ++ '\n' :: ys) =
      (isBare start comment xs && isBare true false ys) := by
  induction xs generalizing start comment with
  | nil => rfl
  | cons c xs ih =>
    rw [List.cons_append, isBare, isBare, ih, ih, ih]
    split
    · rfl
    split
    · rfl
    · rw [Bool.and_assoc]

theorem isBare_comment {cs : List Char} (h : ∀ c ∈ cs, isLineBreak c = false) (start : Bool) :
    isBare start true cs = true := by
  induction cs generalizing start with
  | nil => rfl
  | cons c cs ih =>
    rw [isBare, h c List.mem_cons_self, if_neg Bool.false_ne_true, Bool.true_or, if_pos rfl]
    exact ih (fun d hd => h d (List.mem_cons_of_mem c hd)) false

end Yaml

namespace Store

open Yaml (Document isAllowed isBare isLineBreak)

/-- The path of a file leaves its line in the header a comment, and so does what it has after line
breaks: for the check for a blank file, and for YAML. -/
def StaysComment (path : String) : Prop :=
  isBlank true path.toList ∧ isBare false true path.toList

theorem staysComment_of_line {path : String} (h : ∀ c ∈ path.toList, isLineBreak c = false) :
    StaysComment path := by
  refine ⟨isBlank_comment fun hn => ?_, Yaml.isBare_comment h false⟩
  exact absurd (h '\n' hn) (by decide)

theorem isBare_savedHeader (path : String) :
    isBare true false (savedHeader path).toList = isBare false true path.toList := by
  have hl : " File: ".toList = [' ', 'F', 'i', 'l', 'e', ':', ' '] := by decide
  have hf : isBare true false ('#' :: (" File: ".toList ++ path.toList)) =
      isBare false true path.toList := by
    rw [hl]
    rfl
  have ht : isBare true false ('#' :: " paramforge parameters".toList) = true := by decide
  rw [savedHeader_lines, Yaml.isBare_append_newline, Yaml.isBare_append_newline,
    Yaml.isBare_append_newline, hf, ht]
  simp [isBare]

theorem all_savedHeader (path : String) :
    (savedHeader path).toList.all isAllowed = path.toList.all isAllowed := by
  have ht : "# paramforge parameters\n# File: ".toList.all isAllowed = true := by decide
  have hn : "\n\n".toList.all isAllowed = true := by decide
  unfold savedHeader
  simp only [String.toList_append, List.all_append, ht, hn, Bool.true_and, Bool.and_true]

variable {s : Store} {path : String}

theorem savedText_header : s.savedText path true = savedHeader path ++ s.savedText path false := by
  simp [savedText, fileText]

theorem isBlank_header (h : isBlank true path.toList) :
    isBlank false (s.savedText path true).toList =
      isBlank false (s.savedText path false).toList := by
  have hb : isBlank false (savedHeader path).toList = true := (isBlank_savedHeader path).trans h
  rw [savedText_header, String.toList_append, isBlank_append (getLast?_savedHeader path), hb,
    Bool.true_and]

theorem readParams_header (h : StaysComment path) (ha : path.toList.all isAllowed)
    (other : String) :
    readParams other (s.savedText path true) = readParams other (s.savedText path false) := by
  have ht : Yaml.tokens? (s.savedText path true) = Yaml.tokens? (s.savedText path false) := by
    rw [savedText_header]
    exact Yaml.tokens?_header ((all_savedHeader path).trans ha)
      ((isBare_savedHeader path).trans h.2) (getLast?_savedHeader path) _
  rw [readParams, readParams, isBlank_header h.1, Document.ofSource?, ht, Document.ofSource?]

/-- A character that no text may hold makes a file unreadable, also in a comment. -/
theorem readParams_unallowed (ha : path.toList.all isAllowed = false) (other : String) :
    readParams other (s.savedText path true) =
      if isBlank false (s.savedText path true).toList then .ok []
      else .error (.malformed other) := by
  have ht : Yaml.tokens? (s.savedText path true) = none := by
    rw [savedText_header, Yaml.tokens?, Yaml.cells?, String.toList_append, List.all_append,
      all_savedHeader, ha]
    rfl
  rw [readParams, Document.ofSource?, ht]
  rfl

/-- A file that was saved with its header loads like one without it, if the path has only characters
that a text may hold and stays a comment, as it does without a line break. Any other character makes
the file unreadable, unless it counts as blank. -/
theorem load_header {d d' d₁ d₂ : Directory} (h₁ : d.save s path true = .ok d₁)
    (h₂ : d'.save s path false = .ok d₂) :
    ((∀ c ∈ path.toList, isLineBreak c = false) → StaysComment path) ∧
      (StaysComment path → path.toList.all isAllowed → load d₁.read? path = load d₂.read? path) ∧
      (path.toList.all isAllowed = false → load d₁.read? path =
        if isBlank false (s.savedText path true).toList then .ok .empty
        else .error (.malformed path)) := by
  rw [load_of_text (text?_saved h₁), load_of_text (text?_saved h₂)]
  refine ⟨staysComment_of_line, fun h ha => ?_, fun ha => ?_⟩
  · rw [readParams_header h ha]
  · rw [readParams_unallowed ha]
    split <;> rfl

def single : Store := ⟨[("a", .int 1)]⟩

theorem load_header_notes :
    (∃ d₁ d₂, Directory.empty.save single "p\n# q" true = .ok d₁ ∧
      Directory.empty.save single "p\n# q" false = .ok d₂ ∧ StaysComment "p\n# q" ∧
      load d₁.read? "p\n# q" = load d₂.read? "p\n# q") ∧
      ∃ d₁ d₂, Directory.empty.save single "p\x07" true = .ok d₁ ∧
        Directory.empty.save single "p\x07" false = .ok d₂ ∧
        load d₁.read? "p\x07" = .error (.malformed "p\x07") := by
  constructor
  · have hn : Directory.name? "p\n# q" = some "p\n# q" := rfl
    have hs (comments : Bool) :=
      Directory.writeText_named hn .empty (single.savedText "p\n# q" comments)
    have hc : StaysComment "p\n# q" := ⟨by decide, by decide⟩
    exact ⟨_, _, hs true, hs false, hc, (load_header (hs true) (hs false)).2.1 hc (by decide)⟩
  · have hn : Directory.name? "p\x07" = some "p\x07" := rfl
    have hs (comments : Bool) :=
      Directory.writeText_named hn .empty (single.savedText "p\x07" comments)
    have hb : isBlank false (single.savedText "p\x07" true).toList = false := rfl
    refine ⟨_, _, hs true, hs false, ?_⟩
    rw [(load_header (hs true) (hs false)).2.2 (by decide), hb, if_neg Bool.false_ne_true]

/-- A line break in the path ends the comment, and what comes after it is an entry. -/
theorem header_adds_entry :
    ∃ d₁ d₂, Directory.empty.save single "p\nx: 2" true = .ok d₁ ∧
      Directory.empty.save single "p\nx: 2" false = .ok d₂ ∧
      load d₁.read? "p\nx: 2" = .ok ⟨[("x", .int 2), ("a", .int 1)]⟩ ∧
      load d₂.read? "p\nx: 2" = .ok single ∧
      load d₁.read? "p\nx: 2" ≠ load d₂.read? "p\nx: 2" := by
  have hn : Directory.name? "p\nx: 2" = some "p\nx: 2" := rfl
  obtain ⟨d₁, h₁⟩ : ∃ d, Directory.empty.save single "p\nx: 2" true = .ok d :=
    ⟨_, Directory.writeText_named hn _ _⟩
  obtain ⟨d₂, h₂⟩ : ∃ d, Directory.empty.save single "p\nx: 2" false = .ok d :=
    ⟨_, Directory.writeText_named hn _ _⟩
  have ht₁ : single.savedText "p\nx: 2" true =
    "# paramforge parameters\n# File: p\nx: 2\n\na: 1\n" := rfl
  have ht₂ : single.savedText "p\nx: 2" false = "a: 1\n" := rfl
  have hd₁ : Document.ofSource? (single.savedText "p\nx: 2" true) =
      some (.mapping [(.string "x", .int 2), (.string "a", .int 1)]) := by
    rw [ht₁]
    cbv
  have hd₂ : Document.ofSource? (single.savedText "p\nx: 2" false) =
      some (.mapping [(.string "a", .int 1)]) := by
    rw [ht₂]
    cbv
  have hb (comments : Bool) :
      isBlank false (single.savedText "p\nx: 2" comments).toList = false := by
    cases comments <;> rfl
  have hl₁ : load d₁.read? "p\nx: 2" = .ok ⟨[("x", .int 2), ("a", .int 1)]⟩ :=
    load_of_document (text?_saved h₁) (hb true) hd₁ rfl
  have hl₂ : load d₂.read? "p\nx: 2" = .ok single :=
    load_of_document (text?_saved h₂) (hb false) hd₂ rfl
  refine ⟨d₁, d₂, h₁, h₂, hl₁, hl₂, ?_⟩
  rw [hl₁, hl₂]
  simp [single]

end Store
end Stencil
