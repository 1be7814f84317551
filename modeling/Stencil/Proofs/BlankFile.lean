import Mathlib.Data.List.Basic
import Stencil.Store.Load
import Stencil.Store.Save

/-! When a parameter file that was saved counts as blank. Its header always does, and the first
entry does not, unless the line of its key looks like a comment. -/
namespace Stencil.Store

theorem isBlank_append_newline (comment : Bool) (xs ys : List Char) :
    isBlank comment (xs ++ '\n' :: ys) = (isBlank comment xs && isBlank false ys) := by
  induction xs generalizing comment with
  | nil => simp [isBlank]
  | cons c xs ih =>
    by_cases hc : c = '\n'
    · simp [isBlank, hc, ih]
    · by_cases hm : comment || c = '#'
      · simp only [List.cons_append, isBlank, if_neg hc, if_pos hm, ih]
      · simp only [List.cons_append, isBlank, if_neg hc, if_neg hm, ih, Bool.and_assoc]

/-- What follows a last line is blank or not without it. -/
theorem isBlank_append {xs : List Char} (h : xs.getLast? = some '\n') (comment : Bool)
    (ys : List Char) : isBlank comment (xs ++ ys) = (isBlank comment xs && isBlank false ys) := by
  obtain ⟨lines, rfl⟩ := List.getLast?_eq_some_iff.1 h
  have he : isBlank comment (lines ++ ['\n']) = isBlank comment lines := by
    rw [isBlank_append_newline]
    exact Bool.and_true _
  rw [he, List.append_assoc, List.singleton_append, isBlank_append_newline]

theorem isBlank_comment {xs : List Char} (h : '\n' ∉ xs) : isBlank true xs = true := by
  induction xs with
  | nil => rfl
  | cons c xs ih =>
    simp at h
    simp [isBlank, Ne.symm h.1, ih h.2]

/-- A character that is neither white space nor the mark of a comment. -/
theorem isBlank_cons {c : Char} (hs : Unicode.isSpace c = false) (hm : c ≠ '#')
    (cs : List Char) : isBlank false (c :: cs) = false := by
  have hn : c ≠ '\n' := by
    rintro rfl
    revert hs
    decide
  simp [isBlank, hn, hm, hs]

theorem savedHeader_lines (path : String) :
    (savedHeader path).toList = '#' :: " paramforge parameters".toList ++
      '\n' :: ('#' :: (" File: ".toList ++ path.toList) ++
        '\n' :: (([] : List Char) ++ '\n' :: [])) := by
  unfold savedHeader
  simp only [String.toList_append]
  simp

/-- The path goes on with the comment that it stands in. -/
theorem isBlank_savedHeader (path : String) :
    isBlank false (savedHeader path).toList = isBlank true path.toList := by
  have hl : " File: ".toList = [' ', 'F', 'i', 'l', 'e', ':', ' '] := by decide
  have hf : isBlank false ('#' :: (" File: ".toList ++ path.toList)) =
      isBlank true path.toList := by
    rw [hl]
    rfl
  have ht : isBlank false ('#' :: " paramforge parameters".toList) = true := by decide
  rw [savedHeader_lines, isBlank_append_newline, isBlank_append_newline, isBlank_append_newline, hf,
    ht]
  simp [isBlank]

theorem getLast?_savedHeader (path : String) :
    (savedHeader path).toList.getLast? = some '\n' := by
  have hn : "\n\n".toList.getLast? = some '\n' := by decide
  unfold savedHeader
  rw [String.toList_append, List.getLast?_append, hn]
  rfl

/-! The line of a key. -/

/-- Whether the line of a key looks like a comment: the key stands there without quotes, and a hash
comes first after white space. -/
def looksLikeComment (key : String) : Bool :=
  Yaml.isShortKey key && Yaml.Style.ofString key = .plain &&
    (key.toList.dropWhile Unicode.isSpace).head? = some '#'

theorem isBlank_unquoted {cs : List Char} (hn : '\n' ∉ cs)
    (h : (cs.dropWhile Unicode.isSpace).head? ≠ some '#') (rest : List Char) :
    isBlank false (cs ++ ':' :: rest) = false := by
  induction cs with
  | nil => exact isBlank_cons (by decide) (by decide) rest
  | cons c cs ih =>
    simp only [List.mem_cons, not_or] at hn
    by_cases hs : Unicode.isSpace c
    · rw [List.dropWhile_cons_of_pos hs] at h
      have hm : c ≠ '#' := by
        rintro rfl
        revert hs
        decide
      simp [isBlank, Ne.symm hn.1, hm, hs, ih hn.2 h]
    · rw [List.dropWhile_cons_of_neg hs] at h
      have hm : c ≠ '#' := by
        rintro rfl
        exact h rfl
      exact isBlank_cons (by simpa using hs) hm _

theorem endLine_starts (cs : List Char) : cs <+: Yaml.endLine cs := by
  rw [Yaml.endLine]
  split
  · exact List.prefix_rfl
  · exact List.prefix_append cs ['\n']

theorem isBlank_keyText {key : String} (h : looksLikeComment key = false) (rest : List Char) :
    isBlank false (Yaml.keyText 0 key ++ rest) = false := by
  rw [Yaml.keyText]
  by_cases hk : Yaml.isShortKey key
  · have hn : '\n' ∉ key.toList := by
      intro hm
      simp only [Yaml.isShortKey, Bool.and_eq_true, Bool.not_eq_true', List.any_eq_false] at hk
      exact hk.2 _ hm (by decide)
    rw [if_pos hk, Yaml.stringText, List.append_assoc]
    cases hs : Yaml.Style.ofString key with
    | plain => exact isBlank_unquoted hn (by simpa [looksLikeComment, hk, hs] using h) rest
    | singleQuoted => exact isBlank_cons (by decide) (by decide) _
    | doubleQuoted => exact isBlank_cons (by decide) (by decide) _
    | literal => exact isBlank_cons (by decide) (by decide) _
  · obtain ⟨t, ht⟩ := endLine_starts ('?' :: ' ' :: Yaml.stringText (0 + 2) key)
    rw [if_neg hk, ← ht]
    exact isBlank_cons (by decide) (by decide) _

theorem text_starts (key : String) (v : Value) (es : Entries Value) :
    Yaml.keyText 0 key <+: (Yaml.text ((key, v) :: es)).toList := by
  have he : Yaml.keyText 0 key <+: Yaml.writeEntries 0 ((key, v) :: es) := by
    cases es with
    | nil => exact List.prefix_append _ _
    | cons e es =>
      rw [Yaml.writeEntries]
      · exact (((List.prefix_append _ _).trans (endLine_starts _)).trans
          (List.prefix_append _ _)).trans (List.prefix_append _ _)
      · simp
  rw [Yaml.text, String.toList_ofList]
  exact he.trans (endLine_starts _)

/-- The header of a saved text does not count. -/
theorem isBlank_fileText {header : String} (hb : isBlank false header.toList = true)
    (he : header = "" ∨ header.toList.getLast? = some '\n') (s : Store) :
    isBlank false (s.fileText header).toList =
      isBlank false (if s.isEmpty then "" else Yaml.text s.params).toList := by
  rw [fileText, String.toList_append]
  rcases he with rfl | he
  · rfl
  · rw [isBlank_append he, hb, Bool.true_and]

/-- A saved store without entries is blank, and any other is not, unless its first key looks like a
comment. -/
theorem isBlank_savedText {s : Store} {path : String} (hp : '\n' ∉ path.toList)
    (h : ∀ e ∈ s.params.head?, looksLikeComment e.1 = false) (comments : Bool) :
    isBlank false (s.savedText path comments).toList = s.isEmpty := by
  have ht : isBlank false (s.savedText path comments).toList =
      isBlank false (if s.isEmpty then "" else Yaml.text s.params).toList := by
    cases comments with
    | true =>
      have hb : isBlank false (savedHeader path).toList = true :=
        (isBlank_savedHeader path).trans (isBlank_comment hp)
      exact isBlank_fileText hb (.inr (getLast?_savedHeader path)) s
    | false => exact isBlank_fileText rfl (.inl rfl) s
  rw [ht]
  obtain ⟨_ | ⟨⟨key, v⟩, es⟩⟩ := s
  · rfl
  · obtain ⟨rest, hr⟩ := text_starts key v es
    have hk : looksLikeComment key = false := h (key, v) rfl
    have hb : isBlank false (Yaml.text ((key, v) :: es)).toList = false := by
      rw [← hr, isBlank_keyText hk]
    simpa [isEmpty] using hb

end Stencil.Store
