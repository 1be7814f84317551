import Mathlib
import Stencil.Proofs.CaseMaps
import Stencil.Proofs.Characters
import Stencil.Render.Expr

/-! What a second pass of `title` or `capitalize` changes. A pass never shortens its text, so the
text stays only where the image of each of its characters stays. -/
namespace Stencil.Filter

open Unicode

def endsInWord (cs : List Char) : Bool := cs.getLast?.any isAlphanumeric

@[simp] theorem endsInWord_concat (cs : List Char) (c : Char) :
    endsInWord (cs ++ [c]) = isAlphanumeric c := by
  simp [endsInWord]

theorem titled_append (before cs ds : List Char) :
    titled (endsInWord before) (cs ++ ds) =
      titled (endsInWord before) cs ++ titled (endsInWord (before ++ cs)) ds := by
  induction cs generalizing before with
  | nil => simp [titled]
  | cons c cs ih =>
    have ih := ih (before ++ [c])
    rw [endsInWord_concat, List.append_assoc, List.singleton_append] at ih
    cases hc : isAlphanumeric c <;> rw [hc] at ih <;> simp [titled, hc, ih]

theorem titled_false_append (cs ds : List Char) :
    titled false (cs ++ ds) = titled false cs ++ titled (endsInWord cs) ds :=
  titled_append [] cs ds

theorem exists_toUpper_eq_cons (c : Char) : ∃ u us, toUpper c = u :: us ∧ IsUpper u := by
  obtain ⟨u, us, hc⟩ := List.exists_cons_of_ne_nil (toUpper_ne_nil c)
  exact ⟨u, us, hc, isUpper_of_head (c := c) (by simp [hc])⟩

theorem length_le_titled (w : Bool) (cs : List Char) : cs.length ≤ (titled w cs).length := by
  induction cs generalizing w with
  | nil => simp
  | cons c cs ih =>
    have hl := List.length_pos_iff.mpr (toLower_ne_nil c)
    have hu := List.length_pos_iff.mpr (toUpper_ne_nil c)
    have ht := ih true
    have hf := ih false
    unfold titled
    split
    · split <;> simp only [List.length_append, List.length_cons] <;> omega
    · simpa using hf

/-- A text stays in a pass just if both its parts do. -/
theorem titled_append_eq_iff (cs ds : List Char) :
    titled false (cs ++ ds) = cs ++ ds ↔
      titled false cs = cs ∧ titled (endsInWord cs) ds = ds := by
  rw [titled_false_append]
  constructor
  · intro h
    have hlen := congrArg List.length h
    rw [List.length_append, List.length_append] at hlen
    have hcs := length_le_titled false cs
    have hds := length_le_titled (endsInWord cs) ds
    exact List.append_inj h (by omega)
  · rintro ⟨hcs, hds⟩
    rw [hcs, hds]

theorem titled_singleton (w : Bool) (c : Char) :
    titled w [c] =
      if isAlphanumeric c then (if w then toLower c else toUpper c) else [c] := by
  simp [titled]

/-- A pass makes no letter or digit of the end of a text that has none there. -/
theorem endsInWord_of_titled {cs : List Char} (h : endsInWord (titled false cs)) :
    endsInWord cs := by
  rcases List.eq_nil_or_concat' cs with rfl | ⟨before, c, rfl⟩
  · simp [titled, endsInWord] at h
  · by_contra hc
    rw [endsInWord_concat] at hc
    rw [titled_false_append, titled_singleton, if_neg hc, endsInWord_concat] at h
    exact hc h

def titledWords (inWord : Bool) : List Char → List Char
  | [] => []
  | c :: cs =>
    if isWord c then (if inWord then toLower c else toUpper c) ++ titledWords true cs
    else c :: titledWords false cs

theorem titled_eq_titledWords (inWord : Bool) (cs : List Char) :
    titled inWord cs = titledWords inWord cs := by
  induction cs generalizing inWord with
  | nil => rfl
  | cons c cs ih => rw [titled, titledWords, isAlphanumeric_eq_isWord, ih, ih]

/-- What a title makes of the images of several characters. -/
theorem titled_table :
    (∀ s ∈ upperMap.sequences, (∀ n ∈ s.2.head?, isWord (Char.ofNat n)) ∧
      (titledWords true (s.2.tail.map Char.ofNat) = s.2.tail.map Char.ofNat ↔
        (s.2.tail.map Char.ofNat).head?.all (IsLower ·))) ∧
    titledWords true ['i', '\u0307'] = ['i', '\u0307'] ∧
    titledWords false ['i', '\u0307'] ≠ ['i', '\u0307'] ∧ isWord 'i' ∧ ¬ IsUpper 'i' := by
  decide +kernel

theorem titled_toUpper (c : Char) :
    titled false (toUpper c) = toUpper c ↔ ∀ d ∈ (toUpper c)[1]?, IsLower d := by
  rcases toUpper_cases c with ⟨s, hs, hc⟩ | ⟨u, hc, hu⟩
  · obtain ⟨hword, htail⟩ := titled_table.1 s hs
    obtain ⟨u, us, hu, hup⟩ := exists_toUpper_eq_cons c
    obtain ⟨n, ns, hn, rfl, rfl⟩ := List.map_eq_cons_iff.1 (hc.symm.trans hu)
    rw [hn, List.tail_cons, ← titled_eq_titledWords] at htail
    have halpha : isAlphanumeric (Char.ofNat n) :=
      (isAlphanumeric_eq_isWord _).trans (hword n (by simp [hn]))
    rw [hu, titled, if_pos halpha, if_neg Bool.false_ne_true, show toUpper _ = _ from hup,
      List.singleton_append, List.cons_inj_right, htail, Option.all_eq_true,
      List.getElem?_cons_succ, List.head?_eq_getElem?]
    simp
  · rw [hc, titled_singleton]
    simp [show toUpper u = [u] from hu]

theorem titled_true_toLower (c : Char) : titled true (toLower c) = toLower c := by
  rcases toLower_cases c with hc | ⟨d, hc, hd⟩
  · rw [hc, titled_eq_titledWords]
    exact titled_table.2.1
  · rw [hc, titled_singleton]
    simp [show toLower d = [d] from hd]

theorem titled_false_toLower (c : Char) :
    titled false (toLower c) = toLower c ↔ ∀ d ∈ toLower c, isAlphanumeric d → IsUpper d := by
  obtain ⟨-, -, htitled, hletter⟩ := titled_table
  rcases toLower_cases c with hc | ⟨d, hc, -⟩
  · rw [hc, titled_eq_titledWords]
    simp [htitled, hletter, isAlphanumeric_eq_isWord]
  · rw [hc, titled_singleton]
    by_cases h : isAlphanumeric d <;> simp [h, IsUpper]

/-- A letter or digit after `before` has an image that stays in a second pass. The upper case of a
first letter may go on, but not in upper case, and a later letter still follows a letter or digit or
has no upper case. -/
structure LetterStays (before : List Char) (c : Char) : Prop where
  first : endsInWord before = false → ∀ d ∈ (toUpper c)[1]?, IsLower d
  later : endsInWord before → endsInWord (titled false before) ∨
    ∀ d ∈ toLower c, isAlphanumeric d → IsUpper d

def WordsStay (cs : List Char) : Prop :=
  ∀ before c after, cs = before ++ c :: after → isAlphanumeric c → LetterStays before c

theorem wordsStay_nil : WordsStay [] := by
  intro before c after h
  simp at h

theorem wordsStay_concat (cs : List Char) (c : Char) :
    WordsStay (cs ++ [c]) ↔ WordsStay cs ∧ (isAlphanumeric c → LetterStays cs c) := by
  constructor
  · intro h
    refine ⟨fun before d after he => h before d (after ++ [c]) ?_, h cs c [] rfl⟩
    simp [he]
  · rintro ⟨hcs, hc⟩ before d after he
    rcases List.eq_nil_or_concat' after with rfl | ⟨mid, e, rfl⟩
    · obtain ⟨rfl, hd⟩ := List.append_inj' he rfl
      obtain rfl : c = d := by simpa using hd
      exact hc
    · rw [← List.cons_append, ← List.append_assoc] at he
      exact hcs before d mid (List.append_inj' he rfl).1

/-- One step of a second pass over the image of a text. -/
theorem titled_image_iff (before : List Char) (c : Char) :
    titled (endsInWord (titled false before)) (titled (endsInWord before) [c]) =
        titled (endsInWord before) [c] ↔
      (isAlphanumeric c → LetterStays before c) := by
  rw [titled_singleton]
  cases hc : isAlphanumeric c with
  | false => simp [titled_singleton, hc]
  | true =>
    cases hw : endsInWord before with
    | false =>
      have hv : endsInWord (titled false before) = false := by
        by_contra hv
        have := endsInWord_of_titled (by simpa using hv)
        simp [hw] at this
      rw [hv]
      refine (titled_toUpper c).trans ⟨fun h _ => ⟨fun _ => h, by simp [hw]⟩, fun h => ?_⟩
      exact (h rfl).first hw
    | true =>
      cases hv : endsInWord (titled false before) with
      | true =>
        exact iff_of_true (titled_true_toLower c) fun _ => ⟨by simp [hw], fun _ => .inl hv⟩
      | false =>
        refine (titled_false_toLower c).trans
          ⟨fun h _ => ⟨by simp [hw], fun _ => .inr h⟩, fun h => ?_⟩
        exact ((h rfl).later hw).resolve_left (by simp [hv])

theorem titled_titled_iff (cs : List Char) :
    titled false (titled false cs) = titled false cs ↔ WordsStay cs := by
  induction cs using List.reverseRecOn with
  | nil => exact iff_of_true rfl wordsStay_nil
  | append_singleton before c ih =>
    rw [titled_false_append before, titled_append_eq_iff, ih, titled_image_iff, wordsStay_concat]

theorem length_le_flatMap_toLower (cs : List Char) : cs.length ≤ (cs.flatMap toLower).length := by
  induction cs with
  | nil => simp
  | cons c cs ih =>
    have hl := List.length_pos_iff.mpr (toLower_ne_nil c)
    rw [List.flatMap_cons, List.length_append, List.length_cons]
    omega

theorem flatMap_toLower_eq_self_iff (cs : List Char) :
    cs.flatMap toLower = cs ↔ ∀ c ∈ cs, IsLower c := by
  induction cs with
  | nil => simp
  | cons c cs ih =>
    rw [List.forall_mem_cons, ← ih, List.flatMap_cons]
    constructor
    · intro h
      have hlen := congrArg List.length h
      rw [List.length_append, List.length_cons] at hlen
      have hl := List.length_pos_iff.mpr (toLower_ne_nil c)
      have hcs := length_le_flatMap_toLower cs
      exact List.append_inj h (by rw [List.length_singleton]; omega)
    · rintro ⟨hc, hcs⟩
      rw [hcs, show toLower c = [c] from hc, List.singleton_append]

theorem isLower_of_mem_flatMap {cs : List Char} {d : Char} (h : d ∈ cs.flatMap toLower) :
    IsLower d := by
  obtain ⟨c, -, hd⟩ := List.mem_flatMap.mp h
  exact isLower_of_mem hd

theorem capitalized_capitalized_iff (cs : List Char) :
    capitalized (capitalized cs) = capitalized cs ↔
      ∀ c ∈ cs.head?, ∀ d ∈ (toUpper c).tail, IsLower d := by
  cases cs with
  | nil => simp [capitalized]
  | cons c cs =>
    obtain ⟨u, us, hc, hu⟩ := exists_toUpper_eq_cons c
    rw [IsUpper] at hu
    have hcs : (cs.flatMap toLower).flatMap toLower = cs.flatMap toLower :=
      (flatMap_toLower_eq_self_iff _).mpr fun _ => isLower_of_mem_flatMap
    simp [capitalized, hc, hu, hcs, ← flatMap_toLower_eq_self_iff]

/-- Each first letter of a word becomes its upper case, which begins with an upper-case
character, and each later one its lower case, which is lower throughout. -/
structure WordsTitled (cs out : List Char) : Prop where
  first : ∀ before c after, cs = before ++ c :: after → isAlphanumeric c →
    endsInWord before = false → ∃ u us, toUpper c = u :: us ∧ IsUpper u ∧
      out = titled false before ++ (u :: us) ++ titled true after
  later : ∀ before c after, cs = before ++ c :: after → isAlphanumeric c →
    endsInWord before → (∀ d ∈ toLower c, IsLower d) ∧
      out = titled false before ++ toLower c ++ titled true after

theorem wordsTitled_titled (cs : List Char) : WordsTitled cs (titled false cs) where
  first before c after h hc hb := by
    obtain ⟨u, us, hu, hup⟩ := exists_toUpper_eq_cons c
    refine ⟨u, us, hu, hup, ?_⟩
    rw [h, titled_false_append, hb, List.append_assoc, ← hu]
    simp [titled, hc]
  later before c after h hc hb := by
    refine ⟨fun d hd => isLower_of_mem hd, ?_⟩
    rw [h, titled_false_append, hb, List.append_assoc]
    simp [titled, hc]

def TextCapitalized (cs out : List Char) : Prop :=
  ∀ c rest, cs = c :: rest → ∃ u us, toUpper c = u :: us ∧ IsUpper u ∧
    out = (u :: us) ++ rest.flatMap toLower ∧ ∀ d ∈ rest.flatMap toLower, IsLower d

theorem textCapitalized_capitalized (cs : List Char) : TextCapitalized cs (capitalized cs) := by
  rintro c rest rfl
  obtain ⟨u, us, hu, hup⟩ := exists_toUpper_eq_cons c
  exact ⟨u, us, hu, hup, by rw [capitalized, hu], fun _ => isLower_of_mem_flatMap⟩

end Stencil.Filter

namespace Stencil.Render

open Unicode

theorem applyCall_title (s : String) :
    applyCall ⟨"title", []⟩ (.string s) =
      .ok (.string (String.ofList (Filter.titled false s.toList))) := rfl

theorem applyCall_capitalize (s : String) :
    applyCall ⟨"capitalize", []⟩ (.string s) =
      .ok (.string (String.ofList (Filter.capitalized s.toList))) := rfl

theorem title_capitalize_stable (s : String) :
    (∃ t, applyCall ⟨"title", []⟩ (.string s) = .ok (.string t) ∧
      Filter.WordsTitled s.toList t.toList ∧
      (applyCall ⟨"title", []⟩ (.string t) = .ok (.string t) ↔ Filter.WordsStay s.toList)) ∧
    ∃ t, applyCall ⟨"capitalize", []⟩ (.string s) = .ok (.string t) ∧
      Filter.TextCapitalized s.toList t.toList ∧
      (applyCall ⟨"capitalize", []⟩ (.string t) = .ok (.string t) ↔
        ∀ c ∈ s.toList.head?, ∀ d ∈ (toUpper c).tail, IsLower d) := by
  constructor
  · refine ⟨_, applyCall_title s, ?_, ?_⟩
    · rw [String.toList_ofList]
      exact Filter.wordsTitled_titled s.toList
    · rw [applyCall_title, String.toList_ofList, ← Filter.titled_titled_iff]
      simp [String.ofList_inj]
  · refine ⟨_, applyCall_capitalize s, ?_, ?_⟩
    · rw [String.toList_ofList]
      exact Filter.textCapitalized_capitalized s.toList
    · rw [applyCall_capitalize, String.toList_ofList, ← Filter.capitalized_capitalized_iff]
      simp [String.ofList_inj]

/-- The upper case of the sharp s is two letters, of which a second pass lowers the second. -/
theorem sharp_s_unstable :
    applyCall ⟨"title", []⟩ (.string "ß") = .ok (.string "SS") ∧
    applyCall ⟨"title", []⟩ (.string "SS") = .ok (.string "Ss") ∧
    applyCall ⟨"capitalize", []⟩ (.string "ß") = .ok (.string "SS") ∧
    applyCall ⟨"capitalize", []⟩ (.string "SS") = .ok (.string "Ss") := by
  refine ⟨?_, ?_, ?_, ?_⟩ <;> rfl

end Stencil.Render
