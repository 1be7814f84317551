import Mathlib
import Stencil.Json.Read
import Stencil.Json.Write
import Stencil.Proofs.CommandRuns
import Stencil.Proofs.JsonNumerals

/-! A value that is written as JSON and read back. The reader is followed through the text that was
written and stops where that text ends, whatever comes then. -/
namespace Stencil

namespace Json

section Strings

def Yields {α : Type} {cs : List Char} (r : Option (Read α cs)) (v : α) (rest : List Char) : Prop :=
  ∃ read, r = some read ∧ read.value = v ∧ read.rest = rest

variable {cs rest s : List Char} {c : Char}

theorem Yields.unique {α : Type} {o : Option (Read α cs)} {a b : α} {r s : List Char}
    (ha : Yields o a r) (hb : Yields o b s) : a = b ∧ r = s := by
  obtain ⟨t, ht, rfl, rfl⟩ := ha
  obtain ⟨u, hu, rfl, rfl⟩ := hb
  cases ht.symm.trans hu
  exact ⟨rfl, rfl⟩

theorem readHex_append (cs rest : List Char) (h : cs.length = 4) :
    readHex (cs ++ rest) = (readHex cs).map fun r => (r.1, rest) := by
  match cs, h with
  | [a, b, c, d], _ =>
    simp only [readHex, List.cons_append, List.nil_append, Option.bind_eq_bind, Option.pure_def,
      Option.map_bind, Function.comp_def, Option.map_some]

theorem readUnicode_hexDigits {n : Nat} (h : n < 0x20) (rest : List Char) :
    readUnicode (hexDigits n ++ rest) = some (Char.ofNat n, rest) := by
  have hd : ∀ n < 0x20, readHex (hexDigits n) = some (n, []) := by decide
  rw [readUnicode, readHex_append _ _ rfl, hd n h]
  have h₁ : ¬ (0xD800 ≤ n ∧ n < 0xDC00) := by omega
  have h₂ : ¬ (0xDC00 ≤ n ∧ n < 0xE000) := by omega
  simp [h₁, h₂]

/-- A character is written as itself, or after a backslash. -/
theorem escape_cases (c : Char) :
    (escape c = [c] ∧ c ≠ '"' ∧ c ≠ '\\' ∧ ¬ c.toNat < 0x20) ∨
      ∃ cs, escape c = '\\' :: cs ∧ ∀ rest, readEscape (cs ++ rest) = some (c, rest) := by
  fun_cases escape c with
  | case8 _ _ _ _ _ _ _ hc =>
    refine .inr ⟨_, rfl, fun rest => ?_⟩
    rw [List.cons_append, readEscape, readUnicode_hexDigits hc, Char.ofNat_toNat]
  | case9 hq hb _ _ _ _ _ hc => exact .inl ⟨rfl, hq, hb, hc⟩
  | _ =>
    subst_vars
    exact .inr ⟨_, rfl, fun _ => rfl⟩

theorem readString_close (rest : List Char) : Yields (readString ('"' :: rest)) [] rest := by
  rw [readString]
  exact ⟨_, rfl, rfl, rfl⟩

theorem readString_plain (hq : c ≠ '"') (hb : c ≠ '\\') (hc : ¬ c.toNat < 0x20)
    (h : Yields (readString cs) s rest) : Yields (readString (c :: cs)) (c :: s) rest := by
  obtain ⟨r, hr, rfl, rfl⟩ := h
  rw [readString.eq_4 c cs hq hb, if_neg hc, hr]
  exact ⟨_, rfl, rfl, rfl⟩

theorem readString_escape {more : List Char} (he : readEscape cs = some (c, more))
    (h : Yields (readString more) s rest) : Yields (readString ('\\' :: cs)) (c :: s) rest := by
  obtain ⟨r, hr, rfl, rfl⟩ := h
  rw [readString]
  split
  next hn => cases he.symm.trans hn
  next hs =>
    cases he.symm.trans hs
    rw [hr]
    exact ⟨_, rfl, rfl, rfl⟩

theorem readString_escaped (s rest : List Char) :
    Yields (readString (s.flatMap escape ++ '"' :: rest)) s rest := by
  induction s with
  | nil => exact readString_close rest
  | cons c s ih =>
    rw [List.flatMap_cons, List.append_assoc]
    rcases escape_cases c with ⟨he, hq, hb, hc⟩ | ⟨cs, he, hr⟩
    · rw [he]
      exact readString_plain hq hb hc ih
    · rw [he]
      exact readString_escape (hr _) ih

end Strings

variable {item : (cs : List Char) → Option (Read Value cs)} {v : Value} {vs : List Value}
  {cs rest s name more : List Char} {c : Char} {e : String × Value}
  {es : List (String × Value)} {n : Nat}

theorem readItems_last (h : Yields (item cs) v (']' :: rest)) :
    Yields (readItems item cs) [v] rest := by
  obtain ⟨r, hr, rfl, he⟩ := h
  rw [readItems, hr]
  dsimp only
  split
  next hs =>
    rw [he] at hs
    cases hs
    exact ⟨_, rfl, rfl, rfl⟩
  next hs =>
    rw [he] at hs
    cases hs
  next hn _ =>
    rw [he] at hn
    exact (hn rest rfl).elim

theorem readItems_next (h : Yields (item cs) v (',' :: more))
    (hm : Yields (readItems item more) vs rest) : Yields (readItems item cs) (v :: vs) rest := by
  obtain ⟨r, hr, rfl, he⟩ := h
  obtain ⟨t, ht, rfl, rfl⟩ := hm
  rw [readItems, hr]
  dsimp only
  split
  next hs =>
    rw [he] at hs
    cases hs
  next hs =>
    rw [he] at hs
    cases hs
    rw [ht]
    exact ⟨_, rfl, rfl, rfl⟩
  next _ hn =>
    rw [he] at hn
    exact (hn more rfl).elim

theorem readMember_pair (h : Yields (readString cs) name (':' :: more))
    (hv : Yields (item more) v rest) :
    Yields (readMember item ('"' :: cs)) (String.ofList name, v) rest := by
  obtain ⟨r, hr, rfl, he⟩ := h
  obtain ⟨t, ht, rfl, rfl⟩ := hv
  unfold readMember
  split
  next hs =>
    cases hs
    rw [hr]
    dsimp only
    split
    next hs =>
      rw [he] at hs
      cases hs
      rw [ht]
      exact ⟨_, rfl, rfl, rfl⟩
    next hn =>
      rw [he] at hn
      exact (hn more rfl).elim
  next hn => exact (hn cs rfl).elim

theorem readMembers_last (h : Yields (readMember item cs) e ('}' :: rest)) :
    Yields (readMembers item cs) [e] rest := by
  obtain ⟨r, hr, rfl, he⟩ := h
  rw [readMembers, hr]
  dsimp only
  split
  next hs =>
    rw [he] at hs
    cases hs
    exact ⟨_, rfl, rfl, rfl⟩
  next hs =>
    rw [he] at hs
    cases hs
  next hn _ =>
    rw [he] at hn
    exact (hn rest rfl).elim

theorem readMembers_next (h : Yields (readMember item cs) e (',' :: more))
    (hm : Yields (readMembers item more) es rest) :
    Yields (readMembers item cs) (e :: es) rest := by
  obtain ⟨r, hr, rfl, he⟩ := h
  obtain ⟨t, ht, rfl, rfl⟩ := hm
  rw [readMembers, hr]
  dsimp only
  split
  next hs =>
    rw [he] at hs
    cases hs
  next hs =>
    rw [he] at hs
    cases hs
    rw [ht]
    exact ⟨_, rfl, rfl, rfl⟩
  next _ hn =>
    rw [he] at hn
    exact (hn more rfl).elim

theorem readValue_string (n : Nat) (h : Yields (readString cs) s rest) :
    Yields (readValue n ('"' :: cs)) (.string (String.ofList s)) rest := by
  obtain ⟨r, hr, rfl, rfl⟩ := h
  unfold readValue
  split
  next hs => cases hs
  next hs => cases hs
  next hs => cases hs
  next hs =>
    cases hs
    rw [hr]
    exact ⟨_, rfl, rfl, rfl⟩
  next hs => cases hs
  next hs => cases hs
  next hq _ _ => exact (hq cs rfl).elim

theorem readValue_items (hb : isBlank c = false) (hc : c ≠ ']')
    (h : Yields (readItems (readValue n) (c :: cs)) vs rest) :
    Yields (readValue (n + 1) ('[' :: c :: cs)) (.seq vs) rest := by
  obtain ⟨r, hr, rfl, rfl⟩ := h
  have hk : skipBlanks (c :: cs) = c :: cs := by simp [skipBlanks, hb]
  unfold readValue
  split
  next hs => cases hs
  next hs => cases hs
  next hs => cases hs
  next hs => cases hs
  next hs =>
    cases hs
    dsimp only
    split
    next hs =>
      rw [hk] at hs
      exact (hc (List.cons.inj hs).1).elim
    next =>
      rw [hr]
      exact ⟨_, rfl, rfl, rfl⟩
  next hs => cases hs
  next hq _ => exact (hq (c :: cs) rfl).elim

theorem readValue_members (h : Yields (readMembers (readValue n) ('"' :: cs)) es rest) :
    Yields (readValue (n + 1) ('{' :: '"' :: cs)) (.map (Entries.ofList es)) rest := by
  obtain ⟨r, hr, rfl, rfl⟩ := h
  unfold readValue
  split
  next hs => cases hs
  next hs => cases hs
  next hs => cases hs
  next hs => cases hs
  next hs => cases hs
  next hs =>
    cases hs
    dsimp only
    split
    next hs => cases hs
    next =>
      rw [hr]
      exact ⟨_, rfl, rfl, rfl⟩
  next hq => exact (hq ('"' :: cs) rfl).elim

theorem readValue_numeral {m : Numeral} (hc : c = '-' ∨ c.isDigit)
    (h : readNumeral (c :: cs) = some (m, rest)) (hv : m.value? = some v) :
    Yields (readValue n (c :: cs)) v rest := by
  have hk : skipBlanks (c :: cs) = c :: cs := by
    simp [skipBlanks, (number_starts hc).1]
  -- no other kind of value starts like a number
  have hn {d : Char} {ds : List Char} (hs : skipBlanks (c :: cs) = d :: ds) :
      d ∉ ['n', 't', 'f', '"', '[', '{'] := by
    rw [hk] at hs
    obtain ⟨rfl, -⟩ := List.cons.inj hs
    intro hm
    simp only [List.mem_cons, List.not_mem_nil, or_false] at hm
    rcases hm with rfl | rfl | rfl | rfl | rfl | rfl <;> exact absurd hc (by decide)
  unfold readValue
  split
  next hs => exact (hn hs (by simp)).elim
  next hs => exact (hn hs (by simp)).elim
  next hs => exact (hn hs (by simp)).elim
  next hs => exact (hn hs (by simp)).elim
  next hs => exact (hn hs (by simp)).elim
  next hs => exact (hn hs (by simp)).elim
  next =>
    split
    next hn =>
      rw [hk, h] at hn
      cases hn
    next hn =>
      rw [hk, h] at hn
      cases hn
      rw [hv]
      exact ⟨_, rfl, rfl, rfl⟩

end Json

/-- The value holds no float, at most `n` collections inside each other, and in no map the same name
twice. -/
inductive Value.Exact : Nat → Value → Prop where
  | null {n : Nat} : Exact n .null
  | bool {n : Nat} (b : Bool) : Exact n (.bool b)
  | int {n : Nat} (i : Int64) : Exact n (.int i)
  | string {n : Nat} (s : String) : Exact n (.string s)
  | seq {n : Nat} {items : List Value} (exact : ∀ v ∈ items, Exact n v) : Exact (n + 1) (.seq items)
  | map {n : Nat} {entries : Entries Value} (distinct : entries.Distinct)
      (exact : ∀ e ∈ entries, Exact n e.2) : Exact (n + 1) (.map entries)

namespace Json

variable {rest : List Char} {n : Nat} {v : Value}

theorem write_starts (h : v.Exact n) :
    ∃ c cs, write v = c :: cs ∧ isBlank c = false ∧ c ≠ ']' := by
  cases h with
  | null => exact ⟨_, _, rfl, by decide⟩
  | bool b => cases b <;> exact ⟨_, _, rfl, by decide⟩
  | int i =>
    obtain ⟨c, cs, hs, hc⟩ := intText_starts i
    exact ⟨c, cs, hs, number_starts hc⟩
  | string s => exact ⟨_, _, rfl, by decide⟩
  | @seq _ items => cases items <;> exact ⟨_, _, rfl, by decide⟩
  | @map _ entries => cases entries <;> exact ⟨_, _, rfl, by decide⟩

theorem follows_writeItems (vs : List Value) (rest : List Char) :
    Follows (writeItems vs ++ rest) := by
  cases vs <;> exact follows_cons (by decide) _

theorem follows_writeEntries (es : List (String × Value)) (rest : List Char) :
    Follows (writeEntries es ++ rest) := by
  cases es with
  | nil => exact follows_cons (by decide) _
  | cons e es => exact follows_cons (by decide) _

def ReadsBack (n : Nat) (v : Value) : Prop :=
  ∀ rest, Follows rest → Yields (readValue n (write v ++ rest)) v rest

theorem readItems_write {v : Value} {vs : List Value} (h : ∀ w ∈ v :: vs, ReadsBack n w)
    (rest : List Char) :
    Yields (readItems (readValue n) (write v ++ (writeItems vs ++ rest))) (v :: vs) rest := by
  induction vs generalizing v with
  | nil =>
    have hv := h v List.mem_cons_self _ (follows_writeItems [] rest)
    exact readItems_last hv
  | cons w vs ih =>
    have hv := h v List.mem_cons_self _ (follows_writeItems (w :: vs) rest)
    rw [writeItems, List.cons_append, List.cons_append, List.append_assoc] at hv ⊢
    exact readItems_next hv (ih fun u hu => h u (List.mem_cons_of_mem v hu))

theorem quote_append (s : String) (cs : List Char) :
    quote s ++ cs = '"' :: (s.toList.flatMap escape ++ '"' :: cs) := by
  simp [quote]

theorem readMember_write (key : String) (h : ReadsBack n v) (hr : Follows rest) :
    Yields (readMember (readValue n) (quote key ++ ':' :: (write v ++ rest))) (key, v) rest := by
  have hk := readString_escaped key.toList (':' :: (write v ++ rest))
  have hm := readMember_pair hk (h rest hr)
  rwa [String.ofList_toList, ← quote_append] at hm

theorem readMembers_write {key : String} {es : List (String × Value)}
    (h : ∀ e ∈ (key, v) :: es, ReadsBack n e.2) (rest : List Char) :
    Yields (readMembers (readValue n) (quote key ++ ':' :: (write v ++ (writeEntries es ++ rest))))
      ((key, v) :: es) rest := by
  induction es generalizing key v with
  | nil =>
    have hv := h _ List.mem_cons_self
    exact readMembers_last (readMember_write key hv (follows_writeEntries [] rest))
  | cons e es ih =>
    obtain ⟨k, w⟩ := e
    have hv := h _ List.mem_cons_self
    have hm := readMember_write key hv (follows_writeEntries ((k, w) :: es) rest)
    have he := ih fun u hu => h u (List.mem_cons_of_mem _ hu)
    simp only [writeEntries, List.cons_append, List.append_assoc] at hm ⊢
    exact readMembers_next hm he

/-- The reader takes a value back from its text and leaves what follows. -/
theorem readValue_write (h : v.Exact n) : ReadsBack n v := by
  induction h with
  | @null n =>
    intro rest _
    have hw : write .null ++ rest = 'n' :: 'u' :: 'l' :: 'l' :: rest := rfl
    rw [hw]
    cases n <;> exact ⟨_, rfl, rfl, rfl⟩
  | @bool n b =>
    intro rest _
    cases b with
    | true =>
      have hw : write (.bool true) ++ rest = 't' :: 'r' :: 'u' :: 'e' :: rest := rfl
      rw [hw]
      cases n <;> exact ⟨_, rfl, rfl, rfl⟩
    | false =>
      have hw : write (.bool false) ++ rest = 'f' :: 'a' :: 'l' :: 's' :: 'e' :: rest := rfl
      rw [hw]
      cases n <;> exact ⟨_, rfl, rfl, rfl⟩
  | int i =>
    intro rest hr
    obtain ⟨c, cs, hs, hc⟩ := intText_starts i
    obtain ⟨m, hm, hv⟩ := readNumeral_intText hr i
    rw [write, hs, List.cons_append]
    rw [hs, List.cons_append] at hm
    exact readValue_numeral hc hm hv
  | @string n s =>
    intro rest _
    have hs := readValue_string n (readString_escaped s.toList rest)
    rwa [String.ofList_toList, ← quote_append] at hs
  | @seq n items hi ih =>
    intro rest _
    cases items with
    | nil =>
      have hw : write (.seq []) ++ rest = '[' :: ']' :: rest := rfl
      rw [hw]
      exact ⟨_, rfl, rfl, rfl⟩
    | cons v vs =>
      obtain ⟨c, cs, hw, hb, hc⟩ := write_starts (hi v List.mem_cons_self)
      have hr := readItems_write ih rest
      rw [hw, List.cons_append] at hr
      rw [write, hw, List.cons_append, List.cons_append, List.append_assoc]
      exact readValue_items hb hc hr
  | @map n entries hd _ ih =>
    intro rest _
    cases entries with
    | nil =>
      have hw : write (.map []) ++ rest = '{' :: '}' :: rest := rfl
      rw [hw]
      exact ⟨_, rfl, rfl, rfl⟩
    | cons e es =>
      obtain ⟨key, v⟩ := e
      have hr := readMembers_write ih rest
      have he : Entries.ofList ((key, v) :: es) = (key, v) :: es := Entries.merge_new hd
      have hw : write (.map ((key, v) :: es)) ++ rest =
          '{' :: (quote key ++ ':' :: (write v ++ (writeEntries es ++ rest))) := by
        simp [write]
      rw [quote_append] at hr
      rw [hw, quote_append, ← he]
      exact readValue_members hr

theorem read?_text (h : v.Exact nestingLimit) : read? (text v) = some v := by
  have hr : Yields (readValue nestingLimit (text v).toList) v [] := by
    have hv := readValue_write h [] follows_nil
    rwa [text, String.toList_ofList, ← List.append_nil (write v)]
  obtain ⟨r, hr, hv, he⟩ := hr
  simp only [read?, hr, hv, he]
  rfl

end Json

namespace Command

/-- A sequence or a map that is shown reads back, and adding it as it is shown stores it. -/
theorem shown_reads_back {v : Value} (hc : v.kind = .sequence ∨ v.kind = .mapping)
    (h : v.Exact 127) :
    Json.read? v.display = some v ∧
    (∀ (d : Directory) file s key, Store.load d.read? file = .ok s → s.get? key = some v →
      run d (.get file key) = (.ok (key ++ ": " ++ v.display ++ "\n"), d)) ∧
    ∀ (d : Directory) file s key, Store.load d.read? file = .ok s →
      run d (.add file key v.display) =
        saving d file (s.set key v) ("Parameter added: " ++ key ++ " = " ++ v.display ++ "\n") ∧
      (s.set key v).get? key = some v := by
  have hd : v.display = Json.text v := by
    cases v with
    | seq | map => rfl
    | _ => rcases hc with hc | hc <;> cases hc
  have hr : Json.read? v.display = some v := by
    rw [hd]
    exact Json.read?_text h
  refine ⟨hr, ?_, ?_⟩
  · intro d file s key hs hk
    rw [run_get hs, hk]
  · intro d file s key hs
    refine ⟨?_, ?_⟩
    · rw [run_add hs, readValue, hr]
      rfl
    · exact (Entries.get?_insert s.params key key v).trans (if_pos rfl)

def marked : Value := .map [("\"", .seq [])]

def quoted : Directory := ⟨[("p.yaml", "v:\n  '\"': []\n".toUTF8)]⟩

theorem load_quoted : Store.load quoted.read? "p.yaml" = .ok ⟨[("v", marked)]⟩ := by
  have hn : Directory.name? "p.yaml" = some "p.yaml" := rfl
  have ht := Directory.text?_of_get? (d := quoted) hn rfl
  have hb : Store.isBlank false "v:\n  '\"': []\n".toList = false := rfl
  have hd : Yaml.Document.ofSource? "v:\n  '\"': []\n" =
      some (.mapping [(.string "v", .mapping [(.string "\"", .sequence [])])]) := by
    cbv
  exact Store.load_of_document ht hb hd rfl

theorem shown_reads_back_marked :
    (marked.kind = .sequence ∨ marked.kind = .mapping) ∧ marked.Exact 127 ∧
      Json.read? "\x7b\"\\\"\":[]\x7d" = some marked ∧
      Store.load quoted.read? "p.yaml" = .ok ⟨[("v", marked)]⟩ ∧
      run quoted (.get "p.yaml" "v") = (.ok "v: \x7b\"\\\"\":[]\x7d\n", quoted) ∧
      run quoted (.add "p.yaml" "w" "\x7b\"\\\"\":[]\x7d") =
        saving quoted "p.yaml" ⟨[("v", marked), ("w", marked)]⟩
          "Parameter added: w = \x7b\"\\\"\":[]\x7d\n" := by
  have hk : marked.kind = .sequence ∨ marked.kind = .mapping := .inr rfl
  have he : marked.Exact 127 := by
    refine .map (by decide) fun e hm => ?_
    rw [List.mem_singleton.1 hm]
    exact .seq nofun
  have hs : marked.display = "\x7b\"\\\"\":[]\x7d" := rfl
  obtain ⟨hr, hg, ha⟩ := shown_reads_back hk he
  have hg := hg quoted "p.yaml" _ "v" load_quoted rfl
  obtain ⟨ha, -⟩ := ha quoted "p.yaml" _ "w" load_quoted
  rw [hs] at hr hg ha
  exact ⟨hk, he, hr, load_quoted, hg, ha⟩

end Command
end Stencil
