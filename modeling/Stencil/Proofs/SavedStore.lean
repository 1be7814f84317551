import Mathlib
import Stencil.Proofs.BlankFile
import Stencil.Proofs.DocumentKeys
import Stencil.Proofs.Loading
import Stencil.Proofs.Integers

/-! A store that is saved and loaded. What the YAML reader has to give back is the document of the
store; from it the loader makes the same values, in the same order. -/
namespace Stencil

namespace Value

mutual

def document : Value → Yaml.Document
  | null => .null
  | bool b => .bool b
  | int n => .int n.toInt
  | float x => .float x
  | string s => .string s
  | seq items => .sequence (documents items)
  | map entries => .mapping (entryDocuments entries)

def documents : List Value → List Yaml.Document
  | [] => []
  | v :: vs => v.document :: documents vs

def entryDocuments : List (String × Value) → List (Yaml.Document × Yaml.Document)
  | [] => []
  | (key, v) :: es => (.string key, v.document) :: entryDocuments es

end

end Value

namespace Store

open Value
open Yaml.Document (KeysDiffer ItemsDiffer EntriesDiffer)

theorem mem_entryDocuments {key : String} {es : Entries Value} (h : key ∈ es.keys) :
    ∃ d, (Yaml.Document.string key, d) ∈ entryDocuments es := by
  induction es with
  | nil => cases h
  | cons e es ih =>
    obtain ⟨k, v⟩ := e
    simp only [Entries.keys, List.map_cons, List.mem_cons] at h
    rw [entryDocuments]
    rcases h with rfl | h
    · exact ⟨_, List.mem_cons_self⟩
    · obtain ⟨d, hd⟩ := ih h
      exact ⟨d, List.mem_cons_of_mem _ hd⟩

theorem distinct_of_entryDocuments {es : Entries Value}
    (h : (entryDocuments es).Pairwise fun e later => Yaml.Document.equal later.1 e.1 = false) :
    es.Distinct := by
  induction es with
  | nil => exact List.nodup_nil
  | cons e es ih =>
    obtain ⟨key, v⟩ := e
    rw [entryDocuments, List.pairwise_cons] at h
    rw [Entries.Distinct, Entries.keys, List.map_cons, List.nodup_cons]
    refine ⟨fun hk => ?_, ih h.2⟩
    obtain ⟨d, hd⟩ := mem_entryDocuments hk
    have he := h.1 _ hd
    simp [Yaml.Document.equal] at he

mutual

theorem valueOf_document : ∀ v : Value, v.document.KeysDiffer → valueOf v.document = .ok v
  | .null, _ | .bool _, _ | .float _, _ | .string _, _ => rfl
  | .int n, _ => by rw [document, valueOf, ofInt_toInt]
  | .seq items, h => by
    rw [document, valueOf, valuesOf_documents items h]
    rfl
  | .map entries, h => by
    have hd : (Entries.keys ([] ++ entries)).Nodup := distinct_of_entryDocuments h.1
    rw [document, valueOf, entriesOf_documents entries [] h.2 hd]
    rfl

theorem valuesOf_documents :
    ∀ vs : List Value, ItemsDiffer (documents vs) → valuesOf (documents vs) = .ok vs
  | [], _ => rfl
  | v :: vs, h => by
    rw [documents, valuesOf, valueOf_document v h.1, valuesOf_documents vs h.2]
    rfl

/-- The entries that are read are appended to those that are done. -/
theorem entriesOf_documents : ∀ (es done : Entries Value), EntriesDiffer (entryDocuments es) →
    (done ++ es).Distinct → entriesOf done (entryDocuments es) = .ok (done ++ es)
  | [], done, _, _ => by rw [entryDocuments, entriesOf, List.append_nil]
  | (key, v) :: es, done, h, hd => by
    have hk : key ∉ done.keys := hd.not_mem
    have he : (done ++ [(key, v)]) ++ es = done ++ (key, v) :: es := by simp
    rw [entryDocuments, entriesOf, valueOf_document v h.2.1]
    have hr := entriesOf_documents es (done ++ [(key, v)]) h.2.2 (by rw [he]; exact hd)
    rw [he] at hr
    rw [← hr, ← Entries.insert_new hk v]
    rfl

end

/-- The YAML reader gives back the document of the entries that were written. -/
def ReadsBack (s : Store) (path : String) (comments : Bool) : Prop :=
  s.params ≠ [] →
    Yaml.Document.ofSource? (s.savedText path comments) = some (document (.map s.params))

theorem readParams_document {text : String} {params : Entries Value}
    (hb : isBlank false text.toList = false)
    (h : Yaml.Document.ofSource? text = some (document (.map params))) (path : String) :
    readParams path text = .ok params := by
  have hv : valueOf (document (.map params)) = .ok (.map params) :=
    valueOf_document _ (Yaml.Document.ofSource?_keysDiffer h)
  exact readParams_ok.2 (.inr ⟨hb, _, h, .inl hv⟩)

variable {s : Store} {path : String} {comments : Bool}

theorem readParams_savedText (hp : '\n' ∉ path.toList) (hr : s.ReadsBack path comments)
    (hk : ∀ e ∈ s.params.head?, looksLikeComment e.1 = false) (other : String) :
    readParams other (s.savedText path comments) = .ok s.params := by
  have hb : isBlank false (s.savedText path comments).toList = s.isEmpty :=
    isBlank_savedText hp hk comments
  by_cases he : s.params = []
  · have hs : s.isEmpty = true := List.isEmpty_iff.2 he
    exact readParams_ok.2 (.inl ⟨hb.trans hs, he⟩)
  · have hs : s.isEmpty = false := by simpa [isEmpty] using he
    rw [hs] at hb
    exact readParams_document hb (hr he) other

theorem text?_saved {d d' : Directory} (h : d.save s path comments = .ok d') :
    Files.text? d'.read? path = some (s.savedText path comments) :=
  Directory.text?_written (Directory.writeText_ok.1 h) rfl

/-- A store that its first key does not hide is loaded as it was saved. -/
theorem load_shown {d d' : Directory} (hs : d.save s path comments = .ok d')
    (hp : '\n' ∉ path.toList) (hr : s.ReadsBack path comments)
    (hk : ∀ e ∈ s.params.head?, looksLikeComment e.1 = false) : load d'.read? path = .ok s := by
  rw [load_of_text (text?_saved hs), readParams_savedText hp hr hk]
  rfl

/-- A store that is saved and loaded is as it was. Only a first key that looks like a comment may
hide it, and then it loads without entries. -/
theorem load_saved {d d' : Directory} (hs : d.save s path comments = .ok d')
    (hp : '\n' ∉ path.toList) (hr : s.ReadsBack path comments) :
    ((∀ e ∈ s.params.head?, looksLikeComment e.1 = false) → load d'.read? path = .ok s) ∧
      (load d'.read? path = .ok s ∨ load d'.read? path = .ok .empty) := by
  refine ⟨load_shown hs hp hr, ?_⟩
  by_cases he : s.params = []
  · left
    apply load_shown hs hp hr
    simp [he]
  · by_cases hb : isBlank false (s.savedText path comments).toList
    · right
      rw [load_of_text (text?_saved hs), readParams_ok.2 (.inl ⟨hb, rfl⟩)]
      rfl
    · left
      rw [load_of_text (text?_saved hs), readParams_document (by simpa using hb) (hr he)]
      rfl

def assorted : Store := ⟨[("code", .string "1"), ("none", .null),
  ("inner", .map [("b", .seq [.int (-3), .string "no"]), ("c", .map [])])]⟩

theorem savedText_assorted : assorted.savedText "p.yaml" true =
    "# paramforge parameters\n# File: p.yaml\n\ncode: '1'\nnone: null\n" ++
      "inner:\n  b:\n  - -3\n  - no\n  c: \x7b\x7d\n" := by
  rfl

set_option maxRecDepth 20000 in
theorem assorted_readsBack : assorted.ReadsBack "p.yaml" true := by
  intro _
  rw [savedText_assorted]
  cbv

theorem load_saved_assorted :
    ∃ d, Directory.empty.save assorted "p.yaml" true = .ok d ∧ '\n' ∉ "p.yaml".toList ∧
      assorted.ReadsBack "p.yaml" true ∧ load d.read? "p.yaml" = .ok assorted := by
  have hn : Directory.name? "p.yaml" = some "p.yaml" := rfl
  have hs := Directory.writeText_named hn .empty (assorted.savedText "p.yaml" true)
  have hp : '\n' ∉ "p.yaml".toList := by decide
  refine ⟨_, hs, hp, assorted_readsBack, (load_saved hs hp assorted_readsBack).1 ?_⟩
  intro e he
  cases he
  decide +kernel

def hidden : Store := ⟨[("\u00a0#x", .int 1)]⟩

theorem savedText_hidden : hidden.savedText "p.yaml" true =
    "# paramforge parameters\n# File: p.yaml\n\n\u00a0#x: 1\n" := by
  decide +kernel

theorem hidden_readsBack : hidden.ReadsBack "p.yaml" true := by
  intro _
  rw [savedText_hidden]
  cbv

/-- The YAML reader would give the entry back, but the loader takes the file for blank. -/
theorem load_hidden {d d' : Directory} (hs : d.save hidden "p.yaml" true = .ok d') :
    load d'.read? "p.yaml" = .ok .empty := by
  have hb : isBlank false (hidden.savedText "p.yaml" true).toList = true := by
    rw [savedText_hidden]
    decide +kernel
  rw [load_of_text (text?_saved hs), readParams_ok.2 (.inl ⟨hb, rfl⟩)]
  rfl

theorem hidden_lost :
    hidden.ReadsBack "p.yaml" true ∧
      ∃ d, Directory.empty.save hidden "p.yaml" true = .ok d ∧
        load d.read? "p.yaml" = .ok .empty ∧ load d.read? "p.yaml" ≠ .ok hidden := by
  have hn : Directory.name? "p.yaml" = some "p.yaml" := by decide +kernel
  obtain ⟨d, hs⟩ : ∃ d, Directory.empty.save hidden "p.yaml" true = .ok d :=
    ⟨_, Directory.writeText_named hn _ _⟩
  have hl := load_hidden hs
  refine ⟨hidden_readsBack, d, hs, hl, ?_⟩
  rw [hl]
  intro he
  cases he

end Store
end Stencil
