import Stencil.Proofs.Entries
import Stencil.Store.Load
import Stencil.Store.Save

/-! What a write leaves in a directory, and what is known of parameters that were loaded: no name is
there twice, and the path matters only to what is said about a failure. -/
namespace Stencil

theorem fromUTF8?_toUTF8 (s : String) : String.fromUTF8? s.toUTF8 = some s := by
  unfold String.fromUTF8?
  simp only [String.toUTF8_eq_toByteArray, Option.dite_none_right_eq_some, Option.some.injEq]
  exact ⟨s.isValidUTF8, rfl⟩

namespace Directory

variable {d d' : Directory} {path other : String}

theorem text?_of_get? {name text : String} (hn : name? path = some name)
    (hf : Entries.get? d.files name = some text.toUTF8) : Files.text? d.read? path = some text := by
  have hr : d.read? path = some text.toUTF8 := by
    rw [read?, hn]
    exact hf
  rw [Files.text?, hr]
  exact fromUTF8?_toUTF8 text

/-- A write leaves every other file as it was. -/
theorem read?_write? {contents : ByteArray} (h : d.write? path contents = some d')
    (hn : name? other ≠ name? path) : d'.read? other = d.read? other := by
  obtain ⟨name, hp, rfl⟩ := Option.map_eq_some_iff.1 h
  rw [read?, read?]
  cases ho : name? other with
  | none => rfl
  | some k =>
    have hk : k ≠ name := by
      intro he
      rw [ho, hp, he] at hn
      exact hn rfl
    simp [Entries.get?_insert, hk]

theorem read?_written {contents : ByteArray} (h : d.write? path contents = some d')
    (hn : name? other = name? path) : d'.read? other = some contents := by
  obtain ⟨name, hp, rfl⟩ := Option.map_eq_some_iff.1 h
  rw [read?, hn, hp]
  simp [Entries.get?_insert]

/-- Nothing but its name stands in the way of a file. -/
theorem writeText_named {name : String} (h : name? path = some name) (d : Directory)
    (text : String) :
    d.writeText path text = .ok ⟨Entries.insert d.files name text.toUTF8⟩ := by
  rw [writeText, write?, h]
  rfl

theorem writeText_ok {text : String} :
    d.writeText path text = .ok d' ↔ d.write? path text.toUTF8 = some d' := by
  rw [writeText]
  cases d.write? path text.toUTF8 <;> simp

/-- A text that was written is read back under every path to the file. -/
theorem text?_written {text : String} (h : d.write? path text.toUTF8 = some d')
    (hn : name? other = name? path) : Files.text? d'.read? other = some text := by
  rw [Files.text?, read?_written h hn]
  exact fromUTF8?_toUTF8 text

end Directory

namespace Store

variable {files : Files} {path text : String} {params : Entries Value}

theorem of_bind_ok {ε α β : Type} {x : Except ε α} {f : α → Except ε β} {b : β}
    (h : x >>= f = .ok b) : ∃ a, x = .ok a ∧ f a = .ok b := by
  cases x with
  | error e => cases h
  | ok a => exact ⟨a, rfl, h⟩

theorem of_map_ok {ε α β : Type} {x : Except ε α} {f : α → β} {b : β} (h : f <$> x = .ok b) :
    ∃ a, x = .ok a ∧ f a = b := by
  cases x with
  | error e => cases h
  | ok a =>
    cases h
    exact ⟨a, rfl, rfl⟩

theorem entriesOf_distinct (es : List (Yaml.Document × Yaml.Document)) {done : Entries Value}
    (hd : done.Distinct) (h : entriesOf done es = .ok params) : params.Distinct := by
  induction es generalizing done with
  | nil =>
    cases h
    exact hd
  | cons e es ih =>
    rw [entriesOf] at h
    obtain ⟨key, -, h⟩ := of_bind_ok h
    obtain ⟨name, -, h⟩ := of_bind_ok h
    obtain ⟨v, -, h⟩ := of_bind_ok h
    exact ih (Entries.Distinct.insert hd name v) h

theorem valueOf_distinct : ∀ d : Yaml.Document, valueOf d = .ok (.map params) → params.Distinct
  | .mapping entries, h => by
    rw [valueOf] at h
    obtain ⟨es, he, hm⟩ := of_map_ok h
    cases hm
    exact entriesOf_distinct entries Entries.distinct_nil he
  | .tagged name d, h => by
    rw [valueOf] at h
    exact valueOf_distinct d h
  | .sequence items, h => by
    rw [valueOf] at h
    obtain ⟨vs, -, hm⟩ := of_map_ok h
    cases hm
  | .int n, h => by
    rw [valueOf, Value.ofInt] at h
    cases hi : Value.int64? n <;> rw [hi] at h <;> cases h
  | .null, h | .bool _, h | .float _, h | .string _, h => by cases h

/-- How parameters are read with success: from a blank text, or from a document that holds a mapping
or nothing. -/
theorem readParams_ok : readParams path text = .ok params ↔
    (isBlank false text.toList = true ∧ params = []) ∨
      (isBlank false text.toList = false ∧ ∃ d, Yaml.Document.ofSource? text = some d ∧
        (valueOf d = .ok (.map params) ∨ valueOf d = .ok .null ∧ params = [])) := by
  rw [readParams]
  cases isBlank false text.toList with
  | true => simp [eq_comm]
  | false =>
    cases Yaml.Document.ofSource? text with
    | none => simp
    | some d =>
      cases hv : valueOf d with
      | error kind => simp [hv]
      | ok v => cases v <;> simp [hv, eq_comm]

theorem readParams_distinct (h : readParams path text = .ok params) : params.Distinct := by
  rcases readParams_ok.1 h with ⟨-, rfl⟩ | ⟨-, d, -, hv | ⟨-, rfl⟩⟩
  · exact Entries.distinct_nil
  · exact valueOf_distinct d hv
  · exact Entries.distinct_nil

/-- The text decides what is read. -/
theorem readParams_path (h : readParams path text = .ok params) (other : String) :
    readParams other text = .ok params :=
  readParams_ok.2 (readParams_ok.1 h)

theorem loadParams_distinct (h : loadParams files path = .ok params) : params.Distinct := by
  rw [loadParams] at h
  cases ht : files.text? path with
  | none =>
    rw [ht] at h
    cases h
  | some text =>
    rw [ht] at h
    exact readParams_distinct h

theorem load_of_text (h : files.text? path = some text) :
    load files path = Store.mk <$> readParams path text := by
  rw [load, loadParams, h]

theorem load_of_document {text : String} {document : Yaml.Document}
    (ht : files.text? path = some text) (hb : isBlank false text.toList = false)
    (hd : Yaml.Document.ofSource? text = some document)
    (hv : valueOf document = .ok (.map params)) : load files path = .ok ⟨params⟩ := by
  rw [load_of_text ht, readParams_ok.2 (.inr ⟨hb, document, hd, .inl hv⟩)]
  rfl

theorem loadParams_of_load {s : Store} (h : load files path = .ok s) :
    loadParams files path = .ok s.params := by
  obtain ⟨params, hp, rfl⟩ := of_map_ok h
  exact hp

end Store
end Stencil
