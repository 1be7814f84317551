import Stencil.Proofs.DocumentKeys
import Stencil.Proofs.Loading
import Stencil.Proofs.KeyNames

/-! What becomes of the entries of a document that is loaded. Keys are turned into names, and of two
keys that become the same name the later one overwrites the entry of the earlier one. Where the
names differ, every mapping becomes a map entry by entry. -/
namespace Stencil

open Yaml (Document)

namespace Yaml.Document

variable {P Q R : List (Document × Document) → Prop}

mutual

def EveryMapping (P : List (Document × Document) → Prop) : Document → Prop
  | sequence items => EveryItem P items
  | mapping entries => P entries ∧ EveryEntry P entries
  | tagged _ contents => EveryMapping P contents
  | null | bool _ | int _ | float _ | string _ => True

def EveryItem (P : List (Document × Document) → Prop) : List Document → Prop
  | [] => True
  | d :: ds => EveryMapping P d ∧ EveryItem P ds

def EveryEntry (P : List (Document × Document) → Prop) : List (Document × Document) → Prop
  | [] => True
  | (k, d) :: es => EveryMapping P k ∧ EveryMapping P d ∧ EveryEntry P es

end

mutual

theorem EveryMapping.and (h : ∀ entries, P entries → Q entries → R entries) :
    ∀ d : Document, EveryMapping P d → EveryMapping Q d → EveryMapping R d
  | sequence items, hp, hq => EveryItem.and h items hp hq
  | mapping entries, hp, hq => ⟨h entries hp.1 hq.1, EveryEntry.and h entries hp.2 hq.2⟩
  | tagged _ d, hp, hq => EveryMapping.and h d hp hq
  | null, _, _ | bool _, _, _ | int _, _, _ | float _, _, _ | string _, _, _ => trivial

theorem EveryItem.and (h : ∀ entries, P entries → Q entries → R entries) :
    ∀ ds : List Document, EveryItem P ds → EveryItem Q ds → EveryItem R ds
  | [], _, _ => trivial
  | d :: ds, hp, hq => ⟨EveryMapping.and h d hp.1 hq.1, EveryItem.and h ds hp.2 hq.2⟩

theorem EveryEntry.and (h : ∀ entries, P entries → Q entries → R entries) :
    ∀ es : List (Document × Document), EveryEntry P es → EveryEntry Q es → EveryEntry R es
  | [], _, _ => trivial
  | (k, d) :: es, hp, hq => ⟨EveryMapping.and h k hp.1 hq.1, EveryMapping.and h d hp.2.1 hq.2.1,
      EveryEntry.and h es hp.2.2 hq.2.2⟩

end

end Yaml.Document

namespace Store

open Yaml.Document (EveryMapping EveryItem EveryEntry)

mutual

/-- The value is the document without its tags. Every mapping has become a map with an entry for
each of its own, in the same order and with the name of its key. -/
def Mirrors : Document → Value → Prop
  | .null, v => v = .null
  | .bool b, v => v = .bool b
  | .int n, v => v = .ofInt n
  | .float x, v => v = .float x
  | .string s, v => v = .string s
  | .sequence items, v => ∃ vs, v = .seq vs ∧ MirrorsItems items vs
  | .mapping entries, v => ∃ es, v = .map es ∧ MirrorsEntries entries es
  | .tagged _ d, v => Mirrors d v

def MirrorsItems : List Document → List Value → Prop
  | [], vs => vs = []
  | d :: ds, vs => ∃ w ws, vs = w :: ws ∧ Mirrors d w ∧ MirrorsItems ds ws

def MirrorsEntries : List (Document × Document) → Entries Value → Prop
  | [], es => es = []
  | (k, d) :: ds, es => ∃ name v fs, es = (name, v) :: fs ∧
      (∃ w, Mirrors k w ∧ keyName w = .ok name) ∧ Mirrors d v ∧ MirrorsEntries ds fs

end

def Made (e : Document × Document) (f : String × Value) : Prop :=
  nameOf e.1 = .ok f.1 ∧ valueOf e.2 = .ok f.2

variable {entries : List (Document × Document)} {done result es : Entries Value}

/-- How an entry is written. -/
theorem entriesOf_cons {e : Document × Document} (h : entriesOf done (e :: entries) = .ok result) :
    ∃ name v, Made e (name, v) ∧ entriesOf (Entries.insert done name v) entries = .ok result := by
  rw [entriesOf] at h
  obtain ⟨w, hw, h⟩ := of_bind_ok h
  obtain ⟨name, hn, h⟩ := of_bind_ok h
  obtain ⟨v, hv, h⟩ := of_bind_ok h
  exact ⟨name, v, ⟨by rw [nameOf, hw]; exact hn, hv⟩, h⟩

theorem length_insert (m : Entries Value) (key : String) (v : Value) :
    (Entries.insert m key v).length = if key ∈ m.keys then m.length else m.length + 1 := by
  have hk := congrArg List.length (Entries.keys_insert m key v)
  simp only [Entries.contains_iff] at hk
  by_cases hm : key ∈ m.keys
  · rw [if_pos hm] at hk ⊢
    simpa [Entries.keys] using hk
  · rw [if_neg hm] at hk ⊢
    simpa [Entries.keys] using hk

theorem entriesOf_length (h : entriesOf done entries = .ok result) :
    result.length ≤ done.length + entries.length := by
  induction entries generalizing done with
  | nil =>
    cases h
    exact Nat.le_refl _
  | cons e entries ih =>
    obtain ⟨name, v, -, h⟩ := entriesOf_cons h
    have hlen := ih h
    rw [length_insert] at hlen
    rw [List.length_cons]
    split at hlen <;> omega

def Fresh (done : Entries Value) (entries : List (Document × Document)) : Prop :=
  ∀ e ∈ entries, ∀ name ∈ done.keys, nameOf e.1 ≠ .ok name

/-- Where no name is there yet or comes twice, all entries are appended. -/
theorem entriesOf_fresh (h : entriesOf done entries = .ok result) (hn : NamesDiffer entries)
    (hd : Fresh done entries) : ∃ es, result = done ++ es ∧ List.Forall₂ Made entries es := by
  induction entries generalizing done with
  | nil =>
    cases h
    exact ⟨[], (List.append_nil _).symm, .nil⟩
  | cons e entries ih =>
    obtain ⟨name, v, hm, h⟩ := entriesOf_cons h
    obtain ⟨hne, hn⟩ := List.pairwise_cons.1 hn
    have hnew : name ∉ done.keys := fun hk => hd e List.mem_cons_self name hk hm.1
    rw [Entries.insert_new hnew] at h
    have hd' : Fresh (done ++ [(name, v)]) entries := by
      intro f hf other hk
      simp only [Entries.keys, List.map_append, List.mem_append, List.map_cons, List.map_nil,
        List.mem_singleton] at hk
      rcases hk with hk | rfl
      · exact hd f (List.mem_cons_of_mem e hf) other hk
      · exact hm.1 ▸ hne f hf
    obtain ⟨es, rfl, hes⟩ := ih h hn hd'
    exact ⟨(name, v) :: es, by simp, .cons hm hes⟩

/-- If there is an entry for each in the end, no name came twice. -/
theorem fresh_of_length (h : entriesOf done entries = .ok result)
    (hlen : result.length = done.length + entries.length) :
    NamesDiffer entries ∧ Fresh done entries := by
  induction entries generalizing done with
  | nil => exact ⟨List.Pairwise.nil, nofun⟩
  | cons e entries ih =>
    obtain ⟨name, v, hm, h⟩ := entriesOf_cons h
    have hle := entriesOf_length h
    have hins := length_insert done name v
    rw [List.length_cons] at hlen
    have hnew : name ∉ done.keys := by
      intro hk
      rw [if_pos hk] at hins
      omega
    rw [if_neg hnew] at hins
    obtain ⟨hn, hd⟩ := ih h (by omega)
    rw [Entries.insert_new hnew] at hd
    have hd' (f : Document × Document) (hf : f ∈ entries) (other : String)
        (hk : other ∈ done.keys ∨ other = name) : nameOf f.1 ≠ .ok other := by
      refine hd f hf other ?_
      simpa [Entries.keys] using hk
    refine ⟨List.pairwise_cons.2 ⟨fun f hf => ?_, hn⟩, List.forall_mem_cons.2 ⟨?_, ?_⟩⟩
    · rw [hm.1]
      exact hd' f hf name (.inr rfl)
    · intro other hk he
      obtain rfl : name = other := Except.ok.inj (hm.1.symm.trans he)
      exact hnew hk
    · exact fun f hf other hk => hd' f hf other (.inl hk)

/-- A key is a scalar, perhaps with tags. -/
theorem key_scalar {P : List (Document × Document) → Prop} : ∀ (k : Document) {w : Value}
    {name : String}, valueOf k = .ok w → keyName w = .ok name → EveryMapping P k ∧ Mirrors k w
  | .null, _, _, h, _ | .bool _, _, _, h, _ | .int _, _, _, h, _ | .float _, _, _, h, _
  | .string _, _, _, h, _ => by
    cases h
    exact ⟨trivial, rfl⟩
  | .sequence items, w, name, h, hn => by
    rw [valueOf] at h
    obtain ⟨vs, -, rfl⟩ := of_map_ok h
    cases hn
  | .mapping entries, w, name, h, hn => by
    rw [valueOf] at h
    obtain ⟨es, -, rfl⟩ := of_map_ok h
    cases hn
  | .tagged _ d, w, name, h, hn => by
    rw [valueOf] at h
    exact key_scalar d h hn

theorem mirrorsEntries_length : ∀ (entries : List (Document × Document)) {es : Entries Value},
    MirrorsEntries entries es → es.length = entries.length
  | [], es, h => by
    rw [MirrorsEntries] at h
    rw [h]
    rfl
  | (k, d) :: entries, es, h => by
    obtain ⟨name, v, fs, rfl, -, -, h⟩ := h
    rw [List.length_cons, List.length_cons, mirrorsEntries_length entries h]

mutual

/-- A document that was converted is mirrored exactly if in each of its mappings the names of the
keys differ. -/
theorem mirrors_iff : ∀ (d : Document) {v : Value}, valueOf d = .ok v →
    (Mirrors d v ↔ EveryMapping NamesDiffer d)
  | .null, _, h | .bool _, _, h | .int _, _, h | .float _, _, h | .string _, _, h => by
    cases h
    exact iff_of_true rfl trivial
  | .sequence items, v, h => by
    rw [valueOf] at h
    obtain ⟨vs, hvs, rfl⟩ := of_map_ok h
    rw [Mirrors, EveryMapping, ← mirrorsItems_iff items hvs]
    simp
  | .mapping entries, v, h => by
    rw [valueOf] at h
    obtain ⟨es, hes, rfl⟩ := of_map_ok h
    have hm : Mirrors (.mapping entries) (.map es) ↔ MirrorsEntries entries es := by
      rw [Mirrors]
      simp
    rw [hm, EveryMapping]
    constructor
    · intro h
      have hlen : es.length = ([] : Entries Value).length + entries.length := by
        rw [mirrorsEntries_length entries h, List.length_nil, Nat.zero_add]
      obtain ⟨hn, hd⟩ := fresh_of_length hes hlen
      obtain ⟨fs, rfl, hfs⟩ := entriesOf_fresh hes hn hd
      exact ⟨hn, (mirrorsEntries_iff entries hfs).1 h⟩
    · rintro ⟨hn, he⟩
      obtain ⟨fs, rfl, hfs⟩ := entriesOf_fresh hes hn fun _ _ _ hk => nomatch hk
      exact (mirrorsEntries_iff entries hfs).2 he
  | .tagged _ d, v, h => by
    rw [valueOf] at h
    exact mirrors_iff d h

theorem mirrorsItems_iff : ∀ (items : List Document) {vs : List Value}, valuesOf items = .ok vs →
    (MirrorsItems items vs ↔ EveryItem NamesDiffer items)
  | [], vs, h => by
    cases h
    exact iff_of_true rfl trivial
  | d :: ds, vs, h => by
    rw [valuesOf] at h
    obtain ⟨v, hv, h⟩ := of_bind_ok h
    obtain ⟨ws, hws, h⟩ := of_bind_ok h
    cases h
    rw [MirrorsItems, EveryItem, ← mirrors_iff d hv, ← mirrorsItems_iff ds hws]
    simp

theorem mirrorsEntries_iff : ∀ (entries : List (Document × Document)) {es : Entries Value},
    List.Forall₂ Made entries es → (MirrorsEntries entries es ↔ EveryEntry NamesDiffer entries)
  | [], es, h => by
    cases h
    exact iff_of_true rfl trivial
  | (k, d) :: entries, es, h => by
    cases h with
    | @cons _ f _ fs hf hfs =>
    obtain ⟨w, hw, hn⟩ := of_bind_ok hf.1
    obtain ⟨hk, hkw⟩ := key_scalar (P := NamesDiffer) k hw hn
    rw [EveryEntry, ← mirrors_iff d hf.2, ← mirrorsEntries_iff entries hfs, MirrorsEntries]
    constructor
    · rintro ⟨name, v, gs, he, -, hd, hgs⟩
      cases he
      exact ⟨hk, hd, hgs⟩
    · rintro ⟨-, hd, hgs⟩
      exact ⟨f.1, f.2, fs, rfl, ⟨w, hkw, hn⟩, hd, hgs⟩

end

mutual

theorem keysDiffer_iff : ∀ d : Document, d.KeysDiffer ↔
    EveryMapping (fun es => es.Pairwise fun e later => Document.equal later.1 e.1 = false) d
  | .sequence items => itemsDiffer_iff items
  | .mapping entries => and_congr_right fun _ => entriesDiffer_iff entries
  | .tagged _ d => keysDiffer_iff d
  | .null | .bool _ | .int _ | .float _ | .string _ => Iff.rfl

theorem itemsDiffer_iff : ∀ ds : List Document, Document.ItemsDiffer ds ↔
    EveryItem (fun es => es.Pairwise fun e later => Document.equal later.1 e.1 = false) ds
  | [] => Iff.rfl
  | d :: ds => and_congr (keysDiffer_iff d) (itemsDiffer_iff ds)

theorem entriesDiffer_iff : ∀ es : List (Document × Document), Document.EntriesDiffer es ↔
    EveryEntry (fun es => es.Pairwise fun e later => Document.equal later.1 e.1 = false) es
  | [] => Iff.rfl
  | (k, d) :: es =>
    and_congr (keysDiffer_iff k) (and_congr (keysDiffer_iff d) (entriesDiffer_iff es))

end

/-- What is loaded from a text that does not count as blank is the document of the text, entry by
entry, exactly if in each mapping the names of the keys differ. They do where the keys are all
strings, or all plain scalars of other kinds. -/
theorem load_mirrors {files : Files} {path text : String} {s : Store}
    (ht : files.text? path = some text) (h : load files path = .ok s) :
    isBlank false text.toList ∧ s.params = [] ∨
      ∃ d v, Document.ofSource? text = some d ∧ d.KeysDiffer ∧ valueOf d = .ok v ∧
        (v = .map s.params ∨ v = .null ∧ s.params = []) ∧
        (Mirrors d v ↔ EveryMapping NamesDiffer d) ∧ (EveryMapping PlainKeys d → Mirrors d v) := by
  rw [load_of_text ht] at h
  obtain ⟨params, hr, rfl⟩ := of_map_ok h
  obtain hb | ⟨-, d, hd, hv⟩ := readParams_ok.1 hr
  · exact .inl hb
  · have hk := Document.ofSource?_keysDiffer hd
    have hplain (hp : EveryMapping PlainKeys d) : EveryMapping NamesDiffer d :=
      hp.and (fun entries hp hn => namesDiffer_of_plainKeys hp hn) d ((keysDiffer_iff d).1 hk)
    obtain ⟨v, hv, hp⟩ : ∃ v, valueOf d = .ok v ∧ (v = .map params ∨ v = .null ∧ params = []) := by
      rcases hv with hv | ⟨hv, hp⟩
      · exact ⟨_, hv, .inl rfl⟩
      · exact ⟨_, hv, .inr ⟨rfl, hp⟩⟩
    have hiff := mirrors_iff d hv
    exact .inr ⟨d, v, hd, hk, hv, hp, hiff, fun h => hiff.2 (hplain h)⟩

/-- The keys of this text differ, but become the same name, and one entry is lost. -/
theorem number_key_lost :
    let files : Files := fun _ => some "1: a\n'1': b\n".toUTF8
    let d := Document.mapping [(.int 1, .string "a"), (.string "1", .string "b")]
    Files.text? files "p.yaml" = some "1: a\n'1': b\n" ∧
      Document.ofSource? "1: a\n'1': b\n" = some d ∧ d.KeysDiffer ∧
      load files "p.yaml" = .ok ⟨[("1", .string "b")]⟩ ∧
      ¬ Mirrors d (.map [("1", .string "b")]) := by
  intro files d
  have ht : Files.text? files "p.yaml" = some "1: a\n'1': b\n" :=
    fromUTF8?_toUTF8 "1: a\n'1': b\n"
  have hb : isBlank false "1: a\n'1': b\n".toList = false := rfl
  have hd : Document.ofSource? "1: a\n'1': b\n" = some d := by cbv
  have hv : valueOf d = .ok (.map [("1", .string "b")]) := rfl
  refine ⟨ht, hd, Document.ofSource?_keysDiffer hd, load_of_document ht hb hd hv, ?_⟩
  intro hm
  obtain ⟨hn, -⟩ := (mirrors_iff d hv).1 hm
  exact (List.pairwise_cons.1 hn).1 _ List.mem_cons_self rfl

theorem load_mirrors_keys :
    let files : Files := fun _ => some "1: a\n~:\n  1: b\n".toUTF8
    let d := Document.mapping
      [(.int 1, .string "a"), (.null, .mapping [(.int 1, .string "b")])]
    Files.text? files "p.yaml" = some "1: a\n~:\n  1: b\n" ∧
      load files "p.yaml" = .ok ⟨[("1", .string "a"), ("None", .map [("1", .string "b")])]⟩ ∧
      Mirrors d (.map [("1", .string "a"), ("None", .map [("1", .string "b")])]) := by
  intro files d
  have ht : Files.text? files "p.yaml" = some "1: a\n~:\n  1: b\n" :=
    fromUTF8?_toUTF8 "1: a\n~:\n  1: b\n"
  have hb : isBlank false "1: a\n~:\n  1: b\n".toList = false := rfl
  have hd : Document.ofSource? "1: a\n~:\n  1: b\n" = some d := by cbv
  have hv : valueOf d = .ok
      (.map [("1", .string "a"), ("None", .map [("1", .string "b")])]) := rfl
  have hl := load_of_document ht hb hd hv
  refine ⟨ht, hl, ?_⟩
  obtain ⟨hb', -⟩ | ⟨_, v, hd', -, hv', -, -, hp⟩ := load_mirrors ht hl
  · cases hb.symm.trans hb'
  cases hd.symm.trans hd'
  cases hv.symm.trans hv'
  have hint : IsTyped (.int 1) := rfl
  have hinner : PlainKeys [(.int 1, .string "b")] := .inr (by simpa using hint)
  have houter : PlainKeys [(.int 1, .string "a"), (.null, .mapping [(.int 1, .string "b")])] :=
    .inr (by simpa using ⟨hint, trivial⟩)
  exact hp ⟨houter, trivial, trivial, trivial, ⟨hinner, trivial, trivial, trivial⟩, trivial⟩

end Store
end Stencil
