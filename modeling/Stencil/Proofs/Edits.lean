import Stencil.Proofs.CommandRuns
import Stencil.Proofs.History
import Stencil.Proofs.SavedStore

/-! Edits of a parameter file. Every run of a command loads the file, changes the store and saves it
again; after any number of them the file holds what the same changes make of the store in memory. -/
namespace Stencil

inductive Edit where
  | add (key value : String)
  | remove (key : String)
  | merge (source : String)

namespace Edit

open Command Directory

def command (file : String) : Edit → Command
  | add key value => .add file key value
  | remove key => .remove file key
  | merge source => .merge file source

/-- What an edit of `file` makes of a store in memory. A file that is merged into itself holds the
store. -/
def apply (files : Files) (file : String) (s : Store) : Edit → Except FileError Store
  | add key value => .ok (s.set key ((Json.read? value).getD (.string value)))
  | remove key => .ok (s.remove key).2
  | merge source =>
    if name? source = name? file then .ok (s.merge s.params).2
    else Prod.snd <$> s.mergeFile files source

def applyAll (files : Files) (file : String) (s : Store) : List Edit → Except FileError Store
  | [] => .ok s
  | e :: es => do applyAll files file (← e.apply files file s) es

def runAll (file : String) (d : Directory) : List Edit → Except Error Directory
  | [] => .ok d
  | e :: es =>
    match Command.run d (e.command file) with
    | (.ok _, after) => runAll file after es
    | (.error err, _) => .error err

variable {start d d' : Directory} {file : String} {s t : Store}

theorem applyAll_cons {files : Files} {e : Edit} (h : e.apply files file s = .ok t)
    (es : List Edit) : applyAll files file s (e :: es) = applyAll files file t es := by
  rw [applyAll, h]
  rfl

structure Holds (start : Directory) (file : String) (d : Directory) (t : Store) : Prop where
  loads : Store.load d.read? file = .ok t
  others : ∀ other, name? other ≠ name? file → d.read? other = start.read? other

/-- The text of the store reads back, and its first key does not hide it. -/
structure Reloads (file : String) (t : Store) : Prop where
  readsBack : t.ReadsBack file true
  shown : ∀ e ∈ t.params.head?, Store.looksLikeComment e.1 = false

theorem named_of_load (h : Store.load d.read? file = .ok s) : ∃ name, name? file = some name := by
  cases hn : name? file with
  | some name => exact ⟨name, rfl⟩
  | none =>
    have ht : Files.text? d.read? file = none := by
      rw [Files.text?, Directory.read?, hn]
      rfl
    rw [Store.load, Store.loadParams, ht] at h
    cases h

/-- A store that reloads is saved without failure, and the file holds it then. -/
theorem Holds.saving (h : Holds start file d s) (hp : '\n' ∉ file.toList)
    (ht : Reloads file t) (report : String) :
    ∃ after, saving d file t report = (.ok report, after) ∧ Holds start file after t := by
  obtain ⟨name, hn⟩ := named_of_load h.loads
  obtain ⟨after, hs⟩ : ∃ after, d.save t file true = .ok after := ⟨_, writeText_named hn _ _⟩
  refine ⟨after, by rw [Command.saving, hs], ?_, ?_⟩
  · exact Store.load_shown hs hp ht.readsBack ht.shown
  · intro other ho
    rw [read?_write? (writeText_ok.1 hs) ho]
    exact h.others other ho

/-- A merge reads in the directory what it reads in memory. -/
theorem Holds.merge (h : Holds start file d s) (source : String) :
    (Edit.merge source).apply start.read? file s = Prod.snd <$> s.mergeFile d.read? source := by
  by_cases hn : name? source = name? file
  · have hp : Store.loadParams d.read? source = .ok s.params := by
      have hf := Store.loadParams_of_load h.loads
      have ht : Files.text? d.read? source = Files.text? d.read? file := by
        rw [Files.text?, Files.text?, Directory.read?, Directory.read?, hn]
      rw [Store.loadParams] at hf ⊢
      rw [ht]
      cases hx : Files.text? d.read? file with
      | none =>
        rw [hx] at hf
        cases hf
      | some text =>
        rw [hx] at hf
        exact Store.readParams_path hf source
    rw [apply, if_pos hn, Store.mergeFile, hp]
    rfl
  · have ht : Files.text? d.read? source = Files.text? start.read? source := by
      rw [Files.text?, Files.text?, h.others source hn]
    rw [apply, if_neg hn, Store.mergeFile, Store.mergeFile, Store.loadParams, Store.loadParams, ht]

theorem remove_absent {key : String} (h : s.contains key = false) : (s.remove key).2 = s := by
  rw [Store.remove, Entries.erase_of_not_contains h]

/-- A command does in the directory what its edit does in memory, or both fail alike. -/
theorem run_edit (e : Edit) (h : Holds start file d s) (hp : '\n' ∉ file.toList)
    (hr : ∀ t, e.apply start.read? file s = .ok t → Reloads file t) :
    (∃ err, e.apply start.read? file s = .error err ∧
      Command.run d (e.command file) = (.error (.file err), d)) ∨
    ∃ t report after, e.apply start.read? file s = .ok t ∧
      Command.run d (e.command file) = (.ok report, after) ∧ Holds start file after t := by
  cases e with
  | add key value =>
    right
    obtain ⟨after, hs, ha⟩ := h.saving hp (hr _ rfl) _
    exact ⟨_, _, after, rfl, (run_add h.loads key value).trans hs, ha⟩
  | remove key =>
    right
    have hc := run_remove h.loads key
    by_cases hk : s.contains key
    · rw [if_pos hk] at hc
      obtain ⟨after, hs, ha⟩ := h.saving hp (hr _ rfl) _
      exact ⟨_, _, after, rfl, hc.trans hs, ha⟩
    · rw [if_neg hk] at hc
      refine ⟨s, _, d, ?_, hc, h⟩
      rw [apply, remove_absent (by simpa using hk)]
  | merge source =>
    have hc := run_merge h.loads source
    have hm := h.merge source
    cases hx : s.mergeFile d.read? source with
    | error err =>
      rw [hx] at hc hm
      exact .inl ⟨err, hm, hc⟩
    | ok r =>
      rw [hx] at hc hm
      obtain ⟨after, hs, ha⟩ := h.saving hp (hr _ hm) _
      exact .inr ⟨r.2, _, after, hm, hc.trans hs, ha⟩

/-- Commands one after another do in the directory what their edits do in memory, or fail alike, as
long as every store that they come to reloads. -/
theorem runAll_edits (es : List Edit) (h : Holds start file d s) (hp : '\n' ∉ file.toList)
    (hr : ∀ pre t, pre ≠ [] → pre <+: es → applyAll start.read? file s pre = .ok t →
      Reloads file t) :
    (∃ err, applyAll start.read? file s es = .error err ∧
      runAll file d es = .error (.file err)) ∨
    ∃ t after, applyAll start.read? file s es = .ok t ∧ runAll file d es = .ok after ∧
      Holds start file after t := by
  induction es generalizing d s with
  | nil => exact .inr ⟨s, d, rfl, rfl, h⟩
  | cons e es ih =>
    have he : ∀ t, e.apply start.read? file s = .ok t → Reloads file t := by
      intro t ht
      refine hr [e] t (List.cons_ne_nil _ _) (List.prefix_append [e] es) ?_
      rw [applyAll_cons ht, applyAll]
    rcases run_edit e h hp he with ⟨err, ha, hc⟩ | ⟨u, report, next, ha, hc, hu⟩
    · left
      refine ⟨err, ?_, ?_⟩
      · rw [applyAll, ha]
        rfl
      · rw [runAll, hc]
    · -- The stores that the rest comes to are among those of the whole.
      have hn : ∀ pre t, pre ≠ [] → pre <+: es → applyAll start.read? file u pre = .ok t →
          Reloads file t := by
        intro pre t _ hpre ht
        refine hr (e :: pre) t (List.cons_ne_nil _ _) (List.prefix_cons_inj e |>.2 hpre) ?_
        rw [applyAll_cons ha]
        exact ht
      rw [applyAll_cons ha, runAll, hc]
      exact ih hu hn

/-- What the commands tell of a file that holds the store. The names of a source that are counted
are those that the store does not have. -/
structure Tells (file : String) (d : Directory) (t : Store) : Prop where
  value : ∀ key, Command.run d (.get file key) =
    (.ok (match t.get? key with
      | some v => key ++ ": " ++ v.display ++ "\n"
      | none => "Parameter '" ++ key ++ "' not found\n"), d)
  absent : ∀ key, t.contains key = false → Command.run d (.remove file key) =
    (.ok ("Parameter '" ++ key ++ "' does not exist\n"), d)
  merged : ∀ source report after, Command.run d (.merge file source) = (.ok report, after) →
    ∃ others, Store.loadParams d.read? source = .ok others ∧ others.Distinct ∧
      report = "Files merged\nNew parameters added: " ++
        toString (others.keys.filter fun name => !t.contains name).length ++ "\n" ∧
      (name? source ≠ name? file → after.read? source = d.read? source)

theorem tells_of_load (h : Store.load d.read? file = .ok t) : Tells file d t := by
  constructor
  · exact run_get h
  · intro key hk
    rw [run_remove h, if_neg (by simp [hk])]
  · intro source report after hc
    rw [run_merge h, Store.mergeFile] at hc
    cases ho : Store.loadParams d.read? source with
    | error err =>
      rw [ho] at hc
      cases hc
    | ok others =>
      rw [ho] at hc
      obtain ⟨hr, hs⟩ := saving_ok hc
      have hd : others.Distinct := Store.loadParams_distinct ho
      refine ⟨others, rfl, hd, ?_, fun hn => read?_write? (writeText_ok.1 hs) hn⟩
      rw [hr, ← Store.merge_added hd]
      rfl

/-- After edits of a file that all succeed it holds what they make of the store in memory, with
nothing lost on the way, and the other files are as they were. -/
theorem runAll_refines (es : List Edit) (h : Store.load d.read? file = .ok s)
    (hp : '\n' ∉ file.toList)
    (hr : ∀ pre t, pre ≠ [] → pre <+: es → applyAll d.read? file s pre = .ok t →
      Reloads file t)
    (hd : runAll file d es = .ok d') :
    ∃ t, applyAll d.read? file s es = .ok t ∧ Holds d file d' t ∧ Tells file d' t := by
  rcases runAll_edits es ⟨h, fun _ _ => rfl⟩ hp hr with ⟨err, -, he⟩ | ⟨t, after, ht, ha, hh⟩
  · rw [hd] at he
    cases he
  · rw [hd] at ha
    cases ha
    exact ⟨t, ht, hh, tells_of_load hh.loads⟩

def shelf : Directory := ⟨[("p.yaml", "".toUTF8), ("q.yaml", "b: 2\n".toUTF8)]⟩

theorem load_shelf : Store.load shelf.read? "p.yaml" = .ok .empty := by
  have hn : name? "p.yaml" = some "p.yaml" := rfl
  rw [Store.load_of_text (text?_of_get? (d := shelf) hn rfl)]
  rfl

theorem loadParams_shelf : Store.loadParams shelf.read? "q.yaml" = .ok [("b", .int 2)] := by
  have hn : name? "q.yaml" = some "q.yaml" := rfl
  have ht := text?_of_get? (d := shelf) hn rfl
  have hb : Store.isBlank false "b: 2\n".toList = false := rfl
  have hd : Yaml.Document.ofSource? "b: 2\n" = some (Value.document (.map [("b", .int 2)])) := by
    cbv
  rw [Store.loadParams, ht]
  exact Store.readParams_document hb hd _

theorem reloads_of_text {text : String} (hs : t.savedText file true = text)
    (hd : Yaml.Document.ofSource? text = some (Value.document (.map t.params)))
    (hk : t.params.head?.all (fun e => !Store.looksLikeComment e.1) = true) : Reloads file t := by
  constructor
  · intro _
    rw [hs, hd]
  · intro e he
    rw [Option.mem_def] at he
    simpa [he] using hk

def history : List Edit := [.add "a" "[1]", .merge "q.yaml", .remove "a"]

theorem apply_history :
    (add "a" "[1]").apply shelf.read? "p.yaml" .empty = .ok ⟨[("a", .seq [.int 1])]⟩ ∧
    (merge "q.yaml").apply shelf.read? "p.yaml" ⟨[("a", .seq [.int 1])]⟩ =
      .ok ⟨[("a", .seq [.int 1]), ("b", .int 2)]⟩ ∧
    (remove "a").apply shelf.read? "p.yaml" ⟨[("a", .seq [.int 1]), ("b", .int 2)]⟩ =
      .ok ⟨[("b", .int 2)]⟩ := by
  have hj : Json.read? "[1]" = some (.seq [.int 1]) := by cbv
  have hn : name? "q.yaml" ≠ name? "p.yaml" := by decide
  refine ⟨?_, ?_, rfl⟩
  · rw [apply, hj]
    rfl
  · rw [apply, if_neg hn, Store.mergeFile, loadParams_shelf]
    rfl

theorem reloads_history (pre : List Edit) (t : Store) (hn : pre ≠ []) (hp : pre <+: history)
    (ht : applyAll shelf.read? "p.yaml" .empty pre = .ok t) : Reloads "p.yaml" t := by
  obtain ⟨h₁, h₂, h₃⟩ := apply_history
  simp only [history, List.prefix_cons_iff, List.prefix_nil] at hp
  rcases hp with rfl | ⟨_, rfl, rfl | ⟨_, rfl, rfl | ⟨_, rfl, rfl⟩⟩⟩
  · exact absurd rfl hn
  · have hs : Store.savedText ⟨[("a", .seq [.int 1])]⟩ "p.yaml" true =
        "# paramforge parameters\n# File: p.yaml\n\na:\n- 1\n" := rfl
    rw [applyAll_cons h₁, applyAll] at ht
    cases ht
    exact reloads_of_text hs (by cbv) rfl
  · have hs : Store.savedText ⟨[("a", .seq [.int 1]), ("b", .int 2)]⟩ "p.yaml" true =
        "# paramforge parameters\n# File: p.yaml\n\na:\n- 1\nb: 2\n" := rfl
    rw [applyAll_cons h₁, applyAll_cons h₂, applyAll] at ht
    cases ht
    exact reloads_of_text hs (by cbv) rfl
  · have hs : Store.savedText ⟨[("b", .int 2)]⟩ "p.yaml" true =
        "# paramforge parameters\n# File: p.yaml\n\nb: 2\n" := rfl
    rw [applyAll_cons h₁, applyAll_cons h₂, applyAll_cons h₃, applyAll] at ht
    cases ht
    exact reloads_of_text hs (by cbv) rfl

theorem runAll_refines_history :
    ∃ d t, Store.load shelf.read? "p.yaml" = .ok .empty ∧ '\n' ∉ "p.yaml".toList ∧
      runAll "p.yaml" shelf history = .ok d ∧
      applyAll shelf.read? "p.yaml" .empty history = .ok t ∧
      Holds shelf "p.yaml" d t ∧ Tells "p.yaml" d t := by
  have hp : '\n' ∉ "p.yaml".toList := by decide
  obtain ⟨h₁, h₂, h₃⟩ := apply_history
  have ha : applyAll shelf.read? "p.yaml" .empty history = .ok ⟨[("b", .int 2)]⟩ := by
    rw [history, applyAll_cons h₁, applyAll_cons h₂, applyAll_cons h₃, applyAll]
  rcases runAll_edits history ⟨load_shelf, fun _ _ => rfl⟩ hp reloads_history with
    ⟨err, he, -⟩ | ⟨-, d, -, hd, -⟩
  · rw [ha] at he
    cases he
  · obtain ⟨t, ht, hh, hw⟩ := runAll_refines history load_shelf hp reloads_history hd
    exact ⟨d, t, load_shelf, hp, hd, ht, hh, hw⟩

/-- An entry whose line looks like a comment is added with success, and is not there afterwards. -/
theorem add_hidden_lost :
    Store.load shelf.read? "p.yaml" = .ok .empty ∧
    (add "\u00a0#x" "1").apply shelf.read? "p.yaml" .empty = .ok Store.hidden ∧
    Store.hidden.ReadsBack "p.yaml" true ∧
    ∃ d, runAll "p.yaml" shelf [add "\u00a0#x" "1"] = .ok d ∧
      Store.load d.read? "p.yaml" = .ok .empty ∧
      Command.run d (.get "p.yaml" "\u00a0#x") = (.ok "Parameter '\u00a0#x' not found\n", d) := by
  have hn : name? "p.yaml" = some "p.yaml" := rfl
  have hj : Json.read? "1" = some (.int 1) := by cbv
  have ha : (add "\u00a0#x" "1").apply shelf.read? "p.yaml" .empty = .ok Store.hidden := by
    rw [apply, hj]
    rfl
  obtain ⟨d, hs⟩ : ∃ d, shelf.save Store.hidden "p.yaml" true = .ok d :=
    ⟨_, writeText_named hn _ _⟩
  have hl : Store.load d.read? "p.yaml" = .ok .empty := Store.load_hidden hs
  have hr : runAll "p.yaml" shelf [add "\u00a0#x" "1"] = .ok d := by
    have hc := run_add load_shelf "\u00a0#x" "1"
    have hv : Store.empty.set "\u00a0#x" (readValue "1") = Store.hidden := by
      rw [readValue, hj]
      rfl
    rw [hv, Command.saving, hs] at hc
    rw [runAll, command, hc]
    rfl
  exact ⟨load_shelf, ha, Store.hidden_readsBack, d, hr, hl, run_get hl _⟩

end Edit
end Stencil
