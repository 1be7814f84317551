import Stencil.Command.Run
import Stencil.Proofs.Loading

/-! A command does all that it is asked to do, or nothing. Nothing that it does after its write or
its first print can be refused, so a failure leaves the files as they were and nothing printed. -/
namespace Stencil.Script

variable {σ α β : Type}

def Looks : Script α → Prop
  | done _ | fail _ => True
  | read _ next => ∀ text, (next text).Looks
  | write .. | print .. => False

def Reports : Script α → Prop
  | done _ => True
  | print _ next => next.Reports
  | fail _ | read .. | write .. => False

/-- At most one write comes, to the file `target`, and after it or the first print only prints. -/
def Commits (target : Option String) : Script α → Prop
  | done _ | fail _ => True
  | read _ next => ∀ text, (next text).Commits target
  | write path _ next => target = some path ∧ next.Reports
  | print _ next => next.Reports

variable {target : Option String} {s : Script α}

theorem ofExcept_looks (x : Except Error α) : (ofExcept x).Looks := by
  cases x <;> trivial

theorem readFile_looks (path : String) : (readFile path).Looks := by
  intro text
  trivial

theorem Looks.bind {f : α → Script β} (h : s.Looks) (hf : ∀ a, (f a).Looks) :
    (s >>= f).Looks := by
  induction s with
  | done a => exact hf a
  | fail e => trivial
  | read path next ih =>
    intro text
    exact ih text (h text)
  | write | print => exact h.elim

/-- Reads may come before a script that commits. -/
theorem Looks.commits {f : α → Script β} (h : s.Looks) (hf : ∀ a, (f a).Commits target) :
    (s >>= f).Commits target := by
  induction s with
  | done a => exact hf a
  | fail e => trivial
  | read path next ih =>
    intro text
    exact ih text (h text)
  | write | print => exact h.elim

variable (fs : FileSystem σ) (files : σ)

theorem run_reports (h : s.Reports) :
    (∃ a, (s.run fs files).result = .ok a) ∧ (s.run fs files).files = files := by
  induction s with
  | done a => exact ⟨⟨a, rfl⟩, rfl⟩
  | print text next ih => exact ih h
  | fail | read | write => exact h.elim

/-- A failure leaves the files as they were and nothing printed, and in any case they are as they
were but for one write to `target`. -/
structure Outcome.AllOrNothing (target : Option String) (r : Outcome σ α) : Prop where
  untouched : ∀ e, r.result = .error e → r.files = files ∧ r.printed = ""
  wrote : r.files = files ∨ ∃ path text,
    target = some path ∧ fs.write? files path (String.toUTF8 text) = some r.files

/-- What is refused before the write and the first print leaves no trace. -/
theorem refused_allOrNothing (e : Error) :
    (⟨.error e, files, ""⟩ : Outcome σ α).AllOrNothing fs files target :=
  ⟨fun _ _ => ⟨rfl, rfl⟩, .inl rfl⟩

theorem run_commits (h : s.Commits target) : (s.run fs files).AllOrNothing fs files target := by
  induction s with
  | done a =>
    constructor
    · intro e he
      cases he
    · exact .inl rfl
  | fail e => exact refused_allOrNothing fs files e
  | read path next ih =>
    rw [run]
    cases (fs.read? files).text? path with
    | none => exact refused_allOrNothing fs files _
    | some text => exact ih text (h text)
  | write path text next ih =>
    obtain ⟨ht, hr⟩ := h
    rw [run]
    cases hw : fs.write? files path text.toUTF8 with
    | none => exact refused_allOrNothing fs files _
    | some after =>
      obtain ⟨⟨a, ha⟩, hf⟩ := run_reports fs after hr
      constructor
      · intro e he
        rw [ha] at he
        cases he
      · refine .inr ⟨path, text, ht, ?_⟩
        rw [hw, hf]
  | print text next ih =>
    obtain ⟨⟨a, ha⟩, hf⟩ := run_reports fs files h
    constructor
    · intro e he
      rw [run, ha] at he
      cases he
    · exact .inl hf

end Stencil.Script

namespace Stencil.Command

open Script

theorem loadParams_looks (path : String) : (loadParams path).Looks :=
  (readFile_looks path).bind fun _ => ofExcept_looks _

theorem loadStore_looks (path : String) : (loadStore path).Looks :=
  (loadParams_looks path).bind fun _ => trivial

theorem templateText_looks (template : String) (inline : Bool) :
    (templateText template inline).Looks := by
  cases inline with
  | true => trivial
  | false => exact readFile_looks template

/-- Every command reads, then writes its file, then prints. -/
theorem script_commits (c : Command) : c.script.Commits c.writes? := by
  cases c with
  | init file name email role company => exact ⟨rfl, trivial⟩
  | list file =>
    apply (loadStore_looks file).commits
    intro s
    trivial
  | render template file output params inline =>
    apply (loadStore_looks file).commits
    intro s
    apply (ofExcept_looks (readOverrides params)).commits
    intro overrides
    apply (templateText_looks template inline).commits
    intro source
    apply (ofExcept_looks (s.render source overrides)).commits
    intro out
    cases output with
    | none => trivial
    | some path => exact ⟨rfl, trivial⟩
  | add file key value =>
    apply (loadStore_looks file).commits
    intro s
    exact ⟨rfl, trivial⟩
  | remove file key =>
    apply (loadStore_looks file).commits
    intro s
    rcases s.remove key with ⟨_ | v, rest⟩
    · trivial
    · exact ⟨rfl, trivial⟩
  | get file key =>
    apply (loadStore_looks file).commits
    intro s
    split <;> trivial
  | merge target source =>
    apply (loadStore_looks target).commits
    intro s
    apply (loadParams_looks source).commits
    intro other
    exact ⟨rfl, trivial⟩

/-- Wherever the files are kept, a command that fails has changed none of them and printed nothing,
and any other has written to its own file at most. In a directory no other file changes. -/
theorem run_all_or_nothing (c : Command) :
    (∀ (σ : Type) (fs : FileSystem σ) (files : σ),
      (c.script.run fs files).AllOrNothing fs files c.writes?) ∧
    ∀ (d : Directory) (other : String),
      (∀ path, c.writes? = some path → Directory.name? other ≠ Directory.name? path) →
      (c.run d).2.read? other = d.read? other := by
  constructor
  · intro σ fs files
    exact run_commits fs files (script_commits c)
  · intro d other hn
    obtain hf | ⟨path, text, hp, hw⟩ :=
      (run_commits Directory.fileSystem d (script_commits c)).wrote
    · exact congrArg (Directory.read? · other) hf
    · exact Directory.read?_write? hw (hn path hp)

end Stencil.Command
