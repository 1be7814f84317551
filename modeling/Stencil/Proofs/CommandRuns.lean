import Stencil.Command.Run
import Stencil.Proofs.Loading

/-! What the commands on a parameter file that loads do, in terms of the store that it holds. -/
namespace Stencil

theorem Script.bind_assoc {α β γ : Type} (x : Script α) (f : α → Script β) (g : β → Script γ) :
    x >>= f >>= g = x >>= fun a => f a >>= g := by
  induction x with
  | done a => rfl
  | fail e => rfl
  | read path next ih => exact congrArg (Script.read path) (funext ih)
  | write path text next ih => exact congrArg (Script.write path text) ih
  | print text next ih => exact congrArg (Script.print text) ih

namespace Command

variable {d : Directory} {file : String} {s : Store}

/-- Reading parameters ends a script, or goes on with them. -/
theorem run_loadParams (d : Directory) (path : String) (next : Entries Value → Script Unit) :
    (loadParams path >>= next).run Directory.fileSystem d =
      match Store.loadParams d.read? path with
      | .ok params => (next params).run Directory.fileSystem d
      | .error e => ⟨.error (.file e), d, ""⟩ := by
  have hs : loadParams path >>= next = .read path fun text =>
      Script.ofExcept ((Store.readParams path text).mapError Error.file) >>= next := rfl
  have hd : Directory.fileSystem.read? d = d.read? := rfl
  rw [hs, Script.run, Store.loadParams, hd]
  cases Files.text? d.read? path with
  | none => rfl
  | some text =>
    dsimp only
    cases Store.readParams path text <;> rfl

theorem run_loadStore (h : Store.load d.read? file = .ok s) (next : Store → Script Unit) :
    (loadStore file >>= next).run Directory.fileSystem d =
      (next s).run Directory.fileSystem d := by
  rw [loadStore, Script.bind_assoc, run_loadParams, Store.loadParams_of_load h]
  rfl

def saving (d : Directory) (file : String) (t : Store) (report : String) :
    Except Error String × Directory :=
  match d.save t file true with
  | .ok after => (.ok report, after)
  | .error e => (.error (.file e), d)

theorem saving_ok {t : Store} {report out : String} {after : Directory}
    (h : saving d file t report = (.ok out, after)) :
    out = report ∧ d.save t file true = .ok after := by
  rw [saving] at h
  cases hs : d.save t file true with
  | error e =>
    rw [hs] at h
    cases h
  | ok next =>
    rw [hs] at h
    cases h
    exact ⟨rfl, rfl⟩

def writing (d : Directory) (path text report : String) : Except Error String × Directory :=
  match d.writeText path text with
  | .ok after => (.ok report, after)
  | .error e => (.error (.file e), d)

theorem run_writing (d : Directory) (path text report : String) :
    let r := Script.run Directory.fileSystem d (do
      .writeFile path text
      .say report)
    (r.result.map fun _ => r.printed, r.files) = writing d path text report := by
  have hs : (do .writeFile path text; .say report : Script Unit) =
      .write path text (.print report (.done ())) := rfl
  have hd : Directory.fileSystem.write? = Directory.write? := rfl
  rw [hs, Script.run, writing, Directory.writeText, hd]
  cases d.write? path text.toUTF8 with
  | none => rfl
  | some after => simp [Script.run, Except.map]

theorem run_save (d : Directory) (file report : String) (t : Store) :
    let r := Script.run Directory.fileSystem d (do
      .writeFile file (t.savedText file true)
      .say report)
    (r.result.map fun _ => r.printed, r.files) = saving d file t report :=
  run_writing d file (t.savedText file true) report

theorem run_say (d : Directory) (text : String) :
    Script.run Directory.fileSystem d (.say text) = ⟨.ok (), d, text⟩ := by
  simp [Script.say, Script.run]

theorem run_get (h : Store.load d.read? file = .ok s) (key : String) :
    run d (.get file key) =
      (.ok (match s.get? key with
        | some v => key ++ ": " ++ v.display ++ "\n"
        | none => "Parameter '" ++ key ++ "' not found\n"), d) := by
  rw [run, script, run_loadStore h]
  cases s.get? key with
  | none =>
    dsimp only
    rw [run_say]
    rfl
  | some v =>
    dsimp only
    rw [run_say]
    rfl

theorem run_add (h : Store.load d.read? file = .ok s) (key value : String) :
    run d (.add file key value) =
      saving d file (s.set key (readValue value))
        ("Parameter added: " ++ key ++ " = " ++ (readValue value).display ++ "\n") := by
  rw [run, script, run_loadStore h]
  exact run_save d file _ _

theorem run_remove (h : Store.load d.read? file = .ok s) (key : String) :
    run d (.remove file key) =
      if s.contains key then saving d file (s.remove key).2 ("Parameter removed: " ++ key ++ "\n")
      else (.ok ("Parameter '" ++ key ++ "' does not exist\n"), d) := by
  have hc : s.contains key = (s.get? key).isSome := rfl
  rw [run, script, run_loadStore h, Store.remove, hc]
  cases s.get? key with
  | none =>
    dsimp only
    rw [run_say]
    rfl
  | some v => exact run_save d file _ _

theorem run_merge (h : Store.load d.read? file = .ok s) (source : String) :
    run d (.merge file source) =
      match s.mergeFile d.read? source with
      | .ok (added, t) =>
        saving d file t ("Files merged\nNew parameters added: " ++ toString added ++ "\n")
      | .error e => (.error (.file e), d) := by
  rw [run, script, run_loadStore h, run_loadParams, Store.mergeFile]
  cases Store.loadParams d.read? source with
  | error e => rfl
  | ok other => exact run_save d file _ _

end Command
end Stencil
