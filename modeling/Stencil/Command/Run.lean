import Stencil.Command.Help
import Stencil.Json.Read
import Stencil.Json.Write
import Stencil.Store.Load
import Stencil.Store.Save

/-! What the commands do, one step after another. A step that is refused ends the script, but what
was done before it stays done. -/
namespace Stencil

inductive Script (α : Type) where
  | done (a : α)
  | fail (e : Error)
  | read (path : String) (next : String → Script α)
  | write (path text : String) (next : Script α)
  | print (text : String) (next : Script α)

namespace Script

variable {α β : Type}

def bind : Script α → (α → Script β) → Script β
  | done a, f => f a
  | fail e, _ => fail e
  | read path next, f => read path fun text => (next text).bind f
  | write path text next, f => write path text (next.bind f)
  | print text next, f => print text (next.bind f)

instance : Monad Script where
  pure := done
  bind := bind

def readFile (path : String) : Script String := read path done

def writeFile (path text : String) : Script Unit := write path text (done ())

def say (text : String) : Script Unit := print text (done ())

def ofExcept : Except Error α → Script α
  | .ok a => done a
  | .error e => fail e

end Script

/-- Where files are kept. A read or a write may be refused. -/
structure FileSystem (σ : Type) where
  read? : σ → Files
  write? : σ → String → ByteArray → Option σ

def Directory.fileSystem : FileSystem Directory := ⟨Directory.read?, Directory.write?⟩

namespace Script

structure Outcome (σ α : Type) where
  result : Except Error α
  files : σ
  printed : String

variable {σ α : Type}

def run (fs : FileSystem σ) (files : σ) : Script α → Outcome σ α
  | done a => ⟨.ok a, files, ""⟩
  | fail e => ⟨.error e, files, ""⟩
  | read path next =>
    match (fs.read? files).text? path with
    | none => ⟨.error (.file (.inaccessible path)), files, ""⟩
    | some text => (next text).run fs files
  | write path text next =>
    match fs.write? files path text.toUTF8 with
    | none => ⟨.error (.file (.inaccessible path)), files, ""⟩
    | some files => next.run fs files
  | print text next =>
    let r := next.run fs files
    { r with printed := text ++ r.printed }

end Script

namespace Command

/-- A parameter that is set only to a text that is given and not empty. -/
def given (key : String) (v : Option String) : Entries Value :=
  match v with
  | some s => if s = "" then [] else [(key, .string s)]
  | none => []

def initText (file : String) (name email role company : Option String) : String :=
  if name.isNone && email.isNone && role.isNone && company.isNone then Store.starterText file
  else
    let params : Entries Value :=
      [("name", .string (name.getD "")), ("email", .string (email.getD ""))] ++
        given "role" role ++ given "company" company
    Store.savedText ⟨params⟩ file true

def shorten (s : String) : String :=
  if 60 < s.length then String.ofList (s.toList.take 57) ++ "..." else s

def padRight (width : Nat) (s : String) : String :=
  s ++ String.ofList (List.replicate (width - s.length) ' ')

def listing (file : String) (s : Store) : String :=
  let width := (s.params.map (·.1.length)).foldl max 0
  let line (e : String × Value) : String :=
    "  " ++ padRight width e.1 ++ " → " ++ shorten e.2.display ++ "\n"
  let body :=
    if s.isEmpty then "  (empty)\n"
    else
      String.join (s.params.map line) ++ "\nTotal: " ++ toString s.size ++ " parameters\n"
  "Parameters in " ++ file ++ ":\n\n" ++ body

def readOverride (text : String) : Except Error (String × Value) :=
  match text.toList.dropWhile (· ≠ '=') with
  | _ :: v => .ok (String.ofList (text.toList.takeWhile (· ≠ '=')), .string (String.ofList v))
  | [] => .error (.invalidParam text)

def readOverrides (texts : List String) : Except Error (Entries Value) :=
  Entries.ofList <$> texts.mapM readOverride

/-- A text that is JSON stands for its value, any other for itself. -/
def readValue (text : String) : Value := (Json.read? text).getD (.string text)

def loadParams (path : String) : Script (Entries Value) := do
  let text ← Script.readFile path
  .ofExcept ((Store.readParams path text).mapError .file)

def loadStore (path : String) : Script Store := do
  let params ← loadParams path
  pure ⟨params⟩

def templateText (template : String) (inline : Bool) : Script String :=
  if inline then pure template else .readFile template

def script : Command → Script Unit
  | init file name email role company => do
    .writeFile file (initText file name email role company)
    .say ("Parameters file created: " ++ file ++
      "\nYou can edit it manually to add more parameters.\n")
  | list file => do
    let s ← loadStore file
    .say (listing file s)
  | render template file output params inline => do
    let s ← loadStore file
    let overrides ← .ofExcept (readOverrides params)
    let source ← templateText template inline
    let out ← .ofExcept (s.render source overrides)
    match output with
    | some path => do
      .writeFile path out
      .say ("Output saved to: " ++ path ++ "\n")
    | none => .say (out ++ "\n")
  | add file key value => do
    let s ← loadStore file
    let v := readValue value
    .writeFile file ((s.set key v).savedText file true)
    .say ("Parameter added: " ++ key ++ " = " ++ v.display ++ "\n")
  | remove file key => do
    let s ← loadStore file
    match s.remove key with
    | (none, _) => .say ("Parameter '" ++ key ++ "' does not exist\n")
    | (some _, s) => do
      .writeFile file (s.savedText file true)
      .say ("Parameter removed: " ++ key ++ "\n")
  | get file key => do
    let s ← loadStore file
    match s.get? key with
    | some v => .say (key ++ ": " ++ v.display ++ "\n")
    | none => .say ("Parameter '" ++ key ++ "' not found\n")
  | merge target source => do
    let s ← loadStore target
    let other ← loadParams source
    let (added, s) := s.merge other
    .writeFile target (s.savedText target true)
    .say ("Files merged\nNew parameters added: " ++ toString added ++ "\n")

def run (d : Directory) (c : Command) : Except Error String × Directory :=
  let r := c.script.run Directory.fileSystem d
  (r.result.map fun _ => r.printed, r.files)

end Command

end Stencil
