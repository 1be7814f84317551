import Stencil.Command.Help
import Stencil.Command.Read
import Stencil.Command.Run

/-! The command line: it takes the steps of a command one by one. -/
open Stencil

def fail (e : Stencil.Error) : IO UInt32 := do
  IO.eprintln ("Error: " ++ e.message)
  pure 1

def perform : Script Unit → IO UInt32
  | .done _ => pure 0
  | .fail e => fail e
  | .read path next => do
    match ← (IO.FS.readFile path).toBaseIO with
    | .ok text => perform (next text)
    | .error _ => fail (.file (.inaccessible path))
  | .write path text next => do
    match ← (IO.FS.writeFile path text).toBaseIO with
    | .ok _ => perform next
    | .error _ => fail (.file (.inaccessible path))
  | .print text next => do
    IO.print text
    perform next

def main (args : List String) : IO UInt32 := do
  match Command.ofWords args with
  | .ok c => perform c.script
  | .error .help =>
    IO.print Command.helpText
    pure 0
  | .error .version =>
    IO.print Command.versionText
    pure 0
  | .error .refused =>
    IO.eprint Command.helpText
    pure 2
