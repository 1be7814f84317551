/-! The commands of the command line, and what it prints about itself. -/
namespace Stencil

inductive Command where
  | init (file : String) (name email role company : Option String)
  | list (file : String)
  | render (template file : String) (output : Option String) (params : List String)
    (inline : Bool)
  | add (file key value : String)
  | remove (file key : String)
  | get (file key : String)
  | merge (target source : String)
  deriving DecidableEq, Repr

namespace Command

def defaultFile : String := "params.yaml"

def writes? : Command → Option String
  | init file .. | add file _ _ | remove file _ | merge file _ => some file
  | render _ _ output _ _ => output
  | list _ | get _ _ => none

def versionText : String := "stencil 0.1.0\n"

def helpText : String :=
  "Reusable prompt templates driven by simple YAML parameters\n\n" ++
  "Usage: stencil [--verbose] COMMAND\n\n" ++
  "  init [FILE] [--name TEXT] [--email TEXT] [--role TEXT] [--company TEXT]\n" ++
  "      Create a parameter file\n" ++
  "  show FILE\n" ++
  "      Show all parameters\n" ++
  "  render TEMPLATE FILE [-o OUTPUT] [-p KEY=VALUE]... [--inline]\n" ++
  "      Render a template file, or with --inline a template text\n" ++
  "  add FILE -k KEY -v VALUE\n" ++
  "      Add or replace a parameter; VALUE may be JSON\n" ++
  "  remove FILE KEY\n" ++
  "      Remove a parameter\n" ++
  "  get FILE KEY\n" ++
  "      Print one parameter\n" ++
  "  merge TARGET SOURCE\n" ++
  "      Write the parameters of SOURCE into TARGET\n"

end Command

end Stencil
