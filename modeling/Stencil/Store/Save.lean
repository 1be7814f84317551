import Stencil.Store.Render
import Stencil.Yaml.Write

/-! Parameter files as they are written. -/
namespace Stencil.Store

/-- The entries under a header. Of an empty store only the header is written. -/
def fileText (s : Store) (header : String) : String :=
  header ++ if s.isEmpty then "" else Yaml.text s.params

def savedHeader (path : String) : String :=
  "# paramforge parameters\n# File: " ++ path ++ "\n\n"

def savedText (s : Store) (path : String) (comments : Bool) : String :=
  s.fileText (if comments then savedHeader path else "")

def starter : Store := ⟨[
  ("name", .string "Your Name"), ("email", .string "your.email@example.com"),
  ("role", .string "Your Role"), ("company", .string "Your Company"),
  ("address", .string "Your Address")]⟩

def starterHeader (path : String) : String :=
  "# paramforge parameters\n# Created: " ++ path ++
    "\n# Edit this file to add your own parameters\n\n"

def starterText (path : String) : String := starter.fileText (starterHeader path)

end Stencil.Store

namespace Stencil.Directory

def writeText (d : Directory) (path text : String) : Except FileError Directory :=
  match d.write? path text.toUTF8 with
  | some d => .ok d
  | none => .error (.inaccessible path)

def save (d : Directory) (s : Store) (path : String) (comments : Bool) :
    Except FileError Directory :=
  d.writeText path (s.savedText path comments)

def createStarter (d : Directory) (path : String) : Except FileError Directory :=
  d.writeText path (Store.starterText path)

end Stencil.Directory
