import Stencil.Render.Nodes

/-! A store of named parameters, the directory of files that it and templates come from, everything
that can go wrong, and rendering with the parameters of a store. -/
namespace Stencil

/-- Why a file is of no use. It is inaccessible also when it does not hold text. -/
inductive FileError where
  | inaccessible (path : String)
  | malformed (path : String)
  | notMapping (path : String)
  | unnamable (path : String) (kind : Kind)
  deriving DecidableEq, Repr

def FileError.message : FileError → String
  | inaccessible path => "cannot access `" ++ path ++ "`"
  | malformed path => "invalid YAML in `" ++ path ++ "`"
  | notMapping path =>
    "`" ++ path ++ "` must contain a mapping of parameters at its top level"
  | unnamable path kind =>
    "`" ++ path ++ "` uses a " ++ kind.name ++ " as a parameter name; names must be scalars"

inductive Error where
  | parse (e : Template.ParseError)
  | render (e : Render.RenderError)
  | file (e : FileError)
  | invalidParam (text : String)
  deriving DecidableEq, Repr

def Error.message : Error → String
  | parse e => e.text
  | render e => e.message
  | file e => e.message
  | invalidParam text => "parameter must be in key=value format: " ++ text

abbrev Files := String → Option ByteArray

def Files.text? (files : Files) (path : String) : Option String := files path >>= String.fromUTF8?

structure Directory where
  files : Entries ByteArray

namespace Directory

def empty : Directory := ⟨[]⟩

/-- Whether a path to a directory, with its last slash, leads back to this one. `within` says that
something of the path came before. -/
def isHere (within : Bool) : List Char → Bool
  | [] => true
  | '.' :: '/' :: cs => isHere true cs
  | '/' :: cs => within && isHere true cs
  | _ => false

/-- A file name has a place for 255 bytes. -/
def isName (name : String) : Bool :=
  name ≠ "" && name ≠ "." && name ≠ ".." && name.utf8ByteSize ≤ 255 && !name.toList.contains '\x00'

def name? (path : String) : Option String :=
  let cs := path.toList.reverse
  let name := String.ofList (cs.takeWhile (· ≠ '/')).reverse
  if isHere false (cs.dropWhile (· ≠ '/')).reverse && isName name then some name else none

def read? (d : Directory) : Files := fun path => name? path >>= Entries.get? d.files

def write? (d : Directory) (path : String) (contents : ByteArray) : Option Directory :=
  (name? path).map fun name => ⟨Entries.insert d.files name contents⟩

end Directory

structure Store where
  params : Entries Value := []
  deriving Repr, Inhabited

namespace Store

def empty : Store := ⟨[]⟩

def size (s : Store) : Nat := s.params.length

def isEmpty (s : Store) : Bool := s.params.isEmpty

def get? (s : Store) (key : String) : Option Value := Entries.get? s.params key

def contains (s : Store) (key : String) : Bool := Entries.contains s.params key

def set (s : Store) (key : String) (v : Value) : Store := ⟨Entries.insert s.params key v⟩

def remove (s : Store) (key : String) : Option Value × Store :=
  (s.get? key, ⟨Entries.erase s.params key⟩)

/-- Sets all of `other` and returns how many of the names are new. -/
def merge (s : Store) (other : Entries Value) : Nat × Store :=
  let merged : Store := ⟨Entries.merge s.params other⟩
  (merged.size - s.size, merged)

def context (s : Store) (overrides : Entries Value) : Entries Value :=
  Entries.merge s.params overrides

def render (s : Store) (source : String) (overrides : Entries Value) : Except Error String :=
  match Template.ofSource {} source with
  | .error e => .error (.parse e)
  | .ok t =>
    match t.render (s.context overrides) with
    | .error e => .error (.render e)
    | .ok out => .ok out

def renderFile (s : Store) (files : Files) (path : String) (overrides : Entries Value) :
    Except Error String :=
  match files.text? path with
  | none => .error (.file (.inaccessible path))
  | some source => s.render source overrides

end Store

end Stencil
