import Stencil.Store.Render
import Stencil.Unicode.Property
import Stencil.Value
import Stencil.Yaml.Document

/-! Parameters from a file. Its document is a mapping, or holds nothing. -/
namespace Stencil.Store

def keyName (v : Value) : Except Kind String :=
  match v.outputText? with
  | some name => .ok name
  | none => .error v.kind

mutual

/-- The value of a document without its tags, or the kind of the first collection used as a key. -/
def valueOf : Yaml.Document → Except Kind Value
  | .null => .ok .null
  | .bool b => .ok (.bool b)
  | .int n => .ok (.ofInt n)
  | .float x => .ok (.float x)
  | .string s => .ok (.string s)
  | .sequence items => .seq <$> valuesOf items
  | .mapping entries => .map <$> entriesOf [] entries
  | .tagged _ d => valueOf d

def valuesOf : List Yaml.Document → Except Kind (List Value)
  | [] => .ok []
  | d :: ds => do
    let v ← valueOf d
    let vs ← valuesOf ds
    pure (v :: vs)

def entriesOf (done : Entries Value) :
    List (Yaml.Document × Yaml.Document) → Except Kind (Entries Value)
  | [] => .ok done
  | (k, d) :: es => do
    let name ← keyName (← valueOf k)
    let v ← valueOf d
    entriesOf (Entries.insert done name v) es

end

/-- Whether every line is empty or a comment. `comment` says that the line has begun one. -/
def isBlank (comment : Bool) : List Char → Bool
  | [] => true
  | c :: cs =>
    if c = '\n' then isBlank false cs
    else if comment || c = '#' then isBlank true cs
    else Unicode.isSpace c && isBlank false cs

def readParams (path text : String) : Except FileError (Entries Value) :=
  if isBlank false text.toList then .ok []
  else
    match Yaml.Document.ofSource? text with
    | none => .error (.malformed path)
    | some d =>
      match valueOf d with
      | .error kind => .error (.unnamable path kind)
      | .ok (.map params) => .ok params
      | .ok .null => .ok []
      | .ok _ => .error (.notMapping path)

def loadParams (files : Files) (path : String) : Except FileError (Entries Value) :=
  match files.text? path with
  | none => .error (.inaccessible path)
  | some text => readParams path text

def load (files : Files) (path : String) : Except FileError Store :=
  Store.mk <$> loadParams files path

def mergeFile (s : Store) (files : Files) (path : String) : Except FileError (Nat × Store) :=
  s.merge <$> loadParams files path

end Stencil.Store
