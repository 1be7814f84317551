import Stencil.Command.Help

/-! Commands from the words of a command line: operands, options and the values of options. -/
namespace Stencil.Command

inductive Flag where
  | name
  | email
  | role
  | company
  | output
  | param
  | key
  | value
  | inline
  | verbose
  | help
  | version
  deriving DecidableEq, Repr

namespace Flag

def long : Flag → String
  | name => "name"
  | email => "email"
  | role => "role"
  | company => "company"
  | output => "output"
  | param => "param"
  | key => "key"
  | value => "value"
  | inline => "inline"
  | verbose => "verbose"
  | help => "help"
  | version => "version"

def letter? : Flag → Option Char
  | output => some 'o'
  | param => some 'p'
  | key => some 'k'
  | value => some 'v'
  | help => some 'h'
  | version => some 'V'
  | _ => none

def takesValue : Flag → Bool
  | name | email | role | company | output | param | key | value => true
  | inline | verbose | help | version => false

def isRepeatable : Flag → Bool
  | param => true
  | _ => false

def namesFile : Flag → Bool
  | output => true
  | _ => false

end Flag

inductive Stop where
  | help
  | version
  | refused
  deriving DecidableEq, Repr

inductive Word where
  | operand (text : String)
  | dashes
  | long (name : String) (attached : Option String)
  | short (letters : List Char)
  deriving DecidableEq, Repr

/-- A dash alone is an operand. -/
def Word.ofString (s : String) : Word :=
  match s.toList with
  | ['-', '-'] => dashes
  | '-' :: '-' :: cs =>
    let attached := match cs.dropWhile (· ≠ '=') with
      | _ :: v => some (String.ofList v)
      | [] => none
    long (String.ofList (cs.takeWhile (· ≠ '='))) attached
  | '-' :: c :: cs => short (c :: cs)
  | _ => operand s

/-- What a command takes besides its name. An operand is told by whether it is a path, which must
not be empty. -/
structure Usage where
  operands : List Bool
  flags : List Flag
  deriving DecidableEq, Repr

structure Found where
  operands : List String := []
  flags : List (Flag × String) := []
  deriving DecidableEq, Repr

namespace Found

def has (f : Found) (flag : Flag) : Bool := f.flags.any (·.1 = flag)

def value? (f : Found) (flag : Flag) : Option String := f.flags.lookup flag

def values (f : Found) (flag : Flag) : List String :=
  (f.flags.filter (·.1 = flag)).map Prod.snd

def addFlag (f : Found) (flag : Flag) (v : String) : Except Stop Found :=
  match flag with
  | .help => .error .help
  | .version => .error .version
  | flag =>
    if f.has flag && !flag.isRepeatable then .error .refused
    else if flag.namesFile && v = "" then .error .refused
    else .ok { f with flags := f.flags ++ [(flag, v)] }

def addOperand (u : Usage) (f : Found) (text : String) : Except Stop Found :=
  match u.operands[f.operands.length]? with
  | none => .error .refused
  | some isPath =>
    if isPath && text = "" then .error .refused
    else .ok { f with operands := f.operands ++ [text] }

/-- Adds a long option. Also returns the option if its value is still to come. -/
def addLong (u : Usage) (f : Found) (name : String) (attached : Option String) :
    Except Stop (Option Flag × Found) :=
  match u.flags.find? (·.long = name), attached with
  | none, _ => .error .refused
  | some flag, some v =>
    if flag.takesValue then (none, ·) <$> f.addFlag flag v else .error .refused
  | some flag, none =>
    if flag.takesValue then .ok (some flag, f) else (none, ·) <$> f.addFlag flag ""

/-- Adds short options after one dash. What follows the letter of an option with a value is its
value. -/
def addShort (u : Usage) (f : Found) : List Char → Except Stop (Option Flag × Found)
  | [] => .ok (none, f)
  | c :: cs =>
    match u.flags.find? (·.letter? = some c) with
    | none => .error .refused
    | some flag =>
      if flag.takesValue then
        match cs with
        | [] => .ok (some flag, f)
        | '=' :: v => (none, ·) <$> f.addFlag flag (String.ofList v)
        | v => (none, ·) <$> f.addFlag flag (String.ofList v)
      else do
        let f ← f.addFlag flag ""
        addShort u f cs

/-- Reads the words after the name of a command. `pending` is an option that waits for its value,
which must not look like an option. -/
def readWords (u : Usage) (pending : Option Flag) (f : Found) : List String → Except Stop Found
  | [] => if pending.isSome then .error .refused else .ok f
  | w :: ws =>
    match pending, Word.ofString w with
    | some flag, .operand v => do
      let f ← f.addFlag flag v
      readWords u none f ws
    | some _, _ => .error .refused
    | none, .operand text => do
      let f ← f.addOperand u text
      readWords u none f ws
    | none, .dashes => ws.foldlM (addOperand u) f
    | none, .long name attached => do
      let (pending, f) ← f.addLong u name attached
      readWords u pending f ws
    | none, .short letters => do
      let (pending, f) ← f.addShort u letters
      readWords u pending f ws

end Found

inductive Verb where
  | init
  | list
  | render
  | add
  | remove
  | get
  | merge
  deriving DecidableEq, Repr

namespace Verb

def all : List Verb := [init, list, render, add, remove, get, merge]

def word : Verb → String
  | init => "init"
  | list => "show"
  | render => "render"
  | add => "add"
  | remove => "remove"
  | get => "get"
  | merge => "merge"

def ofWord? (w : String) : Option Verb := all.find? (·.word = w)

def usage : Verb → Usage
  | init => ⟨[true], [.name, .email, .role, .company, .verbose, .help]⟩
  | list => ⟨[true], [.verbose, .help]⟩
  | render => ⟨[false, true], [.output, .param, .inline, .verbose, .help]⟩
  | add => ⟨[true], [.key, .value, .verbose, .help]⟩
  | remove => ⟨[true, false], [.verbose, .help]⟩
  | get => ⟨[true, false], [.verbose, .help]⟩
  | merge => ⟨[true, true], [.verbose, .help]⟩

def command? (v : Verb) (f : Found) : Option Command :=
  match v, f.operands with
  | init, operands =>
    some (.init (operands.head?.getD defaultFile) (f.value? .name) (f.value? .email)
      (f.value? .role) (f.value? .company))
  | list, [file] => some (.list file)
  | render, [template, file] =>
    some (.render template file (f.value? .output) (f.values .param) (f.has .inline))
  | add, [file] => do pure (.add file (← f.value? .key) (← f.value? .value))
  | remove, [file, key] => some (.remove file key)
  | get, [file, key] => some (.get file key)
  | merge, [target, source] => some (.merge target source)
  | _, _ => none

def read (v : Verb) (words : List String) : Except Stop Command := do
  let found ← Found.readWords v.usage none {} words
  match v.command? found with
  | some c => pure c
  | none => .error .refused

end Verb

def generalUsage : Usage := ⟨[], [.verbose, .help, .version]⟩

def helpWord : String := "help"

def readHelp : List String → Stop
  | [] => .help
  | [w] => if w = helpWord || (Verb.ofWord? w).isSome then .help else .refused
  | _ => .refused

def readFrom (f : Found) : List String → Except Stop Command
  | [] => .error .refused
  | w :: ws =>
    match Word.ofString w with
    | .operand text =>
      match Verb.ofWord? text with
      | some v => v.read ws
      | none => .error (if text = helpWord then readHelp ws else .refused)
    | .dashes => .error .refused
    | .long name attached => do
      let (_, f) ← f.addLong generalUsage name attached
      readFrom f ws
    | .short letters => do
      let (_, f) ← f.addShort generalUsage letters
      readFrom f ws

def ofWords (words : List String) : Except Stop Command := readFrom {} words

end Stencil.Command
