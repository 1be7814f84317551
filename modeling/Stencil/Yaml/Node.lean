import Stencil.Yaml.Scan

/-! The tree of nodes that a list of tokens stands for. -/
namespace Stencil.Yaml

structure Props where
  anchor : Option String
  tag : Option Tag
  deriving DecidableEq, Repr

/-- A node, whose aliases point to what they repeat by an `α`. -/
inductive Node (α : Type) where
  | aliasTo (target : α)
  | scalar (props : Props) (text : String) (plain : Bool)
  | sequence (props : Props) (items : List (Node α))
  | mapping (props : Props) (entries : List (Node α × Node α))
  deriving Repr

namespace Node

variable {α : Type}

def empty : Node α := .scalar ⟨none, none⟩ "" true

mutual

/-- The number of steps in which a node is spelled: one for a text or an alias, and one for each
end of a collection. -/
def steps : Node α → Nat
  | aliasTo _ => 1
  | scalar .. => 1
  | sequence _ items => 2 + itemSteps items
  | mapping _ entries => 2 + entrySteps entries

def itemSteps : List (Node α) → Nat
  | [] => 0
  | n :: ns => steps n + itemSteps ns

def entrySteps : List (Node α × Node α) → Nat
  | [] => 0
  | (k, v) :: es => steps k + steps v + entrySteps es

end
end Node

abbrev Handles := List (String × Tag)

def defaultHandles : Handles := [("!", [Tag.bang]), ("!!", Tag.coreStem)]

structure Parsed (α : Type) (ts : List Token) where
  value : α
  rest : List Token
  shorter : rest.length < ts.length

def Parsed.within {α : Type} {ts us : List Token} (r : Parsed α us) (h : us.length ≤ ts.length) :
    Parsed α ts :=
  ⟨r.value, r.rest, Nat.lt_of_lt_of_le r.shorter h⟩

def Parsed.map {α β : Type} {ts : List Token} (f : α → β) (r : Parsed α ts) : Parsed β ts :=
  ⟨f r.value, r.rest, r.shorter⟩

def fullTag (handles : Handles) (handle : String) (suffix : Tag) : Option Tag :=
  if handle = "" then some suffix else (handles.lookup handle).map (· ++ suffix)

def readProps (handles : Handles) (ts : List Token) : Option (Parsed Props ts) :=
  match ts with
  | .anchor a :: .tag handle suffix :: rest =>
    (fullTag handles handle suffix).map fun tag =>
      ⟨⟨some a, some tag⟩, rest, by simp only [List.length_cons]; omega⟩
  | .tag handle suffix :: .anchor a :: rest =>
    (fullTag handles handle suffix).map fun tag =>
      ⟨⟨some a, some tag⟩, rest, by simp only [List.length_cons]; omega⟩
  | .anchor a :: rest => some ⟨⟨some a, none⟩, rest, Nat.lt_succ_self _⟩
  | .tag handle suffix :: rest =>
    (fullTag handles handle suffix).map fun tag => ⟨⟨none, some tag⟩, rest, Nat.lt_succ_self _⟩
  | _ => none

def startsContent (block indentless : Bool) : List Token → Bool
  | .scalar .. :: _ | .flowSequence :: _ | .flowMapping :: _ => true
  | .blockSequence :: _ | .blockMapping :: _ => block
  | .item :: _ => indentless
  | _ => false

def skipComma (first : Bool) (ts : List Token) :
    Option { us : List Token // us.length ≤ ts.length } :=
  if first then some ⟨ts, Nat.le_refl _⟩
  else
    match ts with
    | .comma :: rest => some ⟨rest, Nat.le_succ _⟩
    | _ => none

mutual

/-- A node. `block` admits block collections, and `indentless` a sequence whose dashes stand at the
column of the key before it. -/
def readNode (handles : Handles) (block indentless : Bool) (ts : List Token) :
    Option (Parsed (Node String) ts) :=
  match ts with
  | .aliasTo name :: rest => some ⟨.aliasTo name, rest, Nat.lt_succ_self _⟩
  | .anchor a :: rest => readTagged handles block indentless (.anchor a) rest
  | .tag handle suffix :: rest => readTagged handles block indentless (.tag handle suffix) rest
  | ts => readContent handles block indentless ⟨none, none⟩ ts
termination_by 6 * ts.length + 2

def readTagged (handles : Handles) (block indentless : Bool) (t : Token) (ts : List Token) :
    Option (Parsed (Node String) (t :: ts)) :=
  match readProps handles (t :: ts) with
  | none => none
  | some props =>
    have hp : props.rest.length < ts.length + 1 := props.shorter
    if startsContent block indentless props.rest then
      match readContent handles block indentless props.value props.rest with
      | none => none
      | some r => some (r.within (Nat.le_of_lt hp))
    else some (props.map (.scalar · "" true))
termination_by 6 * (ts.length + 1) + 1

def readContent (handles : Handles) (block indentless : Bool) (props : Props) (ts : List Token) :
    Option (Parsed (Node String) ts) :=
  match ts with
  | .scalar text plain :: rest =>
    some ⟨.scalar props text plain, rest, Nat.lt_succ_self _⟩
  | .flowSequence :: rest =>
    match readFlowItems handles true rest with
    | none => none
    | some r => some ((r.map (.sequence props)).within (Nat.le_succ _))
  | .flowMapping :: rest =>
    match readFlowEntries handles true rest with
    | none => none
    | some r => some ((r.map (.mapping props)).within (Nat.le_succ _))
  | .item :: rest =>
    if indentless then
      match readIndentless handles rest with
      | none => none
      | some r => some (r.map (.sequence props))
    else none
  | .blockSequence :: rest =>
    if block then
      match readItems handles rest with
      | none => none
      | some r => some ((r.map (.sequence props)).within (Nat.le_succ _))
    else none
  | .blockMapping :: rest =>
    if block then
      match readEntries handles rest with
      | none => none
      | some r => some ((r.map (.mapping props)).within (Nat.le_succ _))
    else none
  | _ => none
termination_by 6 * ts.length + 0

def readAfter (handles : Handles) (block indentless : Bool) (ends : List Token) (t : Token)
    (ts : List Token) : Option (Parsed (Node String) (t :: ts)) :=
  if ts.head?.any ends.contains then some ⟨.empty, ts, Nat.lt_succ_self _⟩
  else
    match readNode handles block indentless ts with
    | none => none
    | some n => some (n.within (Nat.le_succ _))
termination_by 6 * ts.length + 3

def readValue {ts : List Token} (handles : Handles) (block : Bool) (ends : List Token)
    (k : Parsed (Node String) ts) : Option (Parsed (Node String × Node String) ts) :=
  have hk := k.shorter
  match h : k.rest with
  | .value :: rest =>
    have : rest.length < k.rest.length := by rw [h]; exact Nat.lt_succ_self _
    match readAfter handles block block ends .value rest with
    | none => none
    | some v =>
      some ((v.map (k.value, ·)).within (by rw [h] at hk; exact Nat.le_of_lt hk))
  | _ => some (k.map (·, .empty))
termination_by 6 * k.rest.length

def readItems (handles : Handles) (ts : List Token) : Option (Parsed (List (Node String)) ts) :=
  match ts with
  | .blockEnd :: rest => some ⟨[], rest, Nat.lt_succ_self _⟩
  | .item :: rest =>
    match readAfter handles true false [.item, .blockEnd] .item rest with
    | none => none
    | some n =>
      have hn := Nat.le_of_lt_succ n.shorter
      match readItems handles n.rest with
      | none => none
      | some r => some ((r.map (n.value :: ·)).within (Nat.le_succ_of_le hn))
  | _ => none
termination_by 6 * ts.length + 0

/-- The items of a sequence after its first dash, as long as dashes follow. -/
def readIndentless (handles : Handles) (ts : List Token) :
    Option (Parsed (List (Node String)) (.item :: ts)) :=
  match readAfter handles true false [.item, .key, .value, .blockEnd] .item ts with
  | none => none
  | some n =>
    have hn := n.shorter
    match h : n.rest with
    | .item :: rest =>
      have hr : rest.length < ts.length := by
        rw [h] at hn; simp only [List.length_cons] at hn; omega
      match readIndentless handles rest with
      | none => none
      | some r =>
        some ((r.map (n.value :: ·)).within (by simp only [List.length_cons]; omega))
    | _ => some (n.map ([·]))
termination_by 6 * ts.length + 4

def readEntry (handles : Handles) (block : Bool) (keyEnds valueEnds : List Token)
    (ts : List Token) : Option (Parsed (Node String × Node String) (.key :: ts)) :=
  match readAfter handles block block keyEnds .key ts with
  | none => none
  | some k =>
    have := Nat.le_of_lt_succ k.shorter
    readValue handles block valueEnds k
termination_by 6 * ts.length + 4

def readEntries (handles : Handles) (ts : List Token) :
    Option (Parsed (List (Node String × Node String)) ts) :=
  match ts with
  | .blockEnd :: rest => some ⟨[], rest, Nat.lt_succ_self _⟩
  | .key :: rest =>
    match readEntry handles true [.key, .value, .blockEnd] [.key, .value, .blockEnd] rest with
    | none => none
    | some e =>
      have he := Nat.le_of_lt_succ e.shorter
      match readEntries handles e.rest with
      | none => none
      | some r => some ((r.map (e.value :: ·)).within (Nat.le_succ_of_le he))
  | _ => none
termination_by 6 * ts.length + 0

/-- The items of a flow sequence up to its bracket. An item may be a single entry of a mapping. -/
def readFlowItems (handles : Handles) (first : Bool) (ts : List Token) :
    Option (Parsed (List (Node String)) ts) :=
  match ts with
  | .flowSequenceEnd :: rest => some ⟨[], rest, Nat.lt_succ_self _⟩
  | ts =>
    match skipComma first ts with
    | none => none
    | some us =>
      match us.val, us.property with
      | .flowSequenceEnd :: rest, h => some ⟨[], rest, h⟩
      | .key :: rest, h =>
        have : rest.length < ts.length := h
        match readPair handles rest with
        | none => none
        | some n =>
          have hn := Nat.lt_of_lt_of_le n.shorter h
          match readFlowItems handles false n.rest with
          | none => none
          | some r => some ((r.map (n.value :: ·)).within (Nat.le_of_lt hn))
      | us, h =>
        match readNode handles false false us with
        | none => none
        | some n =>
          have hn := Nat.lt_of_lt_of_le n.shorter h
          match readFlowItems handles false n.rest with
          | none => none
          | some r => some ((r.map (n.value :: ·)).within (Nat.le_of_lt hn))
termination_by 6 * ts.length + 5

/-- A mapping of one entry after its key indicator. An empty key takes the next token with it. -/
def readPair (handles : Handles) (ts : List Token) : Option (Parsed (Node String) (.key :: ts)) :=
  let single (e : Node String × Node String) : Node String := .mapping ⟨none, none⟩ [e]
  match ts with
  | .value :: rest | .comma :: rest | .flowSequenceEnd :: rest =>
    match readValue handles false [.comma, .flowSequenceEnd]
        ⟨.empty, rest, by simp only [List.length_cons]; omega⟩ with
    | none => none
    | some e => some (e.map single)
  | ts =>
    match readNode handles false false ts with
    | none => none
    | some k =>
      have := k.shorter
      match readValue handles false [.comma, .flowSequenceEnd] k with
      | none => none
      | some e => some ((e.map single).within (Nat.le_succ _))
termination_by 6 * ts.length + 4

/-- The entries of a flow mapping up to its brace. A node without a key indicator is a key without
a value. -/
def readFlowEntries (handles : Handles) (first : Bool) (ts : List Token) :
    Option (Parsed (List (Node String × Node String)) ts) :=
  match ts with
  | .flowMappingEnd :: rest => some ⟨[], rest, Nat.lt_succ_self _⟩
  | ts =>
    match skipComma first ts with
    | none => none
    | some us =>
      match us.val, us.property with
      | .flowMappingEnd :: rest, h => some ⟨[], rest, h⟩
      | .key :: rest, h =>
        have : rest.length < ts.length := h
        match readEntry handles false [.value, .comma, .flowMappingEnd] [.comma, .flowMappingEnd]
            rest with
        | none => none
        | some e =>
          have he := Nat.lt_of_lt_of_le e.shorter h
          match readFlowEntries handles false e.rest with
          | none => none
          | some r => some ((r.map (e.value :: ·)).within (Nat.le_of_lt he))
      | us, h =>
        match readNode handles false false us with
        | none => none
        | some k =>
          have hk := Nat.lt_of_lt_of_le k.shorter h
          match readFlowEntries handles false k.rest with
          | none => none
          | some r => some ((r.map ((k.value, .empty) :: ·)).within (Nat.le_of_lt hk))
termination_by 6 * ts.length + 5

end

end Stencil.Yaml
