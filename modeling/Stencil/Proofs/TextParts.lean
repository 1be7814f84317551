import Stencil.Proofs.Meaning
import Stencil.Proofs.NodeReading

/-! Texts taken apart. However each text of a source is cut into parts, its reader builds the same
nodes around the parts, and nodes say what they said before as long as the parts make up the text.
-/
namespace Stencil.Template

variable (cut : String → List String)

/-- The token of a text becomes one for each part. The places of the parts are not kept. -/
def Token.parts : Token → List Token
  | ⟨.text s, _⟩ => (cut s).map fun part => ⟨.text part, .start⟩
  | t => [t]

def cutTokens (ts : List Token) : List Token := ts.flatMap (Token.parts cut)

mutual

def cutNodes : List Node → List Node
  | [] => []
  | n :: ns => cutNode n ++ cutNodes ns

def cutNode : Node → List Node
  | .text s => (cut s).map .text
  | .output e => [.output e]
  | .loop target iterable body empty =>
    [.loop target iterable (cutNodes body) (cutOptional empty)]
  | .cond branches otherwise => [.cond (cutBranches branches) (cutOptional otherwise)]

def cutBranches : List (Expr × List Node) → List (Expr × List Node)
  | [] => []
  | (condition, body) :: branches => (condition, cutNodes body) :: cutBranches branches

def cutOptional : Option (List Node) → Option (List Node)
  | none => none
  | some ns => some (cutNodes ns)

end

theorem cutTokens_append (ts us : List Token) :
    cutTokens cut (ts ++ us) = cutTokens cut ts ++ cutTokens cut us := List.flatMap_append

theorem cutNodes_append (xs ys : List Node) :
    cutNodes cut (xs ++ ys) = cutNodes cut xs ++ cutNodes cut ys := by
  induction xs with
  | nil => rfl
  | cons x xs ih => rw [List.cons_append, cutNodes, cutNodes, ih, List.append_assoc]

theorem cutBranches_concat (branches : List (Expr × List Node)) (condition : Expr)
    (body : List Node) :
    cutBranches cut (branches ++ [(condition, body)]) =
      cutBranches cut branches ++ [(condition, cutNodes cut body)] := by
  induction branches with
  | nil => rfl
  | cons x branches ih =>
    obtain ⟨first, nodes⟩ := x
    rw [List.cons_append, cutBranches, cutBranches, ih, List.cons_append]

/-! The reader keeps the nodes of a block in reverse, so that their parts stand in reverse too. -/

def cutDone (done : List Node) : List Node := (cutNodes cut done.reverse).reverse

theorem reverse_cutDone (done : List Node) :
    (cutDone cut done).reverse = cutNodes cut done.reverse := List.reverse_reverse _

theorem cutDone_cons (n : Node) (done : List Node) :
    cutDone cut (n :: done) = (cutNode cut n).reverse ++ cutDone cut done := by
  have one : cutNodes cut [n] = cutNode cut n := List.append_nil _
  rw [cutDone, List.reverse_cons, cutNodes_append, one, List.reverse_append]
  rfl

def Frame.parts : Frame → Frame
  | .loopBody pos target iterable => .loopBody pos target iterable
  | .loopEmpty pos target iterable body => .loopEmpty pos target iterable (cutNodes cut body)
  | .condBody pos branches condition => .condBody pos (cutBranches cut branches) condition
  | .condElse pos branches => .condElse pos (cutBranches cut branches)

def cutStack (stack : Stack) : Stack := stack.map fun e => (e.1.parts cut, cutDone cut e.2)

def cutProgress (progress : Progress) : Progress :=
  (cutStack cut progress.1, cutDone cut progress.2)

variable {ts : List Token}

theorem endTag_map (f : Progress → Progress) (progress : Progress) (last : Pos) :
    endTag (f progress) last ts = (endTag progress last ts).map (Parsed.map f) := by
  rw [endTag, endTag]
  cases expect (.closing .block) last ts <;> rfl

/-- A block tag does to the parts what it does to the nodes. -/
theorem readBlock_cut (stack : Stack) (done : List Node) (k : Keyword) (p : Pos) :
    readBlock (cutStack cut stack) (cutDone cut done) k p ts =
      (readBlock stack done k p ts).map (Parsed.map (cutProgress cut)) := by
  have close (progress parts : Progress) (h : cutProgress cut progress = parts) :
      endTag parts p ts = (endTag progress p ts).map (Parsed.map (cutProgress cut)) := by
    subst h
    exact endTag_map (cutProgress cut) progress p
  cases k with
  | for_ =>
    rw [readBlock, readBlock]
    cases readLoop p ts <;> rfl
  | if_ =>
    rw [readBlock, readBlock]
    cases readCondition p ts <;> rfl
  | elif =>
    rcases stack with _ | ⟨⟨frame, before⟩, outer⟩
    · rfl
    · cases frame with
      | condBody at_ branches condition =>
        simp only [cutStack, List.map_cons, Frame.parts, readBlock, reverse_cutDone]
        cases readCondition p ts with
        | error e => rfl
        | ok r =>
          simp only [Except.map, Parsed.map, cutProgress, cutStack, List.map_cons, Frame.parts,
            cutBranches_concat]
          rfl
      | _ => rfl
  | else_ =>
    rcases stack with _ | ⟨⟨frame, before⟩, outer⟩
    · rfl
    · cases frame with
      | loopBody | condBody =>
        apply close
        simp only [cutProgress, cutStack, List.map_cons, Frame.parts, reverse_cutDone,
          cutBranches_concat]
        rfl
      | _ => rfl
  | endfor =>
    rcases stack with _ | ⟨⟨frame, before⟩, outer⟩
    · rfl
    · cases frame with
      | loopBody | loopEmpty =>
        apply close
        simp only [cutProgress, cutDone_cons, cutNode, reverse_cutDone, cutOptional]
        rfl
      | _ => rfl
  | endif =>
    rcases stack with _ | ⟨⟨frame, before⟩, outer⟩
    · rfl
    · cases frame with
      | condBody | condElse =>
        apply close
        simp only [cutProgress, cutDone_cons, cutNode, reverse_cutDone, cutBranches_concat,
          cutOptional]
        rfl
      | _ => rfl
  | _ => cases stack <;> rfl

theorem cutTokens_tag {tag : Tag} {p q : Pos} {inner : List Token}
    (h : ∀ t ∈ inner, t.symbol.inTag) :
    cutTokens cut (⟨.opening tag, p⟩ :: (inner ++ ⟨.closing tag, q⟩ :: ts)) =
      ⟨.opening tag, p⟩ :: (inner ++ ⟨.closing tag, q⟩ :: cutTokens cut ts) := by
  have hi : cutTokens cut inner = inner := by
    rw [cutTokens, List.flatMap_congr (g := fun t => [t]), List.flatMap_singleton']
    intro t ht
    obtain ⟨s, _⟩ := t
    have hs := h _ ht
    cases s with
    | text => cases hs
    | _ => rfl
  have hc (us : List Token) : cutTokens cut (⟨.closing tag, q⟩ :: us) =
      ⟨.closing tag, q⟩ :: cutTokens cut us := rfl
  change _ :: cutTokens cut (inner ++ _) = _
  rw [cutTokens_append, hi, hc]

theorem readNodes_parts (stack : Stack) (done : List Node) (parts : List String) :
    readNodes stack done ((parts.map fun part => ⟨.text part, .start⟩) ++ ts) =
      readNodes stack ((parts.map Node.text).reverse ++ done) ts := by
  induction parts generalizing done with
  | nil => rfl
  | cons part parts ih =>
    rw [List.map_cons, List.cons_append, readNodes, ih, List.map_cons, List.reverse_cons,
      List.append_assoc]
    rfl

/-- The parts of a source are read as the parts of its nodes, or fail as its tokens do. -/
theorem readNodes_cut (h : Stream ts) (stack : Stack) (done : List Node) :
    readNodes (cutStack cut stack) (cutDone cut done) (cutTokens cut ts) =
      (readNodes stack done ts).map (cutNodes cut) := by
  induction h generalizing stack done with
  | nil =>
    cases stack with
    | nil => simp [cutTokens, cutStack, readNodes, reverse_cutDone, Except.map]
    | cons open_ outer =>
      obtain ⟨frame, before⟩ := open_
      cases frame <;>
        simp [cutTokens, cutStack, readNodes, Frame.parts, Frame.block, Frame.pos, Except.map]
  | @text s p ts _ _ ih =>
    have ht : cutTokens cut (⟨.text s, p⟩ :: ts) =
        ((cut s).map fun part => ⟨.text part, .start⟩) ++ cutTokens cut ts := rfl
    rw [readNodes, ← ih, ht, readNodes_parts, cutDone_cons]
    rfl
  | @tag tag p inner q ts hi _ ih =>
    have ht : TagRest (inner ++ [⟨.closing tag, q⟩]) := tagRest_of_inner hi
    have split (rest : List Token) : inner ++ ⟨.closing tag, q⟩ :: rest =
        inner ++ [⟨.closing tag, q⟩] ++ rest := by simp
    rw [cutTokens_tag cut hi, split ts, split (cutTokens cut ts)]
    generalize inner ++ [⟨.closing tag, q⟩] = us at ht
    cases tag with
    | output =>
      rw [readNodes_output _ _ _ ht, readNodes_output _ _ _ ht]
      cases readOutput p us with
      | error e => rfl
      | ok r =>
        dsimp only
        rw [← ih, cutDone_cons]
        rfl
    | block =>
      cases ht with
      | closing tag q => simp [readNodes, Except.map]
      | @cons s q us hs ht =>
        cases s with
        | keyword k =>
          rw [List.cons_append, List.cons_append, readNodes_block _ _ _ _ _ ht,
            readNodes_block _ _ _ _ _ ht, readBlock_cut]
          cases readBlock stack done k q us with
          | error e => rfl
          | ok r => exact ih _ _
        | _ => simp [readNodes, Except.map]

theorem parse_cut (h : Stream ts) : parse (cutTokens cut ts) = (parse ts).map (cutNodes cut) :=
  readNodes_cut cut h [] []

end Stencil.Template

namespace Stencil.Render

open Template (Node Expr cutNodes cutNode cutBranches cutOptional)

variable {cut : String → List String}

theorem meaning_singleton (env : Env) (n : Node) : meaning env [n] = nodeMeaning env n := by
  change (nodeMeaning env n >>= fun s => Except.ok (s ++ "")) = nodeMeaning env n
  cases nodeMeaning env n <;> simp [bind, Except.bind]

theorem meaning_texts (env : Env) (parts : List String) :
    meaning env (parts.map .text) = .ok (String.join parts) := by
  induction parts with
  | nil => rfl
  | cons part parts ih =>
    rw [List.map_cons, meaning, ih, String.join_cons]
    rfl

mutual

/-- Parts that make up their texts mean what the texts mean. -/
theorem meaning_cutNodes (h : ∀ s, String.join (cut s) = s) (env : Env) :
    (ns : List Node) → meaning env (cutNodes cut ns) = meaning env ns
  | [] => rfl
  | n :: ns => by
    rw [cutNodes, meaning_append, meaning_cutNode h env n, meaning_cutNodes h env ns, meaning]

theorem meaning_cutNode (h : ∀ s, String.join (cut s) = s) (env : Env) :
    (n : Node) → meaning env (cutNode cut n) = nodeMeaning env n
  | .text s => by rw [cutNode, meaning_texts, h, nodeMeaning]
  | .output e => meaning_singleton env _
  | .loop target iterable body empty => by
    rw [cutNode, meaning_singleton, nodeMeaning, nodeMeaning]
    simp only [meaning_cutNodes h _ body, meaning_cutOptional h env empty]
  | .cond branches otherwise => by
    rw [cutNode, meaning_singleton, nodeMeaning, nodeMeaning, meaning_cutOptional h env otherwise]
    exact meaning_cutBranches h env _ branches

theorem meaning_cutBranches (h : ∀ s, String.join (cut s) = s) (env : Env)
    (otherwise : Except RenderError String) :
    (branches : List (Expr × List Node)) →
      branchMeaning env otherwise (cutBranches cut branches) =
        branchMeaning env otherwise branches
  | [] => rfl
  | (condition, body) :: branches => by
    rw [cutBranches, branchMeaning, branchMeaning, meaning_cutNodes h env body,
      meaning_cutBranches h env otherwise branches]

theorem meaning_cutOptional (h : ∀ s, String.join (cut s) = s) (env : Env) :
    (nodes : Option (List Node)) →
      optionalMeaning env (cutOptional cut nodes) = optionalMeaning env nodes
  | none => rfl
  | some ns => meaning_cutNodes h env ns

end

end Stencil.Render
