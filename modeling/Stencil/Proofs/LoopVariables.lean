import Stencil.Proofs.LoopRounds
import Stencil.Proofs.Substitution

/-! The names of a loop in its body. In each round they stand for the item or for its parts, except
that `loop` is no name for a loop to give: it tells the round. -/
namespace Stencil.Template

inductive Target.Takes : Target → Value → Prop where
  | single (name : String) (item : Value) : Takes (.single name) item
  | unpack {names : List String} {parts : List Value} :
      parts.length = names.length → Takes (.unpack names) (.seq parts)

end Stencil.Template

namespace Stencil.Render

open Template (Node Expr Path Target substitute mentioned)

/-- What a name of a loop stands for in the round of an item: the item itself, or the part of it at
the place that the name has among the names. -/
inductive StandsFor : Target → Value → String → Value → Prop where
  | item (name : String) (item : Value) : StandsFor (.single name) item name item
  | part {names : List String} {parts : List Value} {j : Nat} {name : String} {v : Value} :
      parts.length = names.length → names[j]? = some name → parts[j]? = some v →
      StandsFor (.unpack names) (.seq parts) name v

variable {target : Target} {item : Value} {i length : Nat} {frame : Frame} {name : String}
  {v : Value}

/-- A round has a frame if there is one name, or as many names as the item has parts. -/
theorem roundFrame_of_takes (h : target.Takes item) (i length : Nat) :
    ∃ frame, roundFrame target item i length = .ok frame := by
  cases h with
  | single name item => exact ⟨_, rfl⟩
  | unpack hl => exact ⟨_, by simp only [roundFrame, bindTarget, if_pos hl]; rfl⟩

/-- Otherwise the item cannot be unpacked. -/
theorem roundFrame_of_not_takes (h : ¬ target.Takes item) (i length : Nat) :
    ∃ operand, roundFrame target item i length =
      .error (.typeError (.unpacking target.names.length) operand) := by
  cases target with
  | single name => exact absurd (.single name item) h
  | unpack names =>
    cases item with
    | seq parts =>
      have hl : parts.length ≠ names.length := fun hl => h (.unpack hl)
      exact ⟨.sequenceOf parts.length, by simp only [roundFrame, bindTarget, if_neg hl]; rfl⟩
    | _ => exact ⟨_, rfl⟩

theorem takes_of_roundFrame (h : roundFrame target item i length = .ok frame) :
    target.Takes item := by
  by_contra hn
  obtain ⟨operand, he⟩ := roundFrame_of_not_takes hn i length
  rw [he] at h
  cases h

/-- Every name of the loop stands for something then. -/
theorem exists_standsFor (h : target.Takes item) (hn : name ∈ target.names) :
    ∃ v, StandsFor target item name v := by
  cases h with
  | single only item =>
    obtain rfl := List.mem_singleton.1 hn
    exact ⟨item, .item name item⟩
  | @unpack names parts hl =>
    obtain ⟨j, hj⟩ := List.mem_iff_getElem?.1 hn
    have hlt : j < parts.length := hl ▸ (List.getElem?_eq_some_iff.1 hj).1
    exact ⟨parts[j], .part hl hj (List.getElem?_eq_getElem hlt)⟩

/-- Different names keep what they are given, whichever are given before and after. -/
theorem get?_zip {names : List String} (hd : names.Nodup) {parts : List Value}
    (hl : parts.length = names.length) {j : Nat} (hn : names[j]? = some name)
    (hv : parts[j]? = some v) : Entries.get? (Entries.ofList (names.zip parts)) name = some v := by
  have hkeys : Entries.keys (names.zip parts) = names := List.map_fst_zip hl.ge
  have hdz : Entries.Distinct (names.zip parts) := by
    rw [Entries.Distinct, hkeys]
    exact hd
  have hmem : (name, v) ∈ names.zip parts :=
    List.mem_of_getElem? (List.getElem?_zip_eq_some.2 ⟨hn, hv⟩)
  have hz : Entries.ofList (names.zip parts) = names.zip parts := Entries.merge_new hdz
  rw [hz]
  exact hdz.get?_eq_some.2 hmem

/-- The frame of a round holds what the names of the loop stand for. -/
theorem get?_roundFrame (hd : target.names.Nodup) (h : roundFrame target item i length = .ok frame)
    (hs : StandsFor target item name v) (hn : name ≠ "loop") :
    Entries.get? frame name = some v := by
  obtain ⟨f, hb, rfl⟩ := roundFrame_ok h
  rw [Entries.get?_insert, if_neg hn]
  cases hs with
  | item =>
    cases hb
    simp [Entries.get?]
  | part hl hj hv =>
    simp only [bindTarget, if_pos hl] at hb
    cases hb
    exact get?_zip hd hl hj hv

theorem get?_merge_of_not_mem {f : Frame} {pairs : List (String × Value)}
    (h : name ∉ pairs.map Prod.fst) :
    Entries.get? (Entries.merge f pairs) name = Entries.get? f name := by
  induction pairs generalizing f with
  | nil => rfl
  | cons p pairs ih =>
    rw [List.map_cons, List.mem_cons, not_or] at h
    have hm := ih (f := Entries.insert f p.1 p.2) h.2
    rwa [Entries.get?_insert, if_neg h.1] at hm

/-- It holds nothing else but `loop`. -/
theorem get?_roundFrame_none (h : roundFrame target item i length = .ok frame)
    (ht : name ∉ target.names) (hn : name ≠ "loop") : Entries.get? frame name = none := by
  obtain ⟨f, hb, rfl⟩ := roundFrame_ok h
  rw [Entries.get?_insert, if_neg hn]
  cases takes_of_roundFrame h with
  | single only item =>
    cases hb
    have hne : name ≠ only := fun he => ht (List.mem_singleton.2 he)
    simp [Entries.get?, Ne.symm hne]
  | unpack hl =>
    simp only [bindTarget, if_pos hl] at hb
    cases hb
    rw [Entries.ofList, get?_merge_of_not_mem]
    · rfl
    · rwa [List.map_fst_zip hl.ge]

def inPlaceOf (name : String) (v : Value) (p : Path) : Expr :=
  if p = ⟨name, []⟩ then .literal v else .path p

theorem eval_inPlaceOf {env : Env} (h : env name = some v) (p : Path) :
    resolve env p = eval env (inPlaceOf name v p) := by
  rw [inPlaceOf]
  split
  · rename_i hp
    rw [hp, resolve, h]
    rfl
  · rfl

/-- At the level at which a name has a value, the value may be written in its place. -/
theorem renderNodes_inPlaceOf {scope : Scope} (h : scope.lookup name = some v) (out : String)
    (ns : List Node) :
    renderNodes scope out ns =
      renderNodes scope out (substitute (inPlaceOf name v) (fun _ => false) ns) := by
  have hc : Carries (fun _ x y => x = y) (inPlaceOf name v) (fun _ => false) (mentioned ns)
      fun s s' => s' = s ∧ s.lookup name = some v := {
    path := by
      rintro s _ p ⟨rfl, hs⟩ _
      exact eval_inPlaceOf hs p
    enter := nofun
    leave := by
      rintro s _ target item i length frame body ⟨rfl, _⟩ _ _ _ out
      rfl }
  exact renderNodes_substitute stepwise_eq hc ⟨rfl, h⟩ out ns (List.Subset.refl _)

/-- A loop whose names differ renders its body once for each item. An item that cannot be unpacked
is a type error; in the round of any other, each name of the loop but `loop` leads to what it stands
for, and on from there: at the loop's own level of the body the value might as well be written in
its place. -/
theorem loop_variables_visible {scope : Scope} {iterable : Expr} {items : List Value}
    (hd : target.names.Nodup) (hv : eval scope.lookup iterable = .ok v)
    (hi : iterate v = .ok items) (hn : items ≠ []) (body : List Node)
    (empty : Option (List Node)) :
    (∀ out, renderNode scope out (.loop target iterable body empty) =
      items.zipIdx.foldlM (fun out (item, i) => do
        let frame ← roundFrame target item i items.length
        renderNodes (scope.push frame) out body) out) ∧
    ∀ i item, items[i]? = some item →
      (¬ target.Takes item → ∃ operand, roundFrame target item i items.length =
        .error (.typeError (.unpacking target.names.length) operand)) ∧
      (target.Takes item → ∃ frame, roundFrame target item i items.length = .ok frame ∧
        (∀ name ∈ target.names, ∃ part, StandsFor target item name part) ∧
        ∀ name part, StandsFor target item name part → name ≠ "loop" →
          (∀ segments, resolve (scope.push frame).lookup ⟨name, segments⟩ =
            follow ⟨name, []⟩ part segments) ∧
          ∀ out, renderNodes (scope.push frame) out body =
            renderNodes (scope.push frame) out
              (substitute (inPlaceOf name part) (fun _ => false) body)) := by
  refine ⟨fun out => renderNode_loop hv hi hn out target body empty, ?_⟩
  intro i item _
  refine ⟨fun ht => roundFrame_of_not_takes ht i items.length, fun ht => ?_⟩
  obtain ⟨frame, hf⟩ := roundFrame_of_takes ht i items.length
  refine ⟨frame, hf, fun name hname => exists_standsFor ht hname, ?_⟩
  intro name part hs hname
  have hl : (scope.push frame).lookup name = some part := by
    rw [lookup_push, Frame.over, get?_roundFrame hd hf hs hname]
    rfl
  refine ⟨fun segments => ?_, fun out => renderNodes_inPlaceOf hl out body⟩
  rw [resolve, hl]

/-- The second of two names leads into the second part, though a parameter is called like it and the
first name is one that no loop can give. -/
theorem loop_variables_visible_part :
    let item : Value := .seq [.int 1, .map [("k", .string "b")]]
    let scope : Scope := .ofParams [("x", .null), ("xs", .seq [item])]
    let target : Target := .unpack ["loop", "x"]
    let body : List Node := [.output (.path ⟨"x", [.key "k"]⟩)]
    target.names.Nodup ∧ eval scope.lookup (.path ⟨"xs", []⟩) = .ok (.seq [item]) ∧
    iterate (.seq [item]) = .ok [item] ∧ [item] ≠ [] ∧ target.Takes item ∧
    StandsFor target item "x" (.map [("k", .string "b")]) ∧
    renderNode scope "" (.loop target (.path ⟨"xs", []⟩) body none) = .ok "b" ∧
    ∃ frame, roundFrame target item 0 1 = .ok frame ∧
      resolve (scope.push frame).lookup ⟨"x", [.key "k"]⟩ = .ok (.string "b") := by
  intro item scope target body
  have hd : target.names.Nodup := by decide
  have hv : eval scope.lookup (.path ⟨"xs", []⟩) = .ok (.seq [item]) := rfl
  have hn : [item] ≠ [] := List.cons_ne_nil _ _
  have ht : target.Takes item := .unpack rfl
  have hs : StandsFor target item "x" (.map [("k", .string "b")]) := .part (j := 1) rfl rfl rfl
  obtain ⟨hfold, hround⟩ := loop_variables_visible hd hv rfl hn body none
  obtain ⟨frame, hf, -, hnames⟩ := (hround 0 item rfl).2 ht
  have hx := (hnames "x" _ hs (by decide)).1 [.key "k"]
  exact ⟨hd, hv, rfl, hn, ht, hs, (hfold "").trans (by cbv), frame, hf, hx.trans rfl⟩

/-- The parser takes `loop` for the name of a loop, but in its body the name stands for the round
and not for the item. -/
theorem loop_hides_item :
    let source := "\x7b% for loop in xs %\x7d\x7b\x7b loop \x7d\x7d\x7b% endfor %\x7d"
    let body : List Node := [.output (.path ⟨"loop", []⟩)]
    let nodes : List Node := [.loop (.single "loop") (.path ⟨"xs", []⟩) body none]
    let scope : Scope := .ofParams [("xs", .seq [.string "a"])]
    Template.ofSource ⟨true, true⟩ source = .ok ⟨nodes⟩ ∧
    (Target.single "loop").names.Nodup ∧
    StandsFor (.single "loop") (.string "a") "loop" (.string "a") ∧
    Template.render ⟨nodes⟩ [("xs", .seq [.string "a"])] =
      .error (.typeError .output (.value .mapping)) ∧
    ∃ frame, roundFrame (.single "loop") (.string "a") 0 1 = .ok frame ∧
      resolve (scope.push frame).lookup ⟨"loop", []⟩ = .ok (loopInfo 0 1) ∧
      resolve (scope.push frame).lookup ⟨"loop", []⟩ ≠ .ok (.string "a") := by
  intro source body nodes scope
  have ht : Template.tokenize ⟨true, true⟩ source = .ok [⟨.opening .block, ⟨1, 1⟩⟩,
      ⟨.keyword .for_, ⟨1, 4⟩⟩, ⟨.word "loop", ⟨1, 8⟩⟩, ⟨.keyword .in_, ⟨1, 13⟩⟩,
      ⟨.word "xs", ⟨1, 16⟩⟩, ⟨.closing .block, ⟨1, 19⟩⟩, ⟨.opening .output, ⟨1, 21⟩⟩,
      ⟨.word "loop", ⟨1, 24⟩⟩, ⟨.closing .output, ⟨1, 29⟩⟩, ⟨.opening .block, ⟨1, 31⟩⟩,
      ⟨.keyword .endfor, ⟨1, 34⟩⟩, ⟨.closing .block, ⟨1, 41⟩⟩] := by
    decide +kernel
  refine ⟨?_, List.nodup_singleton _, .item _ _, by cbv, _, rfl, rfl, nofun⟩
  rw [Template.ofSource, ht]
  cbv

end Stencil.Render
