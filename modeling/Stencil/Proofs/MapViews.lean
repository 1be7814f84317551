import Stencil.Proofs.LoopVariables
import Stencil.Proofs.PathPrefixes

/-! What a template can tell of a map: its views, a loop over it, its length, the names in it and
what they lead to. All of these tell the same entries in the same order, as long as no name is
written twice. -/
namespace Stencil

namespace Entries

variable {α : Type}

def values (m : Entries α) : List α := m.map Prod.snd

theorem length_keys (m : Entries α) : m.keys.length = m.length := List.length_map _

theorem length_values (m : Entries α) : m.values.length = m.length := List.length_map _

end Entries

namespace Template

def Path.view (p : Path) (method : Method) : Path := p.further [.method method]

inductive Segment.Reads : Segment → String → Prop where
  | key (name : String) : Reads (.key name) name
  | index (n : Int64) : Reads (.index n) (Value.intText n)

end Template

namespace Render

open Template (Node Expr Path Segment Method Target)

/-- A loop over the expression has a round for each of `n` items. This number is what `loop.length`
tells in all of them and what the filter `length` tells of the expression. -/
structure GoesThrough (scope : Scope) (e : Expr) (items : List Value) (n : Nat) : Prop where
  number : items.length = n
  rounds : ∀ out target body empty, renderNode scope out (.loop target e body empty) =
    if items = [] then renderOptional scope out empty
    else items.zipIdx.foldlM (fun out (item, i) => do
      let frame ← roundFrame target item i n
      renderNodes (scope.push frame) out body) out
  told : ∀ target item i frame, roundFrame target item i n = .ok frame →
    resolve (scope.push frame).lookup ⟨"loop", [.key "length"]⟩ = .ok (.ofNat n)
  counted : eval scope.lookup (.filter e ⟨"length", []⟩) = .ok (.ofNat n)

def entryFrame (k v : String) (e : String × Value) (i length : Nat) : Frame :=
  Entries.insert (Entries.ofList [(k, .string e.1), (v, e.2)]) "loop" (loopInfo i length)

/-- Two names stand for a name of the map and its value. The first is in the map, and a lookup of
what it stands for leads to what the second stands for and to nothing else. -/
structure ShowsEntry (env : Env) (k v : String) (m : Entries Value) (e : String × Value) :
    Prop where
  name : resolve env ⟨k, []⟩ = .ok (.string e.1)
  value : resolve env ⟨v, []⟩ = .ok e.2
  occurs : ∀ haystack, eval env haystack = .ok (.map m) →
    eval env (.contains (.path ⟨k, []⟩) haystack false) = .ok (.bool true)
  leads : ∀ q s w, resolve env q = .ok (.map m) → s.Reads e.1 →
    (resolve env (q.further [s]) = .ok w ↔ w = e.2)

variable {env : Env} {scope : Scope} {p : Path} {m : Entries Value}

theorem resolve_view (hp : resolve env p = .ok (.map m)) (method : Method) :
    resolve env (p.view method) = .ok (view method m) := by
  rw [Path.view, resolve_further, hp]
  rfl

theorem view_keys (m : Entries Value) : view .keys m = .seq (m.keys.map .string) := by
  rw [view, Entries.keys, List.map_map]
  rfl

/-- The items pair the names with the values. -/
theorem view_items (m : Entries Value) : view .items m =
    .seq (List.zipWith (fun name v => .seq [name, v]) (m.keys.map .string) m.values) := by
  rw [view, Entries.keys, Entries.values, List.map_map, List.zipWith_map, List.zipWith_self]
  rfl

theorem length_map_keys (m : Entries Value) : (m.keys.map Value.string).length = m.length := by
  rw [List.length_map, m.length_keys]

theorem length_of_iterate {v : Value} {items : List Value} (h : iterate v = .ok items) :
    length v = .ok (.ofNat items.length) := by
  cases v with
  | seq xs =>
    cases h
    rfl
  | map m =>
    cases h
    rw [length, length_map_keys]
  | _ => cases h

/-- In a round `loop` tells how many there are. -/
theorem resolve_loop_length {target : Target} {item : Value} {i length : Nat}
    {frame : Frame} (h : roundFrame target item i length = .ok frame) (scope : Scope) :
    resolve (scope.push frame).lookup ⟨"loop", [.key "length"]⟩ = .ok (.ofNat length) := by
  obtain ⟨env, henv⟩ := lookup_roundFrame h scope
  rw [resolve, henv, Env.inRound, Env.bind, if_pos rfl]
  rfl

theorem goesThrough {e : Expr} {v : Value} {items : List Value} {n : Nat}
    (hv : eval scope.lookup e = .ok v) (hi : iterate v = .ok items) (hn : items.length = n) :
    GoesThrough scope e items n := by
  subst hn
  constructor
  case number => rfl
  case rounds =>
    intro out target body empty
    split
    · rename_i he
      rw [renderNode, hv]
      change (iterate v >>= _) = _
      rw [hi, he]
      rfl
    · rename_i he
      exact renderNode_loop hv hi he out target body empty
  case told => exact fun target item i frame h => resolve_loop_length h scope
  case counted =>
    rw [eval, hv]
    exact length_of_iterate hi

theorem goesThrough_view {method : Method} {items : List Value}
    (hp : resolve scope.lookup p = .ok (.map m)) (hv : view method m = .seq items)
    (hn : items.length = m.length) : GoesThrough scope (.path (p.view method)) items m.length := by
  have he : eval scope.lookup (.path (p.view method)) = .ok (.seq items) :=
    (resolve_view hp method).trans (congrArg Except.ok hv)
  exact goesThrough he rfl hn

/-- To be in a map is to be one of its names. -/
theorem eval_contains_map {needle haystack : Expr} {name : String}
    (hn : eval env needle = .ok (.string name)) (hh : eval env haystack = .ok (.map m))
    (negated : Bool) : eval env (.contains needle haystack negated) =
      .ok (.bool (decide (name ∈ m.keys) != negated)) := by
  have hc : Entries.contains m name = decide (name ∈ m.keys) := by
    rw [Bool.eq_iff_iff, Entries.contains_iff, decide_eq_true_iff]
  rw [eval, hn, hh, ← hc]
  rfl

/-- A lookup of a name leads to the value of its entry, if there is one. -/
theorem resolve_name (hd : m.Distinct) (hp : resolve env p = .ok (.map m)) {s : Segment}
    {name : String} (hs : s.Reads name) {v : Value} :
    resolve env (p.further [s]) = .ok v ↔ (name, v) ∈ m := by
  have hf : resolve env (p.further [s]) = .ok v ↔ Entries.get? m name = some v := by
    have hstep : step (.map m) s = .ok (Entries.get? m name) := by
      cases hs <;> rfl
    rw [resolve_further, hp]
    change follow p (.map m) [s] = .ok v ↔ _
    rw [follow, hstep]
    cases Entries.get? m name with
    | none => simp
    | some w => simp [follow]
  rw [hf, hd.get?_eq_some]

theorem roundFrame_entry (k v : String) (e : String × Value) (i length : Nat) :
    roundFrame (.unpack [k, v]) (.seq [.string e.1, e.2]) i length =
      .ok (entryFrame k v e i length) := rfl

/-- A loop over the items with two names has a round for each entry, which binds both. -/
theorem renderNode_entries (hp : resolve scope.lookup p = .ok (.map m)) (out : String)
    (k v : String) (body : List Node) (empty : Option (List Node)) :
    renderNode scope out (.loop (.unpack [k, v]) (.path (p.view .items)) body empty) =
      if m = [] then renderOptional scope out empty
      else m.zipIdx.foldlM (fun out (e, i) =>
        renderNodes (scope.push (entryFrame k v e i m.length)) out body) out := by
  have hv : eval scope.lookup (.path (p.view .items)) = .ok (view .items m) :=
    resolve_view hp .items
  rw [(goesThrough hv rfl (List.length_map _)).rounds]
  simp only [List.map_eq_nil_iff, List.zipIdx_map, List.foldlM_map]
  rfl

theorem lookup_entryFrame {k v : String} (hkv : k ≠ v) (hk : k ≠ "loop") (hv : v ≠ "loop")
    (scope : Scope) (e : String × Value) (i length : Nat) :
    (scope.push (entryFrame k v e i length)).lookup k = some (.string e.1) ∧
      (scope.push (entryFrame k v e i length)).lookup v = some e.2 := by
  have hd : (Target.unpack [k, v]).names.Nodup := by
    simpa [Target.names] using hkv
  have hf := roundFrame_entry k v e i length
  have hgk := get?_roundFrame hd hf (.part (j := 0) rfl rfl rfl) hk
  have hgv := get?_roundFrame hd hf (.part (j := 1) rfl rfl rfl) hv
  rw [lookup_push, Frame.over, Frame.over, hgk, hgv]
  exact ⟨rfl, rfl⟩

theorem showsEntry (hd : m.Distinct) {e : String × Value} (he : e ∈ m) {k v : String}
    (hk : env k = some (.string e.1)) (hv : env v = some e.2) : ShowsEntry env k v m e where
  name := by
    rw [resolve, hk]
    rfl
  value := by
    rw [resolve, hv]
    rfl
  occurs haystack hh := by
    have hn : eval env (.path ⟨k, []⟩) = .ok (.string e.1) := by
      rw [eval, resolve, hk]
      rfl
    have hm : e.1 ∈ m.keys := List.mem_map_of_mem he
    rw [eval_contains_map hn hh, decide_eq_true hm]
    rfl
  leads q s w hq hs := by
    rw [resolve_name hd hq hs, ← hd.get?_eq_some, hd.get?_eq_some.2 he, Option.some_inj, eq_comm]

/-- The map is still where it was, unless the loop gave a name of its own to its root. -/
theorem resolve_in_round (hp : resolve scope.lookup p = .ok (.map m)) {k v : String}
    (hk : p.root ≠ k) (hv : p.root ≠ v) (hl : p.root ≠ "loop") (e : String × Value)
    (i length : Nat) :
    resolve (scope.push (entryFrame k v e i length)).lookup p = .ok (.map m) := by
  have hroot : p.root ∉ (Target.unpack [k, v]).names := by
    simp [Target.names, hk, hv]
  have hg := get?_roundFrame_none (roundFrame_entry k v e i length) hroot hl
  rw [← hp, resolve, resolve, lookup_push, Frame.over, hg, Option.none_or]

/-- What the views of a map, loops over them, their lengths, the names in the map and its lookups
tell of it in a scope in which a path leads to it. To go through the map itself is to go through its
keys, no item fails to be unpacked, no two rounds show the same name, and the map stays in sight in
a round if its path does not start from a name of the loop. -/
structure ViewsAgree (scope : Scope) (p : Path) (m : Entries Value) : Prop where
  keys : resolve scope.lookup (p.view .keys) = .ok (.seq (m.keys.map .string))
  values : resolve scope.lookup (p.view .values) = .ok (.seq m.values)
  items : resolve scope.lookup (p.view .items) = .ok (.seq
    (List.zipWith (fun name v => .seq [name, v]) (m.keys.map .string) m.values))
  overKeys : GoesThrough scope (.path (p.view .keys)) (m.keys.map .string) m.length
  overValues : GoesThrough scope (.path (p.view .values)) m.values m.length
  overItems : GoesThrough scope (.path (p.view .items))
    (List.zipWith (fun name v => .seq [name, v]) (m.keys.map .string) m.values) m.length
  overMap : ∀ e, eval scope.lookup e = .ok (.map m) →
    GoesThrough scope e (m.keys.map .string) m.length
  unpacked : ∀ out k v body empty,
    renderNode scope out (.loop (.unpack [k, v]) (.path (p.view .items)) body empty) =
      if m = [] then renderOptional scope out empty
      else m.zipIdx.foldlM (fun out (e, i) =>
        renderNodes (scope.push (entryFrame k v e i m.length)) out body) out
  shown : ∀ k v, k ≠ v → k ≠ "loop" → v ≠ "loop" → ∀ i e, m[i]? = some e →
    ShowsEntry (scope.push (entryFrame k v e i m.length)).lookup k v m e
  kept : ∀ k v, p.root ≠ k → p.root ≠ v → p.root ≠ "loop" → ∀ i e,
    resolve (scope.push (entryFrame k v e i m.length)).lookup p = .ok (.map m)
  differ : ∀ (i j : Nat) (e e' : String × Value), m[i]? = some e → m[j]? = some e' → i ≠ j →
    e.1 ≠ e'.1
  member : ∀ needle haystack name negated, eval scope.lookup needle = .ok (.string name) →
    eval scope.lookup haystack = .ok (.map m) →
    eval scope.lookup (.contains needle haystack negated) =
      .ok (.bool (decide (name ∈ m.keys) != negated))
  leads : ∀ s name v, s.Reads name →
    (resolve scope.lookup (p.further [s]) = .ok v ↔ (name, v) ∈ m)

/-- In every scope all that a template can tell of a map agrees. -/
theorem map_views_agree (hp : resolve scope.lookup p = .ok (.map m)) (hd : m.Distinct) :
    ViewsAgree scope p m where
  keys := by rw [resolve_view hp, view_keys]
  values := resolve_view hp .values
  items := by rw [resolve_view hp, view_items]
  overKeys := goesThrough_view hp (view_keys m) (length_map_keys m)
  overValues := goesThrough_view hp rfl m.length_values
  overItems := by
    refine goesThrough_view hp (view_items m) ?_
    rw [List.length_zipWith, length_map_keys, m.length_values, Nat.min_self]
  overMap e he := goesThrough he rfl (length_map_keys m)
  unpacked out k v body empty := renderNode_entries hp out k v body empty
  shown k v hkv hk hv i e he := by
    obtain ⟨hlk, hlv⟩ := lookup_entryFrame hkv hk hv scope e i m.length
    exact showsEntry hd (List.mem_of_getElem? he) hlk hlv
  kept k v hk hv hl i e := resolve_in_round hp hk hv hl e i m.length
  differ i j e e' hi hj hij he := by
    have hlt : i < m.keys.length := m.length_keys ▸ (List.getElem?_eq_some_iff.1 hi).1
    have hk : m.keys[i]? = m.keys[j]? := by
      rw [Entries.keys, List.getElem?_map, List.getElem?_map, hi, hj, Option.map_some,
        Option.map_some, he]
    exact hij ((List.getElem?_inj hlt hd).1 hk)
  member needle haystack name negated hn hh := eval_contains_map hn hh negated
  leads s name v hs := resolve_name hd hp hs

/-- Of a map under a key of a parameter. The loop over its items gives the second name to the
values, which is also the name of a key, and shows that the first leads to them. -/
theorem map_views_agree_nested :
    let m : Entries Value := [("v", .string "x"), ("3", .string "y")]
    let scope : Scope := .ofParams [("cfg", .map [("opts", .map m)])]
    let p : Path := ⟨"cfg", [.key "opts"]⟩
    let body : List Node := [.output (.path ⟨"k", []⟩), .output (.path ⟨"v", []⟩),
      .output (.path ⟨"loop", [.key "length"]⟩),
      .cond [(.contains (.path ⟨"k", []⟩) (.path p) false, [.text ";"])] none]
    resolve scope.lookup p = .ok (.map m) ∧ m.Distinct ∧
    resolve scope.lookup (p.view .keys) = .ok (.seq [.string "v", .string "3"]) ∧
    renderNode scope "" (.loop (.unpack ["k", "v"]) (.path (p.view .items)) body none) =
      .ok "vx2;3y2;" ∧
    ShowsEntry (scope.push (entryFrame "k" "v" ("3", .string "y") 1 2)).lookup "k" "v" m
      ("3", .string "y") ∧
    resolve scope.lookup (p.further [.index 3]) = .ok (.string "y") ∧
    eval scope.lookup (.contains (.literal (.string "x")) (.path p) false) =
      .ok (.bool false) := by
  intro m scope p body
  have hp : resolve scope.lookup p = .ok (.map m) := rfl
  have hd : m.Distinct := by decide
  have h := map_views_agree hp hd
  have hshown := h.shown "k" "v" (by decide) (by decide) (by decide) 1 _ rfl
  have hreads : Segment.Reads (.index 3) "3" := .index 3
  have hleads := (h.leads (.index 3) "3" (.string "y") hreads).2 (by simp [m])
  have hmember := h.member (.literal (.string "x")) (.path p) "x" false rfl hp
  exact ⟨hp, hd, h.keys, (h.unpacked "" "k" "v" body none).trans (by cbv), hshown, hleads,
    hmember⟩

end Render
end Stencil
