import Stencil.Value

/-! Reading JSON text as a value. An integer keeps its value as far as the integers reach and is a
float beyond. A float is its first digits, as many as fit 64 bits, scaled by one or more float
operations. Arrays and objects nest at most 127 deep, and of equal keys the last gives the value and
the first the place. -/
namespace Stencil.Json

/-- The parts of a number. An exponent is a sign, set when it is negative, and digits. -/
structure Numeral where
  negative : Bool
  whole : List Char
  fraction : Option (List Char)
  power : Option (Bool × List Char)
  deriving DecidableEq, Repr

def readWhole : List Char → Option (List Char × List Char)
  | '0' :: rest => if rest.head?.any Char.isDigit then none else some (['0'], rest)
  | cs =>
    if cs.head?.any Char.isDigit then some (cs.takeWhile Char.isDigit, cs.dropWhile Char.isDigit)
    else none

def readFraction : List Char → Option (Option (List Char) × List Char)
  | '.' :: rest =>
    if rest.head?.any Char.isDigit then
      some (some (rest.takeWhile Char.isDigit), rest.dropWhile Char.isDigit)
    else none
  | cs => some (none, cs)

def readSign : List Char → Bool × List Char
  | '-' :: rest => (true, rest)
  | '+' :: rest => (false, rest)
  | cs => (false, cs)

def readPower : List Char → Option (Option (Bool × List Char) × List Char)
  | [] => some (none, [])
  | c :: cs =>
    if c = 'e' || c = 'E' then
      let (negative, rest) := readSign cs
      if rest.head?.any Char.isDigit then
        some (some (negative, rest.takeWhile Char.isDigit), rest.dropWhile Char.isDigit)
      else none
    else some (none, c :: cs)

def readNumeral (cs : List Char) : Option (Numeral × List Char) := do
  let (negative, cs) := match cs with
    | '-' :: rest => (true, rest)
    | _ => (false, cs)
  let (whole, cs) ← readWhole cs
  let (fraction, cs) ← readFraction cs
  let (power, cs) ← readPower cs
  pure (⟨negative, whole, fraction, power⟩, cs)

theorem readWhole_length {cs ds rest : List Char} (h : readWhole cs = some (ds, rest)) :
    rest.length < cs.length := by
  unfold readWhole at h
  split at h
  · split at h <;> simp at h
    obtain ⟨_, rfl⟩ := h
    simp
  · split at h <;> rename_i hd <;> simp at h
    obtain ⟨_, rfl⟩ := h
    cases cs with
    | nil => simp at hd
    | cons c cs =>
      simp only [List.head?_cons, Option.any_some] at hd
      simp only [List.dropWhile_cons, hd, if_true, List.length_cons]
      exact Nat.lt_succ_of_le (List.dropWhile_sublist _).length_le

theorem readFraction_length {cs : List Char} {f : Option (List Char)} {rest : List Char}
    (h : readFraction cs = some (f, rest)) : rest.length ≤ cs.length := by
  unfold readFraction at h
  split at h
  · split at h <;> simp at h
    obtain ⟨_, rfl⟩ := h
    exact Nat.le_succ_of_le (List.dropWhile_sublist _).length_le
  · simp at h
    simp [h.2]

theorem readSign_length (cs : List Char) : (readSign cs).2.length ≤ cs.length := by
  unfold readSign
  split <;> simp

theorem readPower_length {cs : List Char} {p : Option (Bool × List Char)} {rest : List Char}
    (h : readPower cs = some (p, rest)) : rest.length ≤ cs.length := by
  unfold readPower at h
  split at h
  · simp at h
    simp [h.2]
  · rename_i c cs
    split at h
    · simp only at h
      split at h <;> simp at h
      obtain ⟨_, rfl⟩ := h
      have := readSign_length cs
      have := (List.dropWhile_sublist (l := (readSign cs).2) Char.isDigit).length_le
      simp only [List.length_cons]
      omega
    · simp at h
      simp [← h.2]

theorem readNumeral_length {cs : List Char} {m : Numeral} {rest : List Char}
    (h : readNumeral cs = some (m, rest)) : rest.length < cs.length := by
  simp only [readNumeral, Option.bind_eq_bind, Option.bind_eq_some_iff, Option.pure_def,
    Option.some.injEq, Prod.mk.injEq] at h
  obtain ⟨⟨w, r₁⟩, h₁, ⟨f, r₂⟩, h₂, ⟨p, r₃⟩, h₃, _, rfl⟩ := h
  have h₁ := readWhole_length h₁
  have h₂ := readFraction_length h₂
  have h₃ := readPower_length h₃
  split at h₁ <;> simp only [List.length_cons] at * <;> omega

/-- Appends digits to `n` while it fits 64 bits; also counts the digits left over. -/
def appendDigits (n : Nat) : List Char → Nat × Nat
  | [] => (n, 0)
  | d :: ds =>
    let next := n * 10 + (d.toNat - '0'.toNat)
    if next < UInt64.size then appendDigits next ds else (n, ds.length + 1)

def tenTo (n : Nat) : Float := Decimal.toFloat ⟨1, n⟩

/-- Divides by `10 ^ n`, by `1e308` at a time. -/
def divideByTenTo (x : Float) (n : Nat) : Float :=
  if n ≤ 308 then x / tenTo n
  else if x == 0.0 then x
  else divideByTenTo (x / tenTo 308) (n - 308)
termination_by n

def scale (significand : Nat) (exponent : Int) : Option Float :=
  let x := Float.ofNat significand
  if exponent < 0 then some (divideByTenTo x exponent.natAbs)
  else if 308 < exponent then if x == 0.0 then some x else none
  else
    let y := x * tenTo exponent.toNat
    if y.isInf then none else some y

namespace Numeral

def ofInteger (negative : Bool) (n : Nat) : Value :=
  if negative then if n = 0 then .float (-0.0) else .ofInt (-n) else .ofInt n

/-- The value of a numeral; none if it is too large for a float. An exponent beyond 32 bits is
zero or too large at once. -/
def value? (m : Numeral) : Option Value :=
  let sign (x : Float) : Value := .float (if m.negative then -x else x)
  let (n, skipped) := appendDigits 0 m.whole
  match m.fraction, m.power with
  | none, none =>
    if skipped = 0 then some (ofInteger m.negative n) else (scale n skipped).map sign
  | fraction, power =>
    let ds := fraction.getD []
    let (n, left) := appendDigits n ds
    let exponent : Int := skipped - (ds.length - left : Nat)
    match power with
    | none => (scale n exponent).map sign
    | some (down, es) =>
      let e := Nat.ofDigitChars 10 es 0
      if Int32.maxValue.toInt < e then if n ≠ 0 && !down then none else some (sign 0.0)
      else (scale n (if down then exponent - e else exponent + e)).map sign

end Numeral

structure Read (α : Type) (cs : List Char) where
  value : α
  rest : List Char
  shorter : rest.length < cs.length

def isBlank (c : Char) : Bool := c = ' ' || c = '\t' || c = '\n' || c = '\r'

def skipBlanks (cs : List Char) : List Char := cs.dropWhile isBlank

theorem skipBlanks_length (cs : List Char) : (skipBlanks cs).length ≤ cs.length :=
  (List.dropWhile_sublist isBlank).length_le

def readHex : List Char → Option (Nat × List Char)
  | a :: b :: c :: d :: rest => do
    let digit (c : Char) : Option Nat :=
      if c.isDigit then some (c.toNat - '0'.toNat)
      else if 'a' ≤ c ∧ c ≤ 'f' then some (c.toNat - 'a'.toNat + 10)
      else if 'A' ≤ c ∧ c ≤ 'F' then some (c.toNat - 'A'.toNat + 10)
      else none
    let n := ((← digit a) * 16 + (← digit b)) * 256 + (← digit c) * 16 + (← digit d)
    pure (n, rest)
  | _ => none

/-- The character of a `\u` escape. Above the basic plane it takes two escapes, a high surrogate
and a low one; a surrogate without its partner is refused. -/
def readUnicode (cs : List Char) : Option (Char × List Char) := do
  let (n, rest) ← readHex cs
  if 0xD800 ≤ n ∧ n < 0xDC00 then
    match rest with
    | '\\' :: 'u' :: more =>
      let (m, rest) ← readHex more
      if 0xDC00 ≤ m ∧ m < 0xE000 then
        pure (Char.ofNat (0x10000 + (n - 0xD800) * 0x400 + (m - 0xDC00)), rest)
      else none
    | _ => none
  else if 0xDC00 ≤ n ∧ n < 0xE000 then none
  else pure (Char.ofNat n, rest)

def readEscape : List Char → Option (Char × List Char)
  | '"' :: rest => some ('"', rest)
  | '\\' :: rest => some ('\\', rest)
  | '/' :: rest => some ('/', rest)
  | 'b' :: rest => some ('\x08', rest)
  | 'f' :: rest => some ('\x0c', rest)
  | 'n' :: rest => some ('\n', rest)
  | 'r' :: rest => some ('\r', rest)
  | 't' :: rest => some ('\t', rest)
  | 'u' :: rest => readUnicode rest
  | _ => none

theorem readHex_length {cs : List Char} {n : Nat} {rest : List Char}
    (h : readHex cs = some (n, rest)) : rest.length < cs.length := by
  match cs with
  | a :: b :: c :: d :: r =>
    simp only [readHex, Option.bind_eq_bind, Option.bind_eq_some_iff, Option.pure_def,
      Option.some.injEq, Prod.mk.injEq] at h
    obtain ⟨_, _, _, _, _, _, _, _, _, rfl⟩ := h
    simp only [List.length_cons]
    omega

theorem readUnicode_length {cs : List Char} {c : Char} {rest : List Char}
    (h : readUnicode cs = some (c, rest)) : rest.length < cs.length := by
  simp only [readUnicode, Option.bind_eq_bind, Option.bind_eq_some_iff] at h
  obtain ⟨⟨n, r⟩, hn, h⟩ := h
  have hr := readHex_length hn
  simp only at h
  split at h
  · split at h
    · simp only [Option.bind_eq_some_iff] at h
      obtain ⟨⟨m, r'⟩, hm, h⟩ := h
      have := readHex_length hm
      simp only [List.length_cons] at hr
      split at h <;> simp at h
      obtain ⟨_, rfl⟩ := h
      omega
    · simp at h
  · split at h <;> simp at h
    obtain ⟨_, rfl⟩ := h
    exact hr

theorem readEscape_length {cs : List Char} {c : Char} {rest : List Char}
    (h : readEscape cs = some (c, rest)) : rest.length < cs.length := by
  unfold readEscape at h
  split at h
  case h_9 =>
    exact Nat.lt_succ_of_lt (readUnicode_length h)
  case h_10 => simp at h
  all_goals
    simp at h
    obtain ⟨_, rfl⟩ := h
    simp

def readString (cs : List Char) : Option (Read (List Char) cs) :=
  match cs with
  | [] => none
  | '"' :: rest => some ⟨[], rest, by simp⟩
  | '\\' :: rest =>
    match h : readEscape rest with
    | none => none
    | some (c, more) =>
      have hm : more.length < rest.length := readEscape_length h
      match readString more with
      | none => none
      | some r =>
        some ⟨c :: r.value, r.rest, by have := r.shorter; simp only [List.length_cons]; omega⟩
  | c :: rest =>
    if c.toNat < 0x20 then none
    else
      match readString rest with
      | none => none
      | some r =>
        some ⟨c :: r.value, r.rest, by have := r.shorter; simp only [List.length_cons]; omega⟩
termination_by cs.length
decreasing_by all_goals simp only [List.length_cons]; omega

def readItems (item : (cs : List Char) → Option (Read Value cs)) (cs : List Char) :
    Option (Read (List Value) cs) :=
  match item cs with
  | none => none
  | some v =>
    have hv := v.shorter
    have hs := skipBlanks_length v.rest
    match h : skipBlanks v.rest with
    | ']' :: rest => some ⟨[v.value], rest, by simp [h] at hs; omega⟩
    | ',' :: rest =>
      have hr : rest.length < cs.length := by simp [h] at hs; omega
      match readItems item rest with
      | none => none
      | some r => some ⟨v.value :: r.value, r.rest, by have := r.shorter; omega⟩
    | _ => none
termination_by cs.length

def readMember (item : (cs : List Char) → Option (Read Value cs)) (cs : List Char) :
    Option (Read (String × Value) cs) :=
  have hs := skipBlanks_length cs
  match h : skipBlanks cs with
  | '"' :: rest =>
    match readString rest with
    | none => none
    | some name =>
      have hn := name.shorter
      have hc := skipBlanks_length name.rest
      match hk : skipBlanks name.rest with
      | ':' :: more =>
        match item more with
        | none => none
        | some v =>
          some ⟨(String.ofList name.value, v.value), v.rest, by
            have := v.shorter; simp [h] at hs; simp [hk] at hc; omega⟩
      | _ => none
  | _ => none

def readMembers (item : (cs : List Char) → Option (Read Value cs)) (cs : List Char) :
    Option (Read (List (String × Value)) cs) :=
  match readMember item cs with
  | none => none
  | some m =>
    have hm := m.shorter
    have hs := skipBlanks_length m.rest
    match h : skipBlanks m.rest with
    | '}' :: rest => some ⟨[m.value], rest, by simp [h] at hs; omega⟩
    | ',' :: rest =>
      have hr : rest.length < cs.length := by simp [h] at hs; omega
      match readMembers item rest with
      | none => none
      | some r => some ⟨m.value :: r.value, r.rest, by have := r.shorter; omega⟩
    | _ => none
termination_by cs.length

/-- A value with at most `depth` arrays and objects inside each other. -/
def readValue (depth : Nat) (cs : List Char) : Option (Read Value cs) :=
  have hs := skipBlanks_length cs
  match h : skipBlanks cs with
  | 'n' :: 'u' :: 'l' :: 'l' :: rest => some ⟨.null, rest, by simp [h] at hs; omega⟩
  | 't' :: 'r' :: 'u' :: 'e' :: rest => some ⟨.bool true, rest, by simp [h] at hs; omega⟩
  | 'f' :: 'a' :: 'l' :: 's' :: 'e' :: rest => some ⟨.bool false, rest, by simp [h] at hs; omega⟩
  | '"' :: rest =>
    match readString rest with
    | none => none
    | some r =>
      some ⟨.string (String.ofList r.value), r.rest, by
        have := r.shorter; simp [h] at hs; omega⟩
  | '[' :: rest =>
    match depth with
    | 0 => none
    | depth + 1 =>
      have hc := skipBlanks_length rest
      match hb : skipBlanks rest with
      | ']' :: more => some ⟨.seq [], more, by simp [h] at hs; simp [hb] at hc; omega⟩
      | _ =>
        match readItems (readValue depth) rest with
        | none => none
        | some r => some ⟨.seq r.value, r.rest, by have := r.shorter; simp [h] at hs; omega⟩
  | '{' :: rest =>
    match depth with
    | 0 => none
    | depth + 1 =>
      have hc := skipBlanks_length rest
      match hb : skipBlanks rest with
      | '}' :: more => some ⟨.map [], more, by simp [h] at hs; simp [hb] at hc; omega⟩
      | _ =>
        match readMembers (readValue depth) rest with
        | none => none
        | some r =>
          some ⟨.map (Entries.ofList r.value), r.rest, by
            have := r.shorter; simp [h] at hs; omega⟩
  | other =>
    match hn : readNumeral other with
    | none => none
    | some (m, rest) =>
      match m.value? with
      | none => none
      | some v => some ⟨v, rest, by have := readNumeral_length hn; rw [h] at hs; omega⟩
termination_by structural depth

def nestingLimit : Nat := 127

def read? (s : String) : Option Value :=
  match readValue nestingLimit s.toList with
  | none => none
  | some r => if skipBlanks r.rest = [] then some r.value else none

end Stencil.Json
