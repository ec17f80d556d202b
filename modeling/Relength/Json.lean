import Relength.Binary64
import Relength.Text

/-!
# Reading JSON

The readers take what is left of the text and return a value with what they leave. They read strictly from left
to right, so of two faults the first in the text is reported. A text that ends too early is told apart from one
that goes wrong.

A value that nobody asks for is read with less care (`strict` is false): its escapes may be lone surrogates and
its numbers too large, and it may be nested to any depth.
-/

namespace Relength.Json

inductive Fault where
  /-- This is not JSON. -/
  | syntactic
  /-- The text ended too early. -/
  | ended
  /-- This is JSON, but not what was asked for. -/
  | mismatch
  deriving DecidableEq, Repr

/-- A number: a natural number below `2 ^ 64`, or any other as floating point. -/
inductive Number where
  | natural (n : Nat)
  | real (x : Binary64)
  deriving DecidableEq, Repr

inductive Value where
  | null
  | bool (b : Bool)
  | number (n : Number)
  | string (s : Text)
  | array (items : List Value)
  | object (members : List (Text × Value))

def isSpace (c : Char) : Bool := c == ' ' || c == '\n' || c == '\t' || c == '\r'

def skipSpace (s : Text) : Text := s.dropWhile isSpace

/-- What is left behind a fixed word. -/
def skipWord : Text → Text → Except Fault Text
  | [], s => .ok s
  | _ :: _, [] => .error .ended
  | d :: word, c :: r => if c = d then skipWord word r else .error .syntactic

/-! ## Strings -/

/-- The bytes of a text in UTF-8. -/
def byteSize (s : Text) : Nat := (s.map fun c => c.utf8Size).foldl (· + ·) 0

/-- Four hexadecimal digits. The text has ended if it has fewer than four bytes, whatever they are. -/
def hexUnit (s : Text) : Except Fault (Nat × Text) :=
  if byteSize (s.take 4) < 4 then .error .ended
  else if 4 ≤ s.length ∧ (s.take 4).all Text.isHexDigit then .ok (Text.hexValue (s.take 4), s.drop 4)
  else .error .syntactic

theorem hexUnit_length_lt {s r : Text} {n : Nat} (h : hexUnit s = .ok (n, r)) : r.length < s.length := by
  unfold hexUnit at h
  split at h
  · cases h
  · split at h
    · next hs => cases h; simp; omega
    · cases h

/-- The escape of a code unit, behind its `\u`. A high surrogate must be followed by the escape of a low one. -/
def unicodeEscape (strict : Bool) (s : Text) : Except Fault (Char × Text) :=
  match hexUnit s with
  | .error f => .error f
  | .ok (n, r) =>
    if !strict then .ok (Char.ofNat n, r)
    else if 0xDC00 ≤ n ∧ n ≤ 0xDFFF then .error .syntactic
    else if n < 0xD800 ∨ 0xDBFF < n then .ok (Char.ofNat n, r)
    else
      match r with
      | [] => .error .ended
      | ['\\'] => .error .ended
      | '\\' :: 'u' :: r' =>
        match hexUnit r' with
        | .error f => .error f
        | .ok (m, r'') =>
          if 0xDC00 ≤ m ∧ m ≤ 0xDFFF then
            .ok (Char.ofNat (0x10000 + (n - 0xD800) * 0x400 + (m - 0xDC00)), r'')
          else .error .syntactic
      | _ => .error .syntactic

/-- The character behind a backslash. -/
def escape (strict : Bool) : Text → Except Fault (Char × Text)
  | [] => .error .ended
  | c :: r =>
    if c == '"' || c == '\\' || c == '/' then .ok (c, r)
    else if c == 'b' then .ok ('\x08', r)
    else if c == 'f' then .ok ('\x0c', r)
    else if c == 'n' then .ok ('\n', r)
    else if c == 'r' then .ok ('\r', r)
    else if c == 't' then .ok ('\t', r)
    else if c == 'u' then unicodeEscape strict r
    else .error .syntactic

theorem unicodeEscape_length_lt {strict : Bool} {s r : Text} {c : Char}
    (h : unicodeEscape strict s = .ok (c, r)) : r.length < s.length := by
  unfold unicodeEscape at h
  split at h
  · cases h
  · next n r₁ h₁ =>
    have l₁ := hexUnit_length_lt h₁
    split at h
    · cases h; exact l₁
    · split at h
      · cases h
      · split at h
        · cases h; exact l₁
        · split at h
          · cases h
          · cases h
          · split at h
            · cases h
            · next r₂ m r₃ h₂ =>
              have l₂ := hexUnit_length_lt h₂
              split at h
              · simp only [Except.ok.injEq, Prod.mk.injEq] at h
                obtain ⟨-, rfl⟩ := h
                simp only [List.length_cons] at l₁
                omega
              · cases h
          · cases h

theorem escape_length_lt {strict : Bool} {s r : Text} {c : Char} (h : escape strict s = .ok (c, r)) :
    r.length < s.length := by
  unfold escape at h
  repeat' split at h
  all_goals first
    | contradiction
    | exact Nat.lt_succ_of_lt (unicodeEscape_length_lt h)
    | (cases h; simp)

/-- A string from behind its opening quote. -/
def string (strict : Bool) : Text → Except Fault (Text × Text)
  | [] => .error .ended
  | c :: r =>
    if c == '"' then .ok ([], r)
    else if c == '\\' then
      match _h : escape strict r with
      | .error f => .error f
      | .ok (d, r') => (string strict r').map fun p => (d :: p.1, p.2)
    else if c.toNat < 0x20 then .error .syntactic
    else (string strict r).map fun p => (c :: p.1, p.2)
termination_by s => s.length
decreasing_by
  · have := escape_length_lt _h
    simp only [List.length_cons]
    omega
  · simp

/-! ## Numbers -/

/-- The digits read so far, as long as they fit into 64 bits, and how many of them there are behind `count`. -/
def significand (n count : Nat) : Text → Nat × Nat × Text
  | [] => (n, count, [])
  | c :: r =>
    let next := n * 10 + (c.toNat - 48)
    if c.isDigit && next < Nat.pow 2 64 then significand next (count + 1) r else (n, count, c :: r)

/-- A power of ten with an exponent from 0 to 308. -/
def powerOfTen (e : Nat) : Binary64 := Binary64.ofNat (Nat.pow 10 e)

/-- `x * 10 ^ e`, first in steps of `10 ^ (-308)`, each rounded. The result must be finite. -/
def scaled (x : Binary64) (e : Int) : Except Fault Binary64 :=
  if 308 < e then (if x.isZero then .ok x else .error .syntactic)
  else if 0 ≤ e then
    let y := x * powerOfTen e.toNat
    if y.isFinite then .ok y else .error .syntactic
  else if -308 ≤ e then .ok (x / powerOfTen (-e).toNat)
  else if x.isZero then .ok x
  else scaled (x / powerOfTen 308) (e + 308)
termination_by (-e).toNat

def signed (negative : Bool) (x : Binary64) : Binary64 := if negative then -x else x

def real (negative : Bool) (n : Nat) (e : Int) (rest : Text) : Except Fault (Number × Text) :=
  (scaled (Binary64.ofNat n) e).map fun x => (.real (signed negative x), rest)

/-- An exponent from behind its `e`. One beyond 31 bits stands for infinity, which is out of range, or zero. -/
def exponent (negative : Bool) (n : Nat) (e : Int) (s : Text) : Except Fault (Number × Text) :=
  let (minus, s) :=
    match s with
    | '-' :: r => (true, r)
    | '+' :: r => (false, r)
    | r => (false, r)
  match s with
  | [] => .error .ended
  | c :: _ =>
    if !c.isDigit then .error .syntactic
    else
      let size := Text.decimalValue (s.takeWhile Char.isDigit)
      let rest := s.dropWhile Char.isDigit
      if Nat.pow 2 31 ≤ size then
        if n != 0 && !minus then .error .syntactic else .ok (.real (signed negative Binary64.zero), rest)
      else real negative n (if minus then e - size else e + size) rest

def startsDigit : Text → Bool
  | c :: _ => c.isDigit
  | [] => false

def startsExponent : Text → Bool
  | c :: _ => c == 'e' || c == 'E'
  | [] => false

/-- Digits from behind the point. Those that no longer fit into 64 bits are left out. -/
def fraction (negative : Bool) (n : Nat) (e : Int) (s : Text) : Except Fault (Number × Text) :=
  let (n, count, r) := significand n 0 s
  let e := e - count
  if count = 0 ∧ !startsDigit r then .error (if r.isEmpty then .ended else .syntactic)
  else
    let r := r.dropWhile Char.isDigit
    if startsExponent r then exponent negative n e (r.drop 1) else real negative n e r

/-- A number behind its sign. Digits that no longer fit into 64 bits only count as powers of ten. -/
def number (negative : Bool) (s : Text) : Except Fault (Number × Text) :=
  match s with
  | [] => .error .ended
  | c :: r =>
    if !c.isDigit || (c == '0' && startsDigit r) then .error .syntactic
    else
      let (n, _, r) := significand 0 0 s
      let e := (r.takeWhile Char.isDigit).length
      let r' := r.dropWhile Char.isDigit
      match r' with
      | '.' :: r'' => fraction negative n e r''
      | _ =>
        if startsExponent r' then exponent negative n e (r'.drop 1)
        else if 0 < e then real negative n e r'
        else if negative then .ok (.real (-(Binary64.ofNat n)), r')
        else .ok (.natural n, r')

/-- What is left behind a number that nobody asks for. -/
def skipNumber (s : Text) : Except Fault Text :=
  let whole := s.takeWhile Char.isDigit
  if whole.isEmpty || (whole.head? == some '0' && 1 < whole.length) then .error .syntactic
  else do
    let r ←
      match s.dropWhile Char.isDigit with
      | '.' :: r => if startsDigit r then .ok (r.dropWhile Char.isDigit) else .error .syntactic
      | r => .ok r
    if startsExponent r then
      let r := match r.drop 1 with
        | '-' :: r => r
        | '+' :: r => r
        | r => r
      if startsDigit r then .ok (r.dropWhile Char.isDigit) else .error .syntactic
    else .ok r

/-! ## Values -/

/-- A value that is no array and no object, where one starts with `c`; `none` for those two. -/
def scalar? (strict : Bool) (c : Char) (r : Text) : Option (Except Fault (Value × Text)) :=
  if c == 'n' then some ((skipWord "ull".toList r).map (Value.null, ·))
  else if c == 't' then some ((skipWord "rue".toList r).map (Value.bool true, ·))
  else if c == 'f' then some ((skipWord "alse".toList r).map (Value.bool false, ·))
  else if c == '"' then some ((string strict r).map fun p => (.string p.1, p.2))
  else if c == '-' || c.isDigit then
    let digits := if c == '-' then r else c :: r
    if strict then some ((number (c == '-') digits).map fun p => (.number p.1, p.2))
    else some ((skipNumber digits).map (Value.null, ·))
  else if c == '[' || c == '{' then none
  else some (.error .syntactic)

/-- The colon between a key and its value. -/
def colon (s : Text) : Except Fault Text :=
  match skipSpace s with
  | [] => .error .ended
  | c :: r => if c == ':' then .ok r else .error .syntactic

/-- The next item of an array, if there is one: the text from it on. An item that is not the first follows a
comma. -/
def nextItem (first : Bool) (s : Text) : Except Fault (Option Text) :=
  match skipSpace s with
  | [] => .error .ended
  | c :: r =>
    if c == ']' then .ok none
    else if first then .ok (some (c :: r))
    else if c == ',' then
      match skipSpace r with
      | [] => .error .ended
      | d :: r => if d == ']' then .error .syntactic else .ok (some (d :: r))
    else .error .syntactic

/-- The next key of an object, if there is one: the text behind its quote. -/
def nextKey (first : Bool) (s : Text) : Except Fault (Option Text) :=
  match skipSpace s with
  | [] => .error .ended
  | c :: r =>
    if c == '}' then .ok none
    else if first then (if c == '"' then .ok (some r) else .error .syntactic)
    else if c == ',' then
      match skipSpace r with
      | [] => .error .ended
      | d :: r => if d == '"' then .ok (some r) else .error .syntactic
    else .error .syntactic

/-- The text behind the bracket that `nextItem` or `nextKey` has stopped at. -/
def behindClose (s : Text) : Text := (skipSpace s).drop 1

mutual

/-- Any value. Fuel bounds the steps, of which each takes a character, and depth the nesting. -/
def value (strict : Bool) (fuel depth : Nat) (s : Text) : Except Fault (Value × Text) :=
  match fuel with
  | 0 => .error .ended
  | fuel + 1 =>
    match skipSpace s with
    | [] => .error .ended
    | c :: r =>
      match scalar? strict c r with
      | some result => result
      | none =>
        if strict && depth ≤ 1 then .error .syntactic
        else if c == '[' then
          (items strict fuel (depth - 1) true r).map fun p => (.array p.1, p.2)
        else (members strict fuel (depth - 1) true r).map fun p => (.object p.1, p.2)

/-- The items of an array that are still to come, and its `]`. -/
def items (strict : Bool) (fuel depth : Nat) (first : Bool) (s : Text) : Except Fault ((List Value) × Text) :=
  match fuel with
  | 0 => .error .ended
  | fuel + 1 => do
    match ← nextItem first s with
    | none => .ok ([], behindClose s)
    | some r => do
      let (v, r) ← value strict fuel depth r
      let (vs, r) ← items strict fuel depth false r
      .ok (v :: vs, r)

/-- The members of an object that are still to come, and its `}`. -/
def members (strict : Bool) (fuel depth : Nat) (first : Bool) (s : Text) : Except Fault ((List (Text × Value)) × Text) :=
  match fuel with
  | 0 => .error .ended
  | fuel + 1 => do
    match ← nextKey first s with
    | none => .ok ([], behindClose s)
    | some r => do
      let (key, r) ← string strict r
      let r ← colon r
      let (v, r) ← value strict fuel depth r
      let (ms, r) ← members strict fuel depth false r
      .ok ((key, v) :: ms, r)

end

/-- A value that is asked for, in containers that leave this much depth. -/
def anyValue (depth : Nat) (s : Text) : Except Fault (Value × Text) := value true (2 * s.length + 2) depth s

/-- What is left behind a value that nobody asks for. -/
def skipValue (s : Text) : Except Fault Text :=
  (value false (2 * s.length + 2) 0 s).map Prod.snd

/-- Why a value that starts with `c` is not of the kind that was asked for. -/
def wrongKind (c : Char) (r : Text) : Fault :=
  match scalar? true c r with
  | some (.error f) => f
  | _ => .mismatch

end Relength.Json
