import Relength.Regex.Escape

/-!
# Bracketed classes

Characters, ranges, escapes, named classes and classes in brackets of their own, joined by the operators `&&`,
`--` and `~~`, which bind to the left and weaker than items side by side.
-/

namespace Relength.Regex

/-- How many constructs lie around one another in parts that stand side by side. Two parts or more take one
construct to hold them. -/
def joinedDepth : List Nat → Nat
  | [] => 0
  | [d] => d
  | d :: rest => 1 + rest.foldl max d

def foldSet (flags : Flags) (s : CharSet) : CharSet :=
  if flags.caseless then (if flags.unicode then s.folded else s.foldedAscii) else s

inductive ClassOp where
  | inter | diff | symDiff
  deriving DecidableEq, Repr

def ClassOp.apply (op : ClassOp) (a b : CharSet) : CharSet :=
  match op with
  | .inter => a.inter b
  | .diff => a.diff b
  | .symDiff => a.symDiff b

/-- A class with the depth of its constructs. -/
structure DeepSet where
  set : CharSet
  depth : Nat

/-- A class whose `]` is still to come: the operand in front of the last operator, and the items behind it with
the depth of each. -/
structure OpenClass where
  negated : Bool
  left : Option (ClassOp × DeepSet)
  items : CharSet
  depths : List Nat

namespace OpenClass

def add (k : OpenClass) (item : DeepSet) : OpenClass :=
  { k with items := k.items.union item.set, depths := item.depth :: k.depths }

/-- The class so far, without its negation. -/
def joined (flags : Flags) (k : OpenClass) : DeepSet :=
  let items : DeepSet := ⟨foldSet flags k.items, joinedDepth k.depths⟩
  match k.left with
  | some (op, left) => ⟨foldSet flags (op.apply left.set items.set), 1 + max left.depth items.depth⟩
  | none => items

def operator (flags : Flags) (k : OpenClass) (op : ClassOp) : OpenClass :=
  ⟨k.negated, some (op, k.joined flags), .none, []⟩

/-- The whole class. Without the flag `u` it cannot be negated. -/
def close? (flags : Flags) (k : OpenClass) : Option DeepSet :=
  let whole := k.joined flags
  if k.negated then (if flags.unicode then some ⟨whole.set.compl, whole.depth + 1⟩ else none)
  else some ⟨whole.set, whole.depth + 1⟩

end OpenClass

/-- A class from behind its `[`: a `^`, then any number of `-` or one `]` that stand for themselves. -/
def openClass (flags : Flags) (s : Text) : OpenClass × Text :=
  let (negated, s) :=
    match skipComments flags.verbose s with
    | '^' :: r => (true, skipComments flags.verbose r)
    | r => (false, r)
  let start : OpenClass := ⟨negated, none, .none, []⟩
  let shown := visible flags.verbose s
  let first := shown.takeWhile (·.1 == '-')
  let first := if first.isEmpty then (shown.take 1).filter (·.1 == ']') else first
  match first.getLast? with
  | some (_, rest) =>
    (first.foldl (fun k p => k.add ⟨.single p.1, 0⟩) start, skipComments flags.verbose rest)
  | none => (start, s)

def asciiClass? (name : Text) : Option CharSet :=
  if name == "alnum".toList then some (.ofCharRanges [('0', '9'), ('A', 'Z'), ('a', 'z')])
  else if name == "alpha".toList then some (.ofCharRanges [('A', 'Z'), ('a', 'z')])
  else if name == "ascii".toList then some (.ofCharRanges [('\x00', '\x7f')])
  else if name == "blank".toList then some (.ofCharRanges [('\t', '\t'), (' ', ' ')])
  else if name == "cntrl".toList then some (.ofCharRanges [('\x00', '\x1f'), ('\x7f', '\x7f')])
  else if name == "digit".toList then some .asciiDigit
  else if name == "graph".toList then some (.ofCharRanges [('!', '~')])
  else if name == "lower".toList then some (.ofCharRanges [('a', 'z')])
  else if name == "print".toList then some (.ofCharRanges [(' ', '~')])
  else if name == "punct".toList then some (.ofCharRanges [('!', '/'), (':', '@'), ('[', '\x60'), ('{', '~')])
  else if name == "space".toList then some .asciiSpace
  else if name == "upper".toList then some (.ofCharRanges [('A', 'Z')])
  else if name == "word".toList then some .asciiWord
  else if name == "xdigit".toList then some (.ofCharRanges [('0', '9'), ('A', 'F'), ('a', 'f')])
  else none

/-- A named class between `[:` and `:]`, from behind its `[`. -/
def readAsciiClass? : Text → Option (Bool × CharSet × Text)
  | ':' :: r =>
    let (negated, r) := match r with | '^' :: r' => (true, r') | r' => (false, r')
    match asciiClass? (r.takeWhile (· != ':')), r.dropWhile (· != ':') with
    | some s, ':' :: ']' :: rest => some (negated, s, rest)
    | _, _ => none
  | _ => none

/-- A character or an escape in a class. -/
def readClassAtom? (flags : Flags) : Text → Option (Atom × Text)
  | '\\' :: r => readEscape? flags r
  | c :: r => some (.literal c false, r)
  | [] => none

/-- The characters of a class from `c` to `d`, which without the flag `u` must be ASCII. -/
def classRange? (flags : Flags) (c d : Char) : Option CharSet :=
  if c.toNat ≤ d.toNat && (flags.unicode || d.toNat < 0x80) then some (.range c.toNat d.toNat) else none

/-- What a `-` in a class is looked at for, before it is taken as the sign of a range: the next character that is
neither a blank nor, with the flag `x`, the `#` of a comment. The comment itself is not passed over. -/
def charBehindDash? (flags : Flags) (s : Text) : Option Char :=
  if flags.verbose then
    match s.dropWhile Text.isBlank with
    | '#' :: r => (r.dropWhile Text.isBlank).head?
    | r => r.head?
  else s.head?

/-- A range, or a single item of a class. -/
def readClassRange? (flags : Flags) (s : Text) : Option (CharSet × Text) := do
  let (first, s) ← readClassAtom? flags s
  let s := skipComments flags.verbose s
  let single (a : Atom) : Option CharSet :=
    match a with
    | .literal c _ => classRange? flags c c
    | .charClass k => some k
    | .assertion _ => none
  match s with
  | [] => none
  | '-' :: r =>
    if charBehindDash? flags r == some ']' || charBehindDash? flags r == some '-' then (← single first, s)
    else do
      let (last, r) ← readClassAtom? flags (skipComments flags.verbose r)
      match first, last with
      | .literal c _, .literal d _ => (← classRange? flags c d, r)
      | _, _ => none
  | s => (← single first, s)

/-- The rest of a class, up to its `]`. Every step takes a character. -/
def readClass? (flags : Flags) (k : OpenClass) : Nat → Text → Option (DeepSet × Text)
  | 0, _ => none
  | fuel + 1, s =>
    match skipComments flags.verbose s with
    | [] => none
    | '[' :: r =>
      match readAsciiClass? r with
      | some (negated, s, rest) => do
        let s ← if negated then (if flags.unicode then some (foldSet flags s).compl else none) else some s
        readClass? flags (k.add ⟨s, 0⟩) fuel rest
      | none => do
        let (inner, r) := openClass flags r
        let (item, rest) ← readClass? flags inner fuel r
        readClass? flags (k.add item) fuel rest
    | ']' :: r => (k.close? flags).map (·, r)
    | '&' :: '&' :: r => readClass? flags (k.operator flags .inter) fuel r
    | '-' :: '-' :: r => readClass? flags (k.operator flags .diff) fuel r
    | '~' :: '~' :: r => readClass? flags (k.operator flags .symDiff) fuel r
    | s => do
      let (item, rest) ← readClassRange? flags s
      readClass? flags (k.add ⟨item, 0⟩) fuel rest

end Relength.Regex
