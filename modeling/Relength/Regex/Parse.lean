import Relength.Regex.Automaton
import Relength.Regex.Bracket
import Relength.Unicode.Alphabetic
import Relength.Unicode.Numeric

/-!
# The notation of regular expressions

Literals, `.`, `^`, `$`, `|`, groups, repetitions with `*`, `+`, `?` and braces, bracketed classes with ranges,
named ASCII classes and the operators `&&`, `--` and `~~`, escapes, and the flags `i`, `m`, `s`, `x`, `u`, `U` and
`R`, which last to the end of their group. There is no look-around and there are no back-references.

The readers take what is left of the text and return what they leave. `Regex.parse?` is `none` exactly for texts
outside this notation, for constructs nested too deep and for expressions that take too much room.
-/

namespace Relength.Regex

/-- A literal outside classes. Without the flag `u` a code of two digits must be ASCII, and other characters
have no case. -/
def literal? (flags : Flags) (c : Char) (byte : Bool) : Option Regex :=
  if flags.unicode || c.toNat < 0x80 then some (.set (foldSet flags (.single c)))
  else if byte then none else some (.set (.single c))

/-! ## Groups and repetitions -/

/-- Flags up to a `:` or a `)`, which is left. A `-` clears those behind it; none may be given twice. -/
def readFlags? (flags : Flags) (seen : Text) (value : Bool) : Text → Option (Flags × Text)
  | [] => none
  | c :: r =>
    if c == ':' || c == ')' then (if seen.head? == some '-' then none else some (flags, c :: r))
    else if seen.contains c then none
    else
      let next (f : Flags) := readFlags? f (c :: seen) value r
      match c with
      | '-' => readFlags? flags (c :: seen) false r
      | 'i' => next { flags with caseless := value }
      | 'm' => next { flags with multiLine := value }
      | 's' => next { flags with dotAll := value }
      | 'u' => next { flags with unicode := value }
      | 'R' => next { flags with carriageReturn := value }
      | 'x' => next { flags with verbose := value }
      | 'U' => next flags
      | _ => none

/-- The name of a group, up to its `>`. -/
def readGroupName? (s : Text) : Option (Text × Text) :=
  let name := s.takeWhile (· != '>')
  let isFirst (c : Char) : Bool := c == '_' || Unicode.isAlphabetic c
  let isInner (c : Char) : Bool :=
    isFirst c || Unicode.isNumeric c || c == '.' || c == '[' || c == ']'
  match s.dropWhile (· != '>') with
  | _ :: rest => if name.head?.any isFirst && (name.drop 1).all isInner then some (name, rest) else none
  | [] => none

/-- What a `(` opens. -/
inductive Opener where
  /-- `keeps` tells groups whose match is kept. -/
  | group (flags : Flags) (keeps : Bool) (name : Option Text)
  | settings (flags : Flags)

/-- An opener from behind its `(`. -/
def readOpener? (flags : Flags) (s : Text) : Option (Opener × Text) :=
  match skipComments flags.verbose s with
  | '?' :: 'P' :: '<' :: r => (readGroupName? r).map fun p => (.group flags true (some p.1), p.2)
  | '?' :: '<' :: r => (readGroupName? r).map fun p => (.group flags true (some p.1), p.2)
  | '?' :: ')' :: _ => none
  | '?' :: r => do
    match ← readFlags? flags [] true r with
    | (f, ':' :: r) => some (.group f false none, r)
    | (f, _ :: r) => some (.settings f, r)
    | (_, []) => none
  | r => some (.group flags true none, r)

/-- A number of 32 bits with blanks around it, and with the flag `x` also between its digits. -/
def readCount? (verbose : Bool) (s : Text) : Option (Nat × Text) :=
  let digits := (visible verbose (s.dropWhile Text.isBlank)).takeWhile (·.1.isDigit)
  let n := Text.decimalValue (digits.map (·.1))
  match digits.getLast? with
  | some (_, rest) =>
    if n < Nat.pow 2 32 then some (n, skipComments verbose ((skipComments verbose rest).dropWhile Text.isBlank)) else none
  | none => none

/-- The bounds of a repetition, from behind its `{`. -/
def readBounds? (verbose : Bool) (s : Text) : Option ((Nat × Option Nat) × Text) := do
  let (least, s) ← readCount? verbose (skipComments verbose s)
  match s with
  | '}' :: r => some ((least, some least), r)
  | ',' :: r =>
    match skipComments verbose r with
    | '}' :: r => some ((least, none), r)
    | r => do
      let (most, r) ← readCount? verbose r
      match r with
      | '}' :: r => if least ≤ most then some ((least, some most), r) else none
      | _ => none
  | _ => none

/-- An expression with the depth of its constructs. -/
structure Item where
  regex : Regex
  depth : Nat
  /-- A setting of flags stands among the items, but cannot be repeated. -/
  isSetting : Bool := false

/-- Constructs may not lie around one another more often than this. -/
def depthLimit : Nat := 250

/-- The text around an open group: the alternatives and the items in front of it, last first, and its flags. -/
structure Level where
  flags : Flags
  /-- The match of the group is kept. -/
  keeps : Bool
  earlier : List Item
  items : List Item

/-- How far an expression is read: the innermost level, those around it, and the names of groups. -/
structure Reader where
  level : Level
  around : List Level
  names : List Text

namespace Level

def start (flags : Flags) (keeps : Bool) : Level := ⟨flags, keeps, [], []⟩

/-- The items since the last `|`, one after the other. -/
def branch (l : Level) : Item :=
  ⟨sequence (l.items.reverse.map Item.regex), joinedDepth (l.items.map Item.depth), false⟩

/-- The whole level. -/
def whole (l : Level) : Item :=
  match l.earlier with
  | [] => l.branch
  | _ =>
    let branches := (l.branch :: l.earlier).reverse
    ⟨oneOf (branches.map Item.regex), joinedDepth (branches.map Item.depth), false⟩

/-- The level as a group. -/
def close (l : Level) : Item :=
  ⟨if l.keeps then .group l.whole.regex else l.whole.regex, l.whole.depth + 1, false⟩

def push (l : Level) (item : Item) : Level := { l with items := item :: l.items }

/-- The last item repeated, if there is one. -/
def repeatLast? (l : Level) (bounds : Nat × Option Nat) : Option Level :=
  match l.items with
  | item :: items =>
    if item.isSetting then none
    else some { l with items := ⟨item.regex.repeated bounds.1 bounds.2, item.depth + 1, false⟩ :: items }
  | [] => none

end Level

def dot? (flags : Flags) : Option CharSet :=
  if !flags.unicode then none
  else if flags.dotAll then some .all
  else if flags.carriageReturn then some ((CharSet.single '\r').union (.single '\n')).compl
  else some (CharSet.single '\n').compl

def lineStart (flags : Flags) : Assertion :=
  if !flags.multiLine then .textStart else if flags.carriageReturn then .lineStartCr else .lineStart

def lineEnd (flags : Flags) : Assertion :=
  if !flags.multiLine then .textEnd else if flags.carriageReturn then .lineEndCr else .lineEnd

/-- A `?` behind a repetition only asks for the shortest match first. -/
def skipLazy : Text → Text
  | '?' :: r => r
  | r => r

namespace Reader

def push (st : Reader) (r : Regex) : Reader := { st with level := st.level.push ⟨r, 0, false⟩ }

def repeatLast? (st : Reader) (bounds : Nat × Option Nat) (rest : Text) : Option (Reader × Text) :=
  (st.level.repeatLast? bounds).map fun l => ({ st with level := l }, skipLazy rest)

/-- One item of the expression, starting with `c`. -/
def step? (st : Reader) (c : Char) (r : Text) : Option (Reader × Text) :=
  let flags := st.level.flags
  match c with
  | '(' => do
    match ← readOpener? flags r with
    | (.settings f, r) =>
      some ({ st with level := { st.level.push ⟨.empty, 0, true⟩ with flags := f } }, r)
    | (.group f keeps none, r) => some (⟨.start f keeps, st.level :: st.around, st.names⟩, r)
    | (.group f keeps (some name), r) =>
      if st.names.contains name then none
      else some (⟨.start f keeps, st.level :: st.around, name :: st.names⟩, r)
  | ')' =>
    match st.around with
    | outer :: around => some (⟨outer.push st.level.close, around, st.names⟩, r)
    | [] => none
  | '|' =>
    some ({ st with level := { st.level with earlier := st.level.branch :: st.level.earlier, items := [] } }, r)
  | '[' => do
    let (k, r) := openClass flags r
    let (s, r) ← readClass? flags k (r.length + 1) r
    some ({ st with level := st.level.push ⟨.set s.set, s.depth, false⟩ }, r)
  | '?' => st.repeatLast? (0, some 1) r
  | '*' => st.repeatLast? (0, none) r
  | '+' => st.repeatLast? (1, none) r
  | '{' => do
    let (bounds, r) ← readBounds? flags.verbose r
    st.repeatLast? bounds (skipComments flags.verbose r)
  | '.' => (dot? flags).map fun s => (st.push (.set s), r)
  | '^' => some (st.push (.assertion (lineStart flags)), r)
  | '$' => some (st.push (.assertion (lineEnd flags)), r)
  | '\\' => do
    match ← readEscape? flags r with
    | (.literal d byte, r) => (literal? flags d byte).map fun e => (st.push e, r)
    | (.charClass s, r) => some (st.push (.set s), r)
    | (.assertion a, r) => some (st.push (.assertion a), r)
  | c => (literal? flags c false).map fun e => (st.push e, r)

/-- The rest of an expression. Every step takes a character. -/
def run? (st : Reader) : Nat → Text → Option Item
  | fuel, s =>
    match fuel, skipComments st.level.flags.verbose s with
    | _, [] => if st.around.isEmpty then some st.level.whole else none
    | 0, _ => none
    | fuel + 1, c :: r => do
      let (st, r) ← st.step? c r
      st.run? fuel r

end Reader

/-- The expression written by a text. -/
def parse? (s : Text) : Option Regex := do
  let item ← Reader.run? ⟨.start {} false, [], []⟩ s.length s
  if item.depth ≤ depthLimit && item.regex.fits then some item.regex else none

end Relength.Regex
