import Relength.Text

/-!
# Lists of property patterns

An entry is a name, or a name with `*` in front, behind or on both sides, each with an optional `!` in front that
makes it an exception, or a bare `*`. `Shape` is the part of an entry without its `!`. Entries of no shape match
nothing.
-/

namespace Relength

/-- How the name of an entry is to stand in a property. -/
inductive PropertyShape where
  | exact | contain | startWith | endWith
  deriving DecidableEq, Repr

namespace PropertyShape

def all : List PropertyShape := [.exact, .contain, .startWith, .endWith]

def holds (shape : PropertyShape) (name property : Text) : Bool :=
  match shape with
  | .exact => name == property
  | .contain => Text.occursIn name property
  | .startWith => name.isPrefixOf property
  | .endWith => name.isSuffixOf property

end PropertyShape

/-- The text without a first character that it must have. -/
def afterFirst? (c : Char) : Text → Option Text
  | [] => none
  | d :: r => if d = c then some r else none

/-- The text without a last character that it must have. -/
def beforeLast? (c : Char) (s : Text) : Option Text :=
  (afterFirst? c s.reverse).map List.reverse

namespace PropertyList

def isPlain (c : Char) : Bool := c != '*' && c != '!'

def plain? (entry : Text) : Option Text := if !entry.isEmpty && entry.all isPlain then some entry else none

def contain? (entry : Text) : Option Text := do
  let inner ← beforeLast? '*' (← afterFirst? '*' entry)
  if inner.isEmpty then none else some inner

def startWith? (entry : Text) : Option Text := do plain? (← beforeLast? '*' entry)

def endWith? (entry : Text) : Option Text := do
  let rest ← afterFirst? '*' entry
  if rest.isEmpty || rest.contains '*' then none else some rest

def notPlain? (entry : Text) : Option Text := do
  let rest ← afterFirst? '!' entry
  if rest.isEmpty || rest.head? == some '*' then none else some rest

def notContain? (entry : Text) : Option Text := do contain? (← afterFirst? '!' entry)

def notStartWith? (entry : Text) : Option Text := do
  let inner ← beforeLast? '*' (← afterFirst? '!' entry)
  if inner.isEmpty || inner.contains '*' then none else some inner

def notEndWith? (entry : Text) : Option Text := do endWith? (← afterFirst? '!' entry)

/-- The name in an entry of this shape, as an exception or not. -/
def name? (negated : Bool) : PropertyShape → Text → Option Text
  | .exact => if negated then notPlain? else plain?
  | .contain => if negated then notContain? else contain?
  | .startWith => if negated then notStartWith? else startWith?
  | .endWith => if negated then notEndWith? else endWith?

/-- The names of the entries of one shape, in order. -/
def bucket (negated : Bool) (shape : PropertyShape) (entries : List Text) : List Text :=
  entries.filterMap (name? negated shape)

/-- Some entry that is an exception, or some that is none, matches the property. -/
def matchesAny (negated : Bool) (entries : List Text) (property : Text) : Bool :=
  PropertyShape.all.any fun shape => (bucket negated shape entries).any (shape.holds · property)

/-- The list keeps a property from conversion: an entry matches it and no exception does. A list that is only
`*` has no exceptions. -/
def skips (entries : List Text) (property : Text) : Bool :=
  entries == [['*']] ||
    ((entries.contains ['*'] || matchesAny false entries property) && !matchesAny true entries property)

end PropertyList

end Relength
