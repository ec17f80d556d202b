import Relength.Length.Conversion

/-!
# What a run reports

The events of reading and converting a sheet, in the order in which they happen, and their texts.
-/

namespace Relength

/-- How much a run has done. -/
structure Summary where
  /-- The sheet was left alone for its path. -/
  excluded : Bool
  /-- Declarations whose value was overwritten. -/
  replaced : Nat
  /-- Converted copies of declarations. -/
  inserted : Nat
  /-- Media rules whose params were overwritten. -/
  mediaQueries : Nat
  deriving DecidableEq, Repr

inductive Event where
  | parsed (nodes : Nat)
  | skippedProperty (property : Text)
  | skippedSelector (property selector : Text)
  | belowMinimum (length : Text) (minimum : Binary64)
  | notFinite (length : Text)
  | alreadyDeclared (property value : Text)
  | replaced (property old new : Text)
  | inserted (property value : Text)
  | mediaQuery (name old new : Text)
  | excluded (path : Text)
  | finished (summary : Summary)
  deriving DecidableEq, Repr

namespace Event

/-- The event changes the sheet or ends the run; the others are of interest only for a closer look. -/
def isMajor : Event → Bool
  | .replaced .. | .inserted .. | .mediaQuery .. | .excluded _ | .finished _ => true
  | _ => false

def natText (n : Nat) : Text := Nat.toDigits 10 n

def message : Event → Text
  | .parsed nodes => "parsed stylesheet with ".toList ++ natText nodes ++ " top-level nodes".toList
  | .skippedProperty property => "skipping blacklisted property ".toList ++ property
  | .skippedSelector property selector =>
    "skipping ".toList ++ property ++ " in blacklisted selector ".toList ++ selector
  | .belowMinimum length minimum =>
    length ++ " is below the minimum of ".toList ++ minimum.toText ++ "px".toList
  | .notFinite length => "transform of ".toList ++ length ++ " is not finite".toList
  | .alreadyDeclared property value => property ++ ": ".toList ++ value ++ " is already declared".toList
  | .replaced property old new => property ++ ": ".toList ++ old ++ " -> ".toList ++ new
  | .inserted property value => property ++ ": appended ".toList ++ value
  | .mediaQuery name old new => '@' :: name ++ ' ' :: old ++ " -> ".toList ++ new
  | .excluded path => "excluded ".toList ++ path
  | .finished s =>
    "px conversion done: ".toList ++ natText s.replaced ++ " replaced, ".toList ++ natText s.inserted ++
      " inserted, ".toList ++ natText s.mediaQueries ++ " media queries".toList

/-- The event as a line of a log. -/
def line (e : Event) : Text := (if e.isMajor then "DEBUG " else "TRACE ").toList ++ e.message

end Event

/-- What is reported about the pixel length with this number. -/
def Conversion.event? (c : Conversion) (number : Text) : Option Event :=
  match c.converted number with
  | .belowMinimum => some (.belowMinimum (number ++ px) c.minimum)
  | .notFinite => some (.notFinite (number ++ px))
  | _ => none

/-- What is reported about converting a text. -/
def Conversion.events (c : Conversion) (s : Text) : List Event := (pxNumbers s).filterMap c.event?

end Relength
