import Relength.Length.Conversion
import Relength.PropertyList
import Relength.Regex.Parse

/-!
# Options of a run

What is converted, how, and which properties, selectors and files are left alone.
-/

namespace Relength

/-- A selector or path pattern. -/
inductive Pattern where
  | literal (text : Text)
  /-- An expression, with the text it was read from. -/
  | regex (source : Text) (expression : Regex)
  deriving DecidableEq, Repr

namespace Pattern

/-- The pattern of an expression, if that can be read. -/
def ofRegex? (source : Text) : Option Pattern := (Regex.parse? source).map (.regex source)

/-- The pattern is found somewhere in the text. -/
def foundIn (p : Pattern) (s : Text) : Bool :=
  match p with
  | .literal text => Text.occursIn text s
  | .regex _ r => r.occursIn s

end Pattern

/-- Which files are left alone, by their path. -/
inductive Exclude where
  | pattern (p : Pattern)
  | predicate (f : Text → Bool)

def Exclude.holds (e : Exclude) (path : Text) : Bool :=
  match e with
  | .pattern p => p.foundIn path
  | .predicate f => f path

structure Options where
  /-- Written behind converted numbers. -/
  unit : Text
  /-- Decimal places that are kept. -/
  unitPrecision : Nat
  /-- Rules whose selector one of these is found in are left alone. -/
  selectorBlackList : List Pattern
  /-- Properties that are left alone. -/
  propBlackList : List Text
  /-- Values are overwritten; otherwise a converted copy follows each declaration. -/
  replace : Bool
  /-- The params of media rules are converted too. -/
  mediaQuery : Bool
  /-- Lengths below this many pixels stay. -/
  minPixelValue : Binary64
  exclude : Option Exclude
  /-- From pixels to the number in the new unit. -/
  transform : Binary64 → Binary64

namespace Options

/-- Twice the number of pixels, in `rpx`, at five decimal places. -/
def default : Options where
  unit := "rpx".toList
  unitPrecision := 5
  selectorBlackList := []
  propBlackList := []
  replace := true
  mediaQuery := false
  minPixelValue := .zero
  exclude := none
  transform := fun x => x * .ofNat 2

def conversion (o : Options) : Conversion := ⟨o.unit, o.unitPrecision, o.minPixelValue, o.transform⟩

/-- A text with its pixel lengths converted. -/
def convert (o : Options) (s : Text) : Text := o.conversion.convert s

/-- Some pattern is found in the selector; without a selector none is. -/
def skipsSelector (o : Options) (selector : Option Text) : Bool :=
  selector.any fun s => o.selectorBlackList.any (·.foundIn s)

def skipsProperty (o : Options) (property : Text) : Bool := PropertyList.skips o.propBlackList property

/-- A sheet from this file is left alone. One from an unknown file never is. -/
def excludes (o : Options) (path : Option Text) : Bool :=
  match o.exclude, path with
  | some e, some p => e.holds p
  | _, _ => false

end Options

end Relength
