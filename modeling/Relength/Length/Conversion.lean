import Relength.Binary64.Precision
import Relength.Length.Px

/-!
# Converting pixel lengths

The minimum, the transform and the rounding see the magnitude of a length; a leading minus is put back at the
end. A length that does not convert stays as written, and one that rounds to zero loses its unit.
-/

namespace Relength

structure Conversion where
  /-- Written behind converted numbers. -/
  unit : Text
  /-- Decimal places that are kept. -/
  precision : Nat
  /-- Lengths below this many pixels stay. -/
  minimum : Binary64
  /-- From pixels to the number in the new unit. -/
  transform : Binary64 → Binary64

/-- What becomes of one pixel length. -/
inductive Converted where
  | unreadable
  | belowMinimum
  | notFinite
  | number (x : Binary64)
  deriving DecidableEq, Repr

namespace Conversion

/-- A number without its leading sign, and whether that was a minus. -/
def splitSign : Text → Bool × Text
  | '-' :: digits => (true, digits)
  | '+' :: digits => (false, digits)
  | digits => (false, digits)

def converted (c : Conversion) (number : Text) : Converted :=
  let sign := splitSign number
  match Binary64.ofText? sign.2 with
  | none => .unreadable
  | some pixels =>
    if pixels.less c.minimum then .belowMinimum
    else
      let magnitude := (c.transform pixels).roundTo c.precision
      let x := if sign.1 then -magnitude else magnitude
      if x.isFinite then .number x else .notFinite

/-- The text that takes the place of the pixel length with this number. -/
def format (c : Conversion) (number : Text) : Text :=
  match c.converted number with
  | .number x => if x.isZero then ['0'] else x.toNumberText ++ c.unit
  | _ => number ++ px

/-- A text with its pixel lengths converted. -/
def convert (c : Conversion) (s : Text) : Text := replacePx c.format s

end Conversion

end Relength
