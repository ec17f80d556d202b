import Relength.Binary64.Decimal

/-!
# Rounding to decimal places

`roundTo` scales a magnitude to one place more than asked for and cuts off the rest before it rounds, so that
what lies just below a half because of the binary format still rounds down. Where the scale itself leaves the
range of finite numbers, the number is returned as it is.
-/

namespace Relength.Binary64

/-- `m * a ^ n` by repeated squaring, each product rounded. -/
def mulPow (m a : Binary64) (n : Nat) : Binary64 :=
  if n = 0 then m else mulPow (if n % 2 = 1 then m * a else m) (a * a) (n / 2)

/-- The scale of one place more than `precision`; exponents end at `2 ^ 31 - 1`. -/
def scale (precision : Nat) : Binary64 := mulPow (ofNat 1) (ofNat 10) (min (precision + 1) (Nat.pow 2 31 - 1))

/-- The number at this many decimal places, halves away from zero. -/
def roundTo (x : Binary64) (precision : Nat) : Binary64 :=
  let scale := scale precision
  if !scale.isFinite then x
  else
    let whole := (x.abs * scale).truncate
    ((whole / ofNat 10).round * ofNat 10 / scale).withSign x.isNegative

/-- A number as a stylesheet has it: no sign on zero, no exponent, no zeros at the end. -/
def toNumberText (x : Binary64) : Text := if x.isZero then ['0'] else x.toText

end Relength.Binary64
