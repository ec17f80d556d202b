import Relength.Binary64
import Relength.Text

/-!
# Binary floating point from and to decimal text

`ofText?` reads a decimal literal and rounds it once. `toText` writes the shortest decimal that reads back, in
positional form: of the grids of multiples of `10 ^ e`, from coarse to fine, the first that has a point in the
interval of reals that round to the number, of two such points the nearer, and of two equally near the greater.
-/

namespace Relength.Binary64

/-! ## Reading -/

/-- The number nearest to `m * 10 ^ e`. Beyond the bounds on `e` the result no longer depends on it. -/
def ofDecimal (negative : Bool) (m : Nat) (e : Int) : Binary64 :=
  if 0 ≤ e then ofRatio negative (m * Nat.pow 10 (min e.toNat 400) * one) 1
  else ofRatio negative (m * one) (Nat.pow 10 (min (-e).toNat (m.log2 + 400)))

/-- An optional sign, where a minus is `true`. -/
def readSign : Text → Bool × Text
  | '-' :: r => (true, r)
  | '+' :: r => (false, r)
  | s => (false, s)

/-- The exponent of a literal, which ends it. -/
def readExponent? : Text → Option Int
  | [] => some 0
  | c :: r =>
    let sign := readSign r
    if (c == 'e' || c == 'E') && !sign.2.isEmpty && sign.2.all Char.isDigit then
      let size : Int := Text.decimalValue sign.2
      some (if sign.1 then -size else size)
    else none

/-- The digits of a literal: some in front of the point or behind it, then the exponent. -/
def readDigits? (negative : Bool) (s : Text) : Option Binary64 :=
  let whole := s.takeWhile Char.isDigit
  let rest := s.dropWhile Char.isDigit
  let (fraction, rest) :=
    match rest with
    | '.' :: r => (r.takeWhile Char.isDigit, r.dropWhile Char.isDigit)
    | r => ([], r)
  if whole.isEmpty && fraction.isEmpty then none
  else
    (readExponent? rest).map fun e =>
      ofDecimal negative (Text.decimalValue (whole ++ fraction)) (e - fraction.length)

/-- A literal: an optional sign, then digits with an optional point and exponent, or in any case one of the
names of the infinity and of not-a-number. -/
def ofText? (s : Text) : Option Binary64 :=
  let sign := readSign s
  let lowered := sign.2.map Char.toLower
  if lowered == "inf".toList || lowered == "infinity".toList then some (.infinite sign.1)
  else if lowered == "nan".toList then some .nan
  else readDigits? sign.1 sign.2

/-! ## Writing -/

/-- The positive decimal `digits * 10 ^ exponent`. -/
structure Decimal where
  digits : Nat
  exponent : Int
  deriving DecidableEq, Repr

/-- The units in `10 ^ e`, as a quotient. -/
def gridUnits (e : Int) : Nat × Nat :=
  if 0 ≤ e then (Nat.pow 10 e.toNat * one, 1) else (one, Nat.pow 10 (-e).toNat)

/-- `p * 10 ^ e` rounds to the magnitude of this rank: it lies between the midpoints to the neighbours, which
count if the rank is even. -/
def readsBack (rank p : Nat) (e : Int) : Bool :=
  let grid := gridUnits e
  let twice := 2 * p * grid.1
  let low := (units (rank - 1) + units rank) * grid.2
  let high := (units rank + units (rank + 1)) * grid.2
  if rank % 2 = 0 then low ≤ twice && twice ≤ high else low < twice && twice < high

/-- The multiple of `10 ^ e` that stands for a rank, if one rounds to it. -/
def gridPoint? (rank : Nat) (e : Int) : Option Nat :=
  let grid := gridUnits e
  let exact := units rank * grid.2
  let below := exact / grid.1
  match readsBack rank below e, readsBack rank (below + 1) e with
  | true, true => some (if 2 * (exact % grid.1) < grid.1 then below else below + 1)
  | true, false => some below
  | false, true => some (below + 1)
  | false, false => none

/-- The decimal on the coarsest grid that rounds to a positive rank. A grid coarser than the digits in front of
the point has none, and one of `10 ^ (-324)` has one for every rank. -/
def shortest (rank : Nat) : Decimal :=
  let whole := Nat.toDigits 10 (units rank / one)
  ((List.range 633).findSome? fun (i : Nat) =>
    let e : Int := (whole.length : Int) - (i : Int)
    (gridPoint? rank e).map (Decimal.mk · e)).getD ⟨0, 0⟩

/-- Positional notation, without an exponent. -/
def Decimal.toText (d : Decimal) : Text :=
  let digits := Nat.toDigits 10 d.digits
  if 0 ≤ d.exponent then digits ++ List.replicate d.exponent.toNat '0'
  else
    let places := (-d.exponent).toNat
    if places < digits.length then
      digits.take (digits.length - places) ++ '.' :: digits.drop (digits.length - places)
    else '0' :: '.' :: (List.replicate (places - digits.length) '0' ++ digits)

def magnitudeText (rank : Nat) : Text := if rank = 0 then ['0'] else (shortest rank).toText

def toText : Binary64 → Text
  | .finite negative rank => (if negative then ['-'] else []) ++ magnitudeText rank
  | .infinite negative => (if negative then ['-'] else []) ++ "inf".toList
  | .nan => "NaN".toList

end Relength.Binary64
