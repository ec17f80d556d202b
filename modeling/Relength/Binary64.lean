/-!
# Binary floating point of 64 bits

A finite number is a sign and the rank of its magnitude among all finite magnitudes: rank 0 is zero, rank 1 the
least subnormal number, and the next rank is the next number up. Every magnitude is a whole number of units of
`2 ^ (-1074)` (`units`), so each operation is exact arithmetic on naturals followed by one rounding to the
nearest magnitude, ties to even (`ofRatio`).
-/

namespace Relength

/-- The rank behind the last finite magnitude. -/
def Binary64.limit : Nat := 0x7FF * Nat.pow 2 52

inductive Binary64 where
  | finite (negative : Bool) (rank : Fin Binary64.limit)
  | infinite (negative : Bool)
  | nan
  deriving DecidableEq, Repr

namespace Binary64

/-- The units in 1. -/
def one : Nat := Nat.pow 2 1074

/-- The magnitude of a rank, in units. -/
def units (rank : Nat) : Nat :=
  let exponent := rank / Nat.pow 2 52
  let fraction := rank % Nat.pow 2 52
  if exponent = 0 then fraction else (Nat.pow 2 52 + fraction) * Nat.pow 2 (exponent - 1)

/-- The natural number nearest to a quotient, of two equally near the even one. -/
def roundHalfEven (n d : Nat) : Nat :=
  let q := n / d
  let twice := 2 * (n % d)
  if twice < d then q else if d < twice then q + 1 else q + q % 2

/-- The rank of the magnitude nearest to `n / d` units. With `s` binary digits beyond the first 53, the ranks
step by `2 ^ s` units. -/
def nearestRank (n d : Nat) : Nat :=
  let s := Nat.log2 (n / d) - 52
  s * Nat.pow 2 52 + roundHalfEven n (d * Nat.pow 2 s)

/-- The number nearest to `n / d` units under a sign. -/
def ofRatio (negative : Bool) (n d : Nat) : Binary64 :=
  if h : nearestRank n d < limit then .finite negative ⟨nearestRank n d, h⟩ else .infinite negative

def zero : Binary64 := .finite false ⟨0, by decide⟩

def ofNat (n : Nat) : Binary64 := ofRatio false (n * one) 1

def isFinite : Binary64 → Bool
  | .finite .. => true
  | _ => false

/-- Zero of either sign. -/
def isZero : Binary64 → Bool
  | .finite _ rank => rank.val == 0
  | _ => false

/-- The sign bit; not-a-number has none. -/
def isNegative : Binary64 → Bool
  | .finite negative _ => negative
  | .infinite negative => negative
  | .nan => false

def withSign (negative : Bool) : Binary64 → Binary64
  | .finite _ rank => .finite negative rank
  | .infinite _ => .infinite negative
  | .nan => .nan

def abs (x : Binary64) : Binary64 := x.withSign false

def neg (x : Binary64) : Binary64 := x.withSign (!x.isNegative)

def add : Binary64 → Binary64 → Binary64
  | .finite s a, .finite t b =>
    let a := units a
    let b := units b
    if s = t then ofRatio s (a + b) 1
    else if a = b then zero
    else if b < a then ofRatio s (a - b) 1
    else ofRatio t (b - a) 1
  | .infinite s, .infinite t => if s = t then .infinite s else .nan
  | .infinite s, .finite .. => .infinite s
  | .finite .., .infinite t => .infinite t
  | .nan, _ => .nan
  | _, .nan => .nan

def mul : Binary64 → Binary64 → Binary64
  | .finite s a, .finite t b => ofRatio (s != t) (units a * units b) one
  | .infinite s, .infinite t => .infinite (s != t)
  | .infinite s, .finite t b => if b.val = 0 then .nan else .infinite (s != t)
  | .finite s a, .infinite t => if a.val = 0 then .nan else .infinite (s != t)
  | .nan, _ => .nan
  | _, .nan => .nan

def div : Binary64 → Binary64 → Binary64
  | .finite s a, .finite t b =>
    if b.val = 0 then (if a.val = 0 then .nan else .infinite (s != t))
    else ofRatio (s != t) (units a * one) (units b)
  | .infinite _, .infinite _ => .nan
  | .infinite s, .finite t _ => .infinite (s != t)
  | .finite s _, .infinite t => .finite (s != t) ⟨0, by decide⟩
  | .nan, _ => .nan
  | _, .nan => .nan

instance : Neg Binary64 := ⟨neg⟩
instance : Add Binary64 := ⟨add⟩
instance : Mul Binary64 := ⟨mul⟩
instance : Div Binary64 := ⟨div⟩

@[simp] theorem isFinite_neg (x : Binary64) : (-x).isFinite = x.isFinite := by
  cases x <;> rfl

theorem isFinite_of_isZero {x : Binary64} (h : x.isZero = true) : x.isFinite = true := by
  cases x with
  | finite => rfl
  | infinite => cases h
  | nan => cases h

@[simp] theorem isZero_neg (x : Binary64) : (-x).isZero = x.isZero := by
  cases x <;> rfl

/-- Strictly below, as real numbers; not-a-number is below nothing and nothing is below it. -/
def less : Binary64 → Binary64 → Bool
  | .nan, _ => false
  | _, .nan => false
  | .finite false a, .finite false b => a < b
  | .finite true a, .finite true b => b < a
  | .finite true a, .finite false b => !(a.val == 0 && b.val == 0)
  | .finite false _, .finite true _ => false
  | .infinite s, .infinite t => s && !t
  | .infinite s, .finite .. => s
  | .finite .., .infinite t => !t

/-- Toward zero to a whole number. -/
def truncate : Binary64 → Binary64
  | .finite s a => ofRatio s (units a / one * one) 1
  | x => x

/-- To the nearest whole number, a half away from zero. -/
def round : Binary64 → Binary64
  | .finite s a => ofRatio s ((2 * units a + one) / (2 * one) * one) 1
  | x => x

end Binary64

end Relength
