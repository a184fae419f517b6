/-!
# Double precision numbers

A number of 64 bits: a sign, eleven bits of exponent and 52 bits of fraction.  Everything is exact
arithmetic on whole numbers: a finite double is `significand · 2 ^ exponent`, and `nearest` rounds
a fraction to the double closest to it, the even one of two equally close ones.

Main definitions: `significand` and `exponent`, which give the value of a finite double; `same`, which tells
whether two doubles count as one number; `nearest` and `ofDecimal`, which round.
-/

namespace DeployManifest.Number

/-- A double by its bits. -/
structure Double where
  bits : UInt64
  deriving DecidableEq, Repr

namespace Double

/-- The weight of the sign bit, two to the 63. -/
def signWeight : Nat := 0x8000000000000000

/-- How many values the fraction field can have, two to the 52. -/
def fractions : Nat := 0x10000000000000

/-- Whether the sign bit is set. -/
def isNegative (x : Double) : Bool := x.bits.toNat ≥ signWeight

/-- The bits behind the sign. -/
def magnitude (x : Double) : Nat := x.bits.toNat % signWeight

/-- The exponent field. -/
def exponentField (x : Double) : Nat := x.bits.toNat / fractions % 2048

/-- The fraction field. -/
def fraction (x : Double) : Nat := x.bits.toNat % fractions

/-- Whether a double is none of the numbers: the exponent field is full and the fraction is not zero. -/
def isNaN (x : Double) : Bool := x.exponentField == 2047 && x.fraction != 0

/-- Whether a double is one of the two infinities. -/
def isInfinite (x : Double) : Bool := x.exponentField == 2047 && x.fraction == 0

/-- Whether a double is a number that digits can be written for. -/
def isFinite (x : Double) : Bool := x.exponentField != 2047

/-- The whole number in front of the power of two. -/
def significand (x : Double) : Nat :=
  if x.exponentField = 0 then x.fraction else fractions + x.fraction

/-- The power of two that goes with `significand`. -/
def exponent (x : Double) : Int := (max x.exponentField 1 : Nat) - 1075

/-- A double with the given sign, its other bits being those of `magnitude`. -/
def ofMagnitude (negative : Bool) (magnitude : Nat) : Double :=
  ⟨UInt64.ofNat ((if negative then signWeight else 0) + magnitude)⟩

/-- The zero with the given sign. -/
def zero (negative : Bool) : Double := ofMagnitude negative 0

/-- The infinity with the given sign. -/
def infinity (negative : Bool) : Double := ofMagnitude negative (2047 * fractions)

/-- The double that stands for no number when one has to be made. -/
def nan : Double := ofMagnitude false (2047 * fractions + fractions / 2)

/-- Whether two doubles count as the same number: the zeros do, and so do two that are none. -/
def same (x y : Double) : Bool :=
  if x.isNaN && y.isNaN then true
  else if x.magnitude = 0 && y.magnitude = 0 then true
  else x.bits == y.bits

/-- The quotient `n / d` rounded to the nearest whole number, a tie to the even one. -/
def roundQuotient (n d : Nat) : Nat :=
  let q := n / d
  let r := n % d
  if 2 * r < d then q else if d < 2 * r then q + 1 else q + q % 2

/-- The double nearest to `± n / d`, infinity if it is too large.  The significand is counted in
    units of `2 ^ e`; when rounding fills it up, the carry runs into the exponent field. -/
def nearest (negative : Bool) (n d : Nat) : Double :=
  if n = 0 then zero negative
  else
    let top : Int := (Nat.log2 n : Int) - Nat.log2 d - 52
    let unitsAt (e : Int) : Nat × Nat := (n <<< (-e).toNat, d <<< e.toNat)
    let e := max (-1074) <|
      if (unitsAt top).1 < (unitsAt top).2 * fractions then top - 1 else top
    let (n, d) := unitsAt e
    let magnitude := (e + 1074).toNat * fractions + roundQuotient n d
    if magnitude < 2047 * fractions then ofMagnitude negative magnitude else infinity negative

/-- The double nearest to `± digits · 10 ^ power`.  Numbers that are far out of range are not
    worked out. -/
def ofDecimal (negative : Bool) (digits : Nat) (power : Int) : Double :=
  let size : Int := (Nat.toDigits 10 digits).length + power
  if digits = 0 || size < -400 then zero negative
  else if size > 400 then infinity negative
  else nearest negative (digits * Nat.pow 10 power.toNat) (Nat.pow 10 (-power).toNat)

/-- A finite double without its sign as a fraction. -/
def ratio (x : Double) : Nat × Nat :=
  (x.significand <<< x.exponent.toNat, 1 <<< (-x.exponent).toNat)

end Double
end DeployManifest.Number
