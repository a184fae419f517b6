import DeployManifest.Number.Double

/-!
# The shortest decimal of a double

A finite double is written with the fewest digits that read back as the same double, and of those
with the digits closest to it.  `withDigits?` looks at the two neighbours of the number on ever finer
decimal grids; a point of a grid reads back if it lies between the halfway points to the next
doubles, which count as inside when the significand is even.

`Double.text` lays the digits out: positional from `0.00001` to below `10 ^ 16`, always with a
point, and with an exponent elsewhere.

Main definitions: `Decimal`, a number by its digits and its power of ten; `surroundings`, the bounds between
which a decimal reads back; `shortest`, the decimal that is chosen; `Double.text`, which writes it.
-/

namespace DeployManifest.Number

/-- A positive decimal `digits · 10 ^ power`. -/
structure Decimal where
  digits : Nat
  power : Int
  deriving DecidableEq, Repr

/-- The same decimal without zeros at its end, as far as `fuel` reaches. -/
def Decimal.trim (x : Decimal) : Nat → Decimal
  | 0 => x
  | fuel + 1 =>
    if x.digits % 10 = 0 && x.digits ≠ 0 then
      Decimal.trim ⟨x.digits / 10, x.power + 1⟩ fuel
    else x

namespace Double

/-- The power of ten of the leading digit of `n / d`. -/
def leadingPower (n d : Nat) : Int :=
  if d ≤ n then (Nat.toDigits 10 (n / d)).length - 1
  else -((Nat.toDigits 10 ((d - 1) / n)).length : Int)

/-- The halfway points below and above a positive finite double and the double itself, as
    numerators over one denominator.  Below a power of two the doubles lie twice as close. -/
def surroundings (x : Double) : Nat × Nat × Nat × Nat :=
  let below := if x.fraction = 0 && 1 < x.exponentField then 1 else 2
  let shift := (x.exponent - 2).toNat
  let m := 4 * x.significand
  ((m - below) <<< shift, m <<< shift, (m + 2) <<< shift, 1 <<< (2 - x.exponent).toNat)

/-- The decimal with `count` digits that is closest to the positive double `x`, if it reads back. -/
def withDigits? (x : Double) (count : Nat) : Option Decimal :=
  let (low, value, high, den) := x.surroundings
  let power := leadingPower value den - (count - 1 : Nat)
  let up := Nat.pow 10 (-power).toNat
  let unit := den * Nat.pow 10 power.toNat
  let even := x.significand % 2 = 0
  let floor := value * up / unit
  let reads (point : Nat) : Bool :=
    if even then low * up ≤ point * unit && point * unit ≤ high * up
    else low * up < point * unit && point * unit < high * up
  let closest := roundQuotient (value * up) unit
  let other := if closest = floor then floor + 1 else floor
  if reads closest then some ⟨closest, power⟩
  else if reads other then some ⟨other, power⟩
  else none

/-- The shortest decimal that reads back as the positive double `x`. -/
def shortest (x : Double) : Decimal :=
  let found := (List.range 17).findSome? fun n => x.withDigits? (n + 1)
  (found.getD ⟨x.significand, 0⟩).trim 20

/-- The layout of a decimal: positional for moderate sizes, with an exponent otherwise. -/
def layout (x : Decimal) : List Char :=
  let digits := Nat.toDigits 10 x.digits
  let point : Int := digits.length + x.power
  if 0 ≤ x.power && point ≤ 16 then
    digits ++ List.replicate x.power.toNat '0' ++ ['.', '0']
  else if 0 < point && point ≤ 16 then
    digits.take point.toNat ++ '.' :: digits.drop point.toNat
  else if -5 < point && point ≤ 0 then
    '0' :: '.' :: List.replicate (-point).toNat '0' ++ digits
  else
    digits.take 1 ++ (if digits.length = 1 then [] else '.' :: digits.drop 1) ++
      'e' :: (toString (point - 1)).toList

/-- The text of a double. -/
def text (x : Double) : String :=
  if x.isNaN then ".nan"
  else if x.isInfinite then (if x.isNegative then "-.inf" else ".inf")
  else
    let sign := if x.isNegative then ['-'] else []
    let body := if x.significand = 0 then ['0', '.', '0'] else layout x.shortest
    String.ofList (sign ++ body)

end Double
end DeployManifest.Number
