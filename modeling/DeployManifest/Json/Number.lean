import DeployManifest.Yaml.Value

/-!
# Numbers in JSON

Whole numbers that fit into 64 bits are kept as they are; all other numbers become doubles.

A double is computed from the first digits that fit into 64 bits: they are rounded, then scaled by a
power of ten, which rounds again.  Fractions further back are dropped.

- `Digits`: the digits that count, as a whole number, with the power of ten that goes with them.
- `Digits.double?`: the double they stand for, unless it would be infinite.
- `number?`: a number at the start of a text, and the characters behind it.
-/

namespace DeployManifest.Json

open Number (Double)
open Yaml (Value)

/-- The digits of a number: those that were kept, as a whole number, and the power of ten that they
    are to be scaled by. -/
structure Digits where
  kept : Nat
  power : Int

namespace Digits

/-- Whether another digit fits into 64 bits. -/
def fits (kept digit : Nat) : Bool := kept * 10 + digit < UInt64.size

/-- Adds digits in front of the point.  Behind the first one that does not fit, digits only count. -/
def addWhole (d : Digits) : List Nat → Digits
  | [] => d
  | digit :: rest =>
    if fits d.kept digit then addWhole { d with kept := d.kept * 10 + digit } rest
    else { d with power := d.power + (rest.length + 1) }

/-- Adds digits behind the point, up to the first one that does not fit. -/
def addFraction (d : Digits) : List Nat → Digits
  | [] => d
  | digit :: rest =>
    if fits d.kept digit then addFraction ⟨d.kept * 10 + digit, d.power - 1⟩ rest else d

end Digits

/-- The greatest power of ten that a double can hold. -/
def maxPower : Nat := 308

/-- The double next to a power of ten. -/
def powerOfTen (n : Nat) : Double := Double.nearest false (Nat.pow 10 n) 1

/-- A double times a power of ten. -/
def timesPower (x : Double) (n : Nat) : Double :=
  let (a, b) := x.ratio
  let (c, d) := (powerOfTen n).ratio
  Double.nearest false (a * c) (b * d)

/-- A double divided by a power of ten. -/
def overPower (x : Double) (n : Nat) : Double :=
  let (a, b) := x.ratio
  let (c, d) := (powerOfTen n).ratio
  Double.nearest false (a * d) (b * c)

/-- A double divided by a power of ten, in steps that doubles can hold.  Zero is reached in less than
    four steps, from any number of 64 bits. -/
def scaleDown (x : Double) (n : Nat) : Nat → Double
  | 0 => x
  | steps + 1 =>
    if n ≤ maxPower then overPower x n else scaleDown (overPower x maxPower) (n - maxPower) steps

/-- The double that digits stand for, if it is finite. -/
def Digits.double? (d : Digits) : Option Double :=
  let x := Double.nearest false d.kept 1
  if d.power < 0 then some (scaleDown x d.power.natAbs 4)
  else if d.kept = 0 then some x
  else if d.power.toNat ≤ maxPower then (some (timesPower x d.power.toNat)).filter Double.isFinite
  else none

/-- A double with a sign in front. -/
def signed (negative : Bool) (x : Double) : Double :=
  if negative then Double.ofMagnitude true x.magnitude else x

/-- The value of a digit. -/
def digitValue (c : Char) : Nat := c.toNat - '0'.toNat

/-- The exponent a number ends in, and what follows; `none` if it has no digits. -/
def exponent? (text : List Char) : Option (Int × List Char) :=
  let (negative, text) : Bool × List Char := match text with
    | '-' :: rest => (true, rest)
    | '+' :: rest => (false, rest)
    | _ => (false, text)
  let digits := text.takeWhile Char.isDigit
  if digits.isEmpty then none
  else
    let n : Int := digits.foldl (fun n c => n * 10 + digitValue c) 0
    some (if negative then -n else n, text.drop digits.length)

/-- A double with the given digits that may go on with an exponent. -/
def doubleWith? (negative : Bool) (d : Digits) (text : List Char) : Option (Value × List Char) := do
  let (power, rest) ← match text with
    | 'e' :: rest => exponent? rest
    | 'E' :: rest => exponent? rest
    | rest => some (0, rest)
  let x ← Digits.double? { d with power := d.power + power }
  return (.float (signed negative x), rest)

/-- A whole number that has no fraction and no exponent. -/
def whole? (negative : Bool) (d : Digits) : Option Value :=
  if d.power ≠ 0 then d.double?.map fun x => .float (signed negative x)
  else if !negative then some (.int d.kept)
  else if d.kept = 0 || -(d.kept : Int) < Int64.minValue.toInt then
    some (.float (signed true (Double.nearest false d.kept 1)))
  else some (.int (-(d.kept : Int)))

/-- The number a text starts with, behind its sign, and what follows. -/
def unsigned? (negative : Bool) (text : List Char) : Option (Value × List Char) :=
  let digits := text.takeWhile Char.isDigit
  let rest := text.drop digits.length
  if digits.isEmpty || (digits.head? = some '0' && digits.length > 1) then none
  else
    let d := Digits.addWhole ⟨0, 0⟩ (digits.map digitValue)
    match rest with
    | '.' :: rest =>
      let fraction := rest.takeWhile Char.isDigit
      if fraction.isEmpty then none
      else doubleWith? negative (d.addFraction (fraction.map digitValue)) (rest.drop fraction.length)
    | 'e' :: _ => doubleWith? negative d rest
    | 'E' :: _ => doubleWith? negative d rest
    | _ => (whole? negative d).map fun value => (value, rest)

/-- The number a text starts with, and what follows. -/
def number? : List Char → Option (Value × List Char)
  | '-' :: rest => unsigned? true rest
  | text => unsigned? false text

end DeployManifest.Json
