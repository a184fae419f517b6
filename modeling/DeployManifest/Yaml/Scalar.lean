import DeployManifest.Yaml.Value
import DeployManifest.Text.Search

/-!
# What plain scalars stand for

A scalar written without quotes is a null, a boolean, a number, or else a word that stands for
itself.  `resolve` decides which, in this order:

1. nothing at all, `~` and three spellings of `null`;
2. three spellings each of `true` and `false`;
3. whole numbers, decimal or with `0x`, `0o` or `0b` in front, of at most 128 bits;
4. decimal fractions that are finite as a double, and the spellings of infinity and not-a-number;
5. words.

Decimal digits with a needless leading zero are words: they are rather names than numbers.
-/

namespace DeployManifest.Yaml

open Number (Double)

/-- What a plain scalar stands for.  An integer may be too large for a tree. -/
inductive Plain where
  | null
  | bool (b : Bool)
  | int (n : Int)
  | float (x : Double)
  | word

namespace Plain

/-- Whether a plain scalar stands for nothing. -/
def isNull (text : String) : Bool :=
  text == "null" || text == "Null" || text == "NULL" || text == "~"

/-- The boolean that a plain scalar stands for. -/
def bool? (text : String) : Option Bool :=
  if text == "true" || text == "True" || text == "TRUE" then some true
  else if text == "false" || text == "False" || text == "FALSE" then some false
  else none

/-- The value of a character as a digit. -/
def digit? (c : Char) : Option Nat :=
  if '0' ≤ c && c ≤ '9' then some (c.toNat - 48)
  else if 'a' ≤ c && c ≤ 'f' then some (c.toNat - 87)
  else if 'A' ≤ c && c ≤ 'F' then some (c.toNat - 55)
  else none

/-- `digits` read on after `value`. -/
def natFrom? (base : Nat) (value : Nat) : List Char → Option Nat
  | [] => some value
  | c :: rest =>
    match digit? c with
    | some d => if d < base then natFrom? base (value * base + d) rest else none
    | none => none

/-- The value of a non-empty row of digits. -/
def nat? (base : Nat) : List Char → Option Nat
  | [] => none
  | digits => natFrom? base 0 digits

/-- Digits after a sign that start with a zero they do not need. -/
def hasNeedlessZero (text : List Char) : Bool :=
  let digits := match text with
    | '-' :: rest => rest
    | '+' :: rest => rest
    | _ => text
  match digits with
  | '0' :: d :: rest => (d :: rest).all Char.isDigit
  | _ => false

/-- The value of digits without a sign, in the base that the text in front of them names. -/
def unsigned? : List Char → Option Nat
  | '0' :: 'x' :: digits => nat? 16 digits
  | '0' :: 'o' :: digits => nat? 8 digits
  | '0' :: 'b' :: digits => nat? 2 digits
  | digits => nat? 10 digits

/-- A whole number of any size. -/
def whole? (text : List Char) : Option Int :=
  if hasNeedlessZero text then none
  else match text with
    | '-' :: rest => (unsigned? rest).map fun n => -(n : Int)
    | '+' :: rest => (unsigned? rest).map Int.ofNat
    | _ => (unsigned? text).map Int.ofNat

/-- How many numbers of 128 bits there are. -/
def size128 : Nat := UInt64.size * UInt64.size

/-- A whole number of at most 128 bits, with or without a sign. -/
def int? (text : List Char) : Option Int :=
  (whole? text).filter fun n => -((size128 / 2 : Nat) : Int) ≤ n && n < size128

/-- The exponent of a decimal fraction, zero if there is none. -/
def exponent? : List Char → Option Int
  | [] => some 0
  | e :: rest =>
    if e = 'e' || e = 'E' then
      match rest with
      | '-' :: digits => (nat? 10 digits).map fun n => -(n : Int)
      | '+' :: digits => (nat? 10 digits).map Int.ofNat
      | digits => (nat? 10 digits).map Int.ofNat
    else none

/-- A decimal fraction without a sign: digits with at most one point among them, then perhaps an
    exponent. -/
def fraction? (negative : Bool) (text : List Char) : Option Double :=
  let before := text.takeWhile Char.isDigit
  let rest := text.drop before.length
  let (after, rest) : List Char × List Char := match rest with
    | '.' :: rest => (rest.takeWhile Char.isDigit, rest.dropWhile Char.isDigit)
    | _ => ([], rest)
  match nat? 10 (before ++ after), exponent? rest with
  | some digits, some power => some (Double.ofDecimal negative digits (power - after.length))
  | _, _ => none

/-- A decimal fraction that is finite as a double. -/
def finite? (negative : Bool) (text : List Char) : Option Double :=
  (fraction? negative text).filter Double.isFinite

/-- A number in double precision. -/
def float? (text : String) : Option Double :=
  if text == ".nan" || text == ".NaN" || text == ".NAN" then some Double.nan
  else
    let (sign, body) : Option Char × List Char := match text.toList with
      | '-' :: rest => (some '-', rest)
      | '+' :: rest => (some '+', rest)
      | body => (none, body)
    let name := String.ofList body
    if name == ".inf" || name == ".Inf" || name == ".INF" then
      some (Double.infinity (sign == some '-'))
    else finite? (sign == some '-') body

/-- What the plain scalar `text` stands for. -/
def resolve (text : String) : Plain :=
  let chars := text.toList
  if chars.isEmpty || isNull text then .null
  else match bool? text with
    | some b => .bool b
    | none =>
      match int? chars with
      | some n => .int n
      | none =>
        if hasNeedlessZero chars then .word
        else match float? text with
          | some x => .float x
          | none => .word

end Plain
end DeployManifest.Yaml
