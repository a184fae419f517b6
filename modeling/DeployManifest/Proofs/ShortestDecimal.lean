import DeployManifest.Number.Shortest
import Mathlib.Algebra.Order.Field.Power
import Mathlib.Data.Rat.Cast.Order
import Mathlib.Tactic.FieldSimp
import Mathlib.Tactic.Linarith
import Mathlib.Tactic.NormNum
import Mathlib.Tactic.Positivity
import Mathlib.Tactic.Ring

/-!
# Shortest decimals read back

A number reads as a double if it lies between the halfway points around it (`Double.IsReadFrom`).
The shortest decimal of a double reads as that double: seventeen digits always suffice, since the
grid with so many digits is finer than the distance of the halfway points, and on coarser grids only
points that read back are taken.  Neighbours share the halfway point between them, which only the
even one of the two takes, so that no number reads as two doubles.

Main statements: `Double.isReadFrom_shortest` and `Double.magnitude_eq_of_isReadFrom`.

- `Double.quarter`, `Double.gapBelow`: the units in which the surroundings of a double are measured.
- `roundQuotient_le`, `pow_leadingPower_le`: the arithmetic of the grids.
- `Double.readsBack_iff`: the test that the search makes.
- `halfway`, `halfway_strictMono`: the points between neighbours, numbered by the magnitude.
-/

namespace DeployManifest.Number

/-- What a decimal stands for. -/
def Decimal.value (x : Decimal) : ℚ := x.digits * 10 ^ x.power

/-- Zeros at the end of the digits go into the power of ten, so the number stays the same. -/
theorem Decimal.value_trim (x : Decimal) (fuel : Nat) : (x.trim fuel).value = x.value := by
  induction fuel generalizing x with
  | zero => rfl
  | succ fuel ih =>
    unfold trim
    split
    · next ends =>
      -- only zeros are dropped
      have exact_division : x.digits = x.digits / 10 * 10 := by
        have := (Bool.and_eq_true_iff.mp ends).1
        have zero : x.digits % 10 = 0 := by simpa using this
        omega
      have split_digits : (x.digits : ℚ) = ((x.digits / 10 : ℕ) : ℚ) * 10 := by
        exact_mod_cast exact_division
      rw [ih]
      unfold value
      rw [split_digits, zpow_add_one₀ (by norm_num : (10 : ℚ) ≠ 0)]
      ring
    · rfl

/-- A power with any exponent as a quotient of two powers with natural ones, one of which is zero. -/
theorem zpow_eq_div (b : ℚ) (z : ℤ) :
    b ^ z = b ^ z.toNat / b ^ (-z).toNat := by
  rcases le_total 0 z with above | below
  · have none_below : (-z).toNat = 0 := by omega
    have same : ((z.toNat : ℕ) : ℤ) = z := by omega
    rw [none_below, pow_zero, div_one, ← zpow_natCast, same]
  · have none_above : z.toNat = 0 := by omega
    have same : (((-z).toNat : ℕ) : ℤ) = -z := by omega
    rw [none_above, pow_zero, ← zpow_natCast, same, zpow_neg, one_div, inv_inv]

namespace Double

/-- A rounded quotient is at most half a unit away from the quotient. -/
theorem roundQuotient_le (n : Nat) {d : Nat} (positive : 0 < d) :
    2 * (roundQuotient n d * d) ≤ 2 * n + d ∧ 2 * n ≤ 2 * (roundQuotient n d * d) + d := by
  have division : n / d * d + n % d = n := by
    rw [Nat.mul_comm]
    exact Nat.div_add_mod n d
  have small : n % d < d := Nat.mod_lt n positive
  have next : (n / d + 1) * d = n / d * d + d := by ring
  have parity : n / d % 2 = 0 ∨ n / d % 2 = 1 := Nat.mod_two_eq_zero_or_one _
  unfold roundQuotient
  dsimp only
  -- rounded down, up, or to an even number half way
  split
  · omega
  · split
    · rw [next]
      omega
    · rcases parity with even | odd
      · rw [even, Nat.add_zero]
        omega
      · rw [odd, next]
        omega

/-- The power of the leading digit does not exceed the number. -/
theorem pow_leadingPower_le {n d : Nat} (above : 0 < n) (below : 0 < d) :
    (10 : ℚ) ^ leadingPower n d ≤ n / d := by
  have positive : (0 : ℚ) < d := by exact_mod_cast below
  unfold leadingPower
  split
  -- the digits in front of the point are counted, or the zeros behind it
  · next large =>
    have quotient : 0 < n / d := Nat.div_pos large below
    have lower : 10 ^ ((Nat.toDigits 10 (n / d)).length - 1) ≤ n / d := by
      rcases Nat.eq_zero_or_pos ((Nat.toDigits 10 (n / d)).length - 1) with zero | more
      · rw [zero, pow_zero]
        exact quotient
      · by_contra less
        have := (Nat.length_toDigits_le_iff (by norm_num) more).mpr (Nat.lt_of_not_le less)
        omega
    have count : ((Nat.toDigits 10 (n / d)).length : ℤ) - 1 =
        (((Nat.toDigits 10 (n / d)).length - 1 : ℕ) : ℤ) := by
      have := @Nat.length_toDigits_pos 10 (n / d)
      omega
    have scaled : 10 ^ ((Nat.toDigits 10 (n / d)).length - 1) * d ≤ n :=
      (Nat.le_div_iff_mul_le below).mp lower
    rw [count, zpow_natCast, le_div_iff₀ positive]
    exact_mod_cast scaled
  · next small =>
    have upper : (d - 1) / n < 10 ^ (Nat.toDigits 10 ((d - 1) / n)).length :=
      (Nat.length_toDigits_le_iff (by norm_num) Nat.length_toDigits_pos).mp (Nat.le_refl _)
    have scaled : d ≤ n * 10 ^ (Nat.toDigits 10 ((d - 1) / n)).length := by
      have := (Nat.div_lt_iff_lt_mul above).mp upper
      rw [Nat.mul_comm]
      omega
    rw [zpow_neg, zpow_natCast, le_div_iff₀ positive, inv_mul_le_iff₀ (by positivity), mul_comm]
    exact_mod_cast scaled

/-! ## The numbers that read as a double -/

/-- How far the halfway point below a double is away, in quarters of its unit. -/
def gapBelow (x : Double) : Nat := if x.fraction = 0 && 1 < x.exponentField then 1 else 2

/-- A quarter of the unit that the significand counts. -/
def quarter (x : Double) : ℚ := 2 ^ (x.exponent - 2)

/-- Whether a positive number reads as the positive double `x`: it lies between the halfway points
    around it, which count if the significand is even. -/
def IsReadFrom (x : Double) (q : ℚ) : Prop :=
  let low := (4 * x.significand - x.gapBelow : ℚ) * x.quarter
  let high := (4 * x.significand + 2 : ℚ) * x.quarter
  if x.significand % 2 = 0 then low ≤ q ∧ q ≤ high else low < q ∧ q < high

theorem quarter_pos (x : Double) : 0 < x.quarter := by
  unfold quarter
  positivity

/-- The halfway point below is two of these units away at most. -/
theorem gapBelow_le (x : Double) : x.gapBelow ≤ 2 := by
  unfold gapBelow
  split <;> omega

/-- A number of quarters, as a quotient over the denominator of the surroundings. -/
theorem quarters_eq_div (x : Double) (m : Nat) :
    (m : ℚ) * x.quarter =
      (m <<< (x.exponent - 2).toNat : ℕ) / (1 <<< (2 - x.exponent).toNat : ℕ) := by
  have turned : -(x.exponent - 2) = 2 - x.exponent := by ring
  unfold quarter
  rw [zpow_eq_div, turned, Nat.shiftLeft_eq, Nat.shiftLeft_eq]
  push_cast
  ring

/-- A point of the decimal grid lies behind a number of quarters if it does so in whole numbers. -/
theorem scaled_le_scaled_iff {a den point : Nat} {power : ℤ} (positive : 0 < den) :
    a * Nat.pow 10 (-power).toNat ≤ point * (den * Nat.pow 10 power.toNat) ↔
      (a : ℚ) / den ≤ point * 10 ^ power := by
  have den_pos : (0 : ℚ) < den := by exact_mod_cast positive
  have up_pos : (0 : ℚ) < 10 ^ (-power).toNat := by positivity
  rw [zpow_eq_div, ← mul_div_assoc, div_le_div_iff₀ den_pos up_pos]
  have commuted : (point : ℚ) * 10 ^ power.toNat * den = point * (den * 10 ^ power.toNat) := by ring
  rw [commuted]
  norm_cast

/-- The same comparison with the sides exchanged. -/
theorem scaled_ge_scaled_iff {a den point : Nat} {power : ℤ} (positive : 0 < den) :
    point * (den * Nat.pow 10 power.toNat) ≤ a * Nat.pow 10 (-power).toNat ↔
      point * 10 ^ power ≤ (a : ℚ) / den := by
  have den_pos : (0 : ℚ) < den := by exact_mod_cast positive
  have up_pos : (0 : ℚ) < 10 ^ (-power).toNat := by positivity
  rw [zpow_eq_div, ← mul_div_assoc, div_le_div_iff₀ up_pos den_pos]
  have commuted : (point : ℚ) * 10 ^ power.toNat * den = point * (den * 10 ^ power.toNat) := by ring
  rw [commuted]
  norm_cast

/-! ## The search on one grid -/

/-- The positive double `x` as a quotient. -/
def numerator (x : Double) : Nat := x.surroundings.2.1

/-- The denominator that the bounds of a double share. -/
def denominator (x : Double) : Nat := x.surroundings.2.2.2

/-- The step of the grid with `count` digits, as a power of ten. -/
def gridPower (x : Double) (count : Nat) : ℤ :=
  leadingPower x.numerator x.denominator - (count - 1 : Nat)

/-- The point of the grid that is closest to `x`. -/
def closestPoint (x : Double) (power : ℤ) : Nat :=
  roundQuotient (x.numerator * Nat.pow 10 (-power).toNat) (x.denominator * Nat.pow 10 power.toNat)

/-- The point on the other side of `x`. -/
def otherPoint (x : Double) (power : ℤ) : Nat :=
  let floor := x.numerator * Nat.pow 10 (-power).toNat / (x.denominator * Nat.pow 10 power.toNat)
  if x.closestPoint power = floor then floor + 1 else floor

/-- Whether a point of the grid reads back, worked out in whole numbers. -/
def readsBack (x : Double) (power : ℤ) (point : Nat) : Bool :=
  let up := Nat.pow 10 (-power).toNat
  let unit := x.denominator * Nat.pow 10 power.toNat
  if x.significand % 2 = 0 then
    x.surroundings.1 * up ≤ point * unit && point * unit ≤ x.surroundings.2.2.1 * up
  else x.surroundings.1 * up < point * unit && point * unit < x.surroundings.2.2.1 * up

/-- The search for a number of digits: the closest point of the grid if it reads back, or one of its
    neighbours. -/
theorem withDigits?_eq (x : Double) (count : Nat) :
    x.withDigits? count =
      let power := x.gridPower count
      if x.readsBack power (x.closestPoint power) then some ⟨x.closestPoint power, power⟩
      else if x.readsBack power (x.otherPoint power) then some ⟨x.otherPoint power, power⟩
      else none := rfl

theorem denominator_pos (x : Double) : 0 < x.denominator := by
  show 0 < 1 <<< (2 - x.exponent).toNat
  rw [Nat.shiftLeft_eq]
  positivity

/-- The lower bound, in the units of the double. -/
theorem low_eq {x : Double} (positive : 0 < x.significand) :
    (x.surroundings.1 : ℚ) / x.denominator = (4 * x.significand - x.gapBelow) * x.quarter := by
  have gap := x.gapBelow_le
  have room : x.gapBelow ≤ 4 * x.significand := by omega
  have quarters := quarters_eq_div x (4 * x.significand - x.gapBelow)
  push_cast [room] at quarters
  rw [quarters]
  rfl

/-- The upper bound, in the units of the double. -/
theorem high_eq (x : Double) :
    (x.surroundings.2.2.1 : ℚ) / x.denominator = (4 * x.significand + 2) * x.quarter := by
  have quarters := quarters_eq_div x (4 * x.significand + 2)
  push_cast at quarters
  rw [quarters]
  rfl

/-- The number itself, in the same units. -/
theorem value_eq (x : Double) :
    (x.numerator : ℚ) / x.denominator = 4 * x.significand * x.quarter := by
  have quarters := quarters_eq_div x (4 * x.significand)
  push_cast at quarters
  rw [quarters]
  rfl

/-- The test for points of a grid is right: it passes those that read as the double. -/
theorem readsBack_iff {x : Double} (positive : 0 < x.significand) (power : ℤ) (point : Nat) :
    x.readsBack power point = true ↔ x.IsReadFrom (point * 10 ^ power) := by
  have den := x.denominator_pos
  unfold readsBack IsReadFrom
  dsimp only
  rw [← low_eq positive, ← high_eq]
  split
  · rw [Bool.and_eq_true, decide_eq_true_eq, decide_eq_true_eq, scaled_le_scaled_iff den,
      scaled_ge_scaled_iff den]
  · rw [Bool.and_eq_true, decide_eq_true_eq, decide_eq_true_eq, ← Nat.not_le, ← Nat.not_le,
      scaled_le_scaled_iff den, scaled_ge_scaled_iff den, not_le, not_le]

/-- Whatever decimal the search finds reads as the double. -/
theorem isReadFrom_of_withDigits? {x : Double} (positive : 0 < x.significand) {count : Nat}
    {d : Decimal} (found : x.withDigits? count = some d) : x.IsReadFrom d.value := by
  rw [withDigits?_eq] at found
  dsimp only at found
  split at found
  · next reads =>
    obtain rfl := Option.some.inj found
    exact (readsBack_iff positive _ _).mp reads
  · split at found
    · next reads =>
      obtain rfl := Option.some.inj found
      exact (readsBack_iff positive _ _).mp reads
    · nomatch found

/-! ## Seventeen digits always suffice -/

/-- The closest point is at most half a step away. -/
theorem closestPoint_le (x : Double) (power : ℤ) :
    2 * (x.closestPoint power * 10 ^ power) ≤ 2 * (4 * x.significand * x.quarter) + 10 ^ power ∧
    2 * (4 * x.significand * x.quarter) ≤ 2 * (x.closestPoint power * 10 ^ power) + 10 ^ power := by
  have den := x.denominator_pos
  have unit_pos : 0 < x.denominator * Nat.pow 10 power.toNat :=
    Nat.mul_pos den (Nat.pow_pos (by norm_num))
  have ⟨above, below⟩ := roundQuotient_le (x.numerator * Nat.pow 10 (-power).toNat) unit_pos
  have den_pos : (0 : ℚ) < x.denominator := by exact_mod_cast den
  have up_pos : (0 : ℚ) < 10 ^ (-power).toNat := by positivity
  have scale_pos : (0 : ℚ) < x.denominator * 10 ^ (-power).toNat := mul_pos den_pos up_pos
  have above : 2 * ((x.closestPoint power : ℚ) * (x.denominator * 10 ^ power.toNat)) ≤
      2 * (x.numerator * 10 ^ (-power).toNat) + x.denominator * 10 ^ power.toNat := by
    exact_mod_cast above
  have below : 2 * ((x.numerator : ℚ) * 10 ^ (-power).toNat) ≤
      2 * (x.closestPoint power * (x.denominator * 10 ^ power.toNat)) +
        x.denominator * 10 ^ power.toNat := by
    exact_mod_cast below
  -- the bounds are those of rounding, up to the common denominator
  rw [← value_eq, zpow_eq_div]
  constructor
  · rw [← mul_le_mul_iff_left₀ scale_pos]
    field_simp
    linarith
  · rw [← mul_le_mul_iff_left₀ scale_pos]
    field_simp
    linarith

theorem significand_lt (x : Double) : x.significand < 2 * fractions := by
  have small : x.fraction < fractions := Nat.mod_lt _ (by decide)
  unfold significand
  split <;> omega

/-- The step of the grid with seventeen digits is finer than the distance of the halfway points. -/
theorem step_lt {x : Double} (positive : 0 < x.significand) :
    (10 : ℚ) ^ x.gridPower 17 < 2 * x.gapBelow * x.quarter := by
  have num_pos : 0 < x.numerator := by
    show 0 < (4 * x.significand) <<< (x.exponent - 2).toNat
    rw [Nat.shiftLeft_eq]
    positivity
  have leading := pow_leadingPower_le num_pos x.denominator_pos
  rw [value_eq] at leading
  have quarter := x.quarter_pos
  have step : (10 : ℚ) ^ x.gridPower 17 * 10 ^ 16 ≤ 4 * x.significand * x.quarter := by
    unfold gridPower
    rw [zpow_sub₀ (by norm_num)]
    simpa using leading
  -- where the gap below is narrow the significand is a power of two, and it never has more than 53 bits
  have few : 4 * x.significand < 2 * x.gapBelow * 10 ^ 16 := by
    have bound := x.significand_lt
    unfold gapBelow
    split
    · next sparse =>
      have ⟨whole, scaled⟩ : x.fraction = 0 ∧ 1 < x.exponentField := by simpa using sparse
      have exact_power : x.significand = fractions := by
        unfold significand
        rw [if_neg (by omega), whole, Nat.add_zero]
      rw [exact_power]
      decide
    · unfold fractions at bound
      omega
  have few : (4 * x.significand : ℚ) < 2 * x.gapBelow * 10 ^ 16 := by exact_mod_cast few
  have scaled : 4 * x.significand * x.quarter < 2 * x.gapBelow * 10 ^ 16 * x.quarter :=
    mul_lt_mul_of_pos_right few quarter
  linarith

/-- On the grid with seventeen digits the closest point reads as the double. -/
theorem isReadFrom_closestPoint {x : Double} (positive : 0 < x.significand) :
    x.IsReadFrom (x.closestPoint (x.gridPower 17) * 10 ^ x.gridPower 17) := by
  have ⟨above, below⟩ := x.closestPoint_le (x.gridPower 17)
  have step := step_lt positive
  have quarter := x.quarter_pos
  have gap : (x.gapBelow : ℚ) ≤ 2 := by exact_mod_cast x.gapBelow_le
  -- a step of the grid is shorter than the interval that is read as the double
  have wide : x.gapBelow * x.quarter ≤ 2 * x.quarter := mul_le_mul_of_nonneg_right gap quarter.le
  have low : (4 * x.significand - x.gapBelow) * x.quarter <
      x.closestPoint (x.gridPower 17) * 10 ^ x.gridPower 17 := by linarith
  have high : x.closestPoint (x.gridPower 17) * 10 ^ x.gridPower 17 <
      (4 * x.significand + 2) * x.quarter := by linarith
  unfold IsReadFrom
  dsimp only
  split
  · exact ⟨low.le, high.le⟩
  · exact ⟨low, high⟩

/-- So with seventeen digits the search succeeds. -/
theorem withDigits?_seventeen {x : Double} (positive : 0 < x.significand) :
    (x.withDigits? 17).isSome := by
  have reads := (readsBack_iff positive _ _).mpr (isReadFrom_closestPoint positive)
  rw [withDigits?_eq]
  dsimp only
  rw [if_pos reads]
  rfl

/-- The shortest decimal of a positive double reads back. -/
theorem isReadFrom_shortest {x : Double} (positive : 0 < x.significand) :
    x.IsReadFrom x.shortest.value := by
  unfold shortest
  dsimp only
  rw [Decimal.value_trim]
  cases found : (List.range 17).findSome? fun n => x.withDigits? (n + 1) with
  | none =>
    have missing := List.findSome?_eq_none_iff.mp found 16 (by decide)
    have present := withDigits?_seventeen positive
    rw [missing] at present
    nomatch present
  | some d =>
    obtain ⟨n, -, here⟩ := List.exists_of_findSome?_eq_some found
    exact isReadFrom_of_withDigits? positive here

/-! ## Different doubles are read from different numbers -/

/-- The significand of the double of a magnitude. -/
def significandAt (magnitude : Nat) : Nat :=
  if magnitude / fractions = 0 then magnitude % fractions else fractions + magnitude % fractions

/-- The halfway point below the double of a magnitude, in quarters of the least double. -/
def halfway (magnitude : Nat) : Nat :=
  let gap := if magnitude % fractions = 0 && 1 < magnitude / fractions then 1 else 2
  (4 * significandAt magnitude - gap) * 2 ^ (magnitude / fractions - 1)

/-- The halfway point above a double is the one below the next double. -/
theorem halfway_succ (magnitude : Nat) :
    halfway (magnitude + 1) =
      (4 * significandAt magnitude + 2) * 2 ^ (magnitude / fractions - 1) := by
  have small : magnitude % fractions < fractions := Nat.mod_lt _ (by decide)
  rcases Nat.lt_or_ge (magnitude % fractions + 1) fractions with room | full
  · have field : (magnitude + 1) / fractions = magnitude / fractions := by
      unfold fractions at *
      omega
    have rest : (magnitude + 1) % fractions = magnitude % fractions + 1 := by
      unfold fractions at *
      omega
    have next : significandAt (magnitude + 1) = significandAt magnitude + 1 := by
      unfold significandAt
      rw [field, rest]
      split <;> omega
    have gap : 4 * (significandAt magnitude + 1) - 2 = 4 * significandAt magnitude + 2 := by omega
    unfold halfway
    rw [field, rest, next]
    simpa using gap
  · -- The fraction is full: the next double is the first one with the next exponent.
    have field : (magnitude + 1) / fractions = magnitude / fractions + 1 := by
      unfold fractions at *
      omega
    have rest : (magnitude + 1) % fractions = 0 := by
      unfold fractions at *
      omega
    have filled : magnitude % fractions = fractions - 1 := by omega
    have next : significandAt (magnitude + 1) = fractions := by
      unfold significandAt
      rw [field, rest, if_neg (Nat.succ_ne_zero _), Nat.add_zero]
    unfold halfway
    rw [field, rest, next]
    unfold significandAt
    rw [filled]
    cases magnitude / fractions with
    | zero => decide +kernel
    | succ field =>
      have doubled : 4 * (fractions + (fractions - 1)) + 2 = (4 * fractions - 1) * 2 := by decide
      simp only [Nat.add_sub_cancel, pow_succ, if_neg (Nat.succ_ne_zero field), doubled]
      simp [Nat.mul_assoc, Nat.mul_comm 2]

/-- The halfway points rise with the magnitude. -/
theorem halfway_strictMono : StrictMono halfway := by
  apply strictMono_nat_of_lt_succ
  intro magnitude
  have positive : 0 < 2 ^ (magnitude / fractions - 1) := by positivity
  rw [halfway_succ]
  unfold halfway
  apply Nat.mul_lt_mul_of_pos_right _ positive
  omega

theorem magnitude_eq (x : Double) :
    x.magnitude / fractions = x.exponentField ∧ x.magnitude % fractions = x.fraction := by
  unfold magnitude exponentField fraction fractions signWeight
  omega

theorem significand_eq (x : Double) : x.significand = significandAt x.magnitude := by
  have ⟨field, rest⟩ := x.magnitude_eq
  unfold significand significandAt
  rw [field, rest]

/-- A quarter of the least double. -/
def leastQuarter : ℚ := 2 ^ (-1076 : ℤ)

theorem leastQuarter_pos : 0 < leastQuarter := by
  unfold leastQuarter
  positivity

/-- The unit of a double is that of the smallest ones, doubled for every further exponent. -/
theorem quarter_eq (x : Double) :
    x.quarter = 2 ^ (x.magnitude / fractions - 1) * leastQuarter := by
  have power : x.exponent - 2 = ((x.exponentField - 1 : ℕ) : ℤ) + (-1076) := by
    unfold exponent
    omega
  unfold quarter leastQuarter
  rw [x.magnitude_eq.1, power, zpow_add₀ (by norm_num), zpow_natCast]

/-- The lower bound of a double is the halfway point below its magnitude. -/
theorem low_eq_halfway {x : Double} (positive : 0 < x.significand) :
    (4 * x.significand - x.gapBelow : ℚ) * x.quarter = halfway x.magnitude * leastQuarter := by
  have ⟨field, rest⟩ := x.magnitude_eq
  have room : x.gapBelow ≤ 4 * x.significand := by
    have gap := x.gapBelow_le
    omega
  have point : halfway x.magnitude =
      (4 * x.significand - x.gapBelow) * 2 ^ (x.magnitude / fractions - 1) := by
    unfold halfway gapBelow
    rw [← significand_eq, field, rest]
  rw [point, quarter_eq]
  push_cast [room]
  ring

/-- The upper bound is the halfway point below the next magnitude. -/
theorem high_eq_halfway (x : Double) :
    (4 * x.significand + 2 : ℚ) * x.quarter = halfway (x.magnitude + 1) * leastQuarter := by
  rw [halfway_succ, ← significand_eq, quarter_eq]
  push_cast
  ring

/-- What reads as a double lies between the two halfway points, ends included. -/
theorem IsReadFrom.bounds {x : Double} {q : ℚ} (positive : 0 < x.significand)
    (read : x.IsReadFrom q) :
    halfway x.magnitude * leastQuarter ≤ q ∧ q ≤ halfway (x.magnitude + 1) * leastQuarter := by
  unfold IsReadFrom at read
  rw [← low_eq_halfway positive, ← high_eq_halfway]
  dsimp only at read
  split at read
  · exact read
  · exact ⟨read.1.le, read.2.le⟩

/-- A number between two neighbours is read as the even one. -/
theorem IsReadFrom.even_of_eq {x : Double} {q : ℚ} (read : x.IsReadFrom q)
    (halfway_above : q = halfway (x.magnitude + 1) * leastQuarter) : x.significand % 2 = 0 := by
  unfold IsReadFrom at read
  dsimp only at read
  by_contra odd
  rw [if_neg odd, high_eq_halfway, ← halfway_above] at read
  exact absurd read.2 (lt_irrefl q)

/-- The lower halfway point reads as the double only if the double is the even one. -/
theorem IsReadFrom.even_of_eq' {x : Double} {q : ℚ} (positive : 0 < x.significand)
    (read : x.IsReadFrom q) (halfway_below : q = halfway x.magnitude * leastQuarter) :
    x.significand % 2 = 0 := by
  unfold IsReadFrom at read
  dsimp only at read
  by_contra odd
  rw [if_neg odd, low_eq_halfway positive, ← halfway_below] at read
  exact absurd read.1 (lt_irrefl q)

theorem significandAt_mod_two (magnitude : Nat) : significandAt magnitude % 2 = magnitude % 2 := by
  unfold significandAt fractions
  split <;> omega

/-- Of two doubles that a number reads as, neither is larger: the halfway point between them would be the
    number, and only one of them is even. -/
theorem magnitude_le_of_isReadFrom {x y : Double} {q : ℚ} (x_pos : 0 < x.significand)
    (y_pos : 0 < y.significand) (x_read : x.IsReadFrom q) (y_read : y.IsReadFrom q) :
    y.magnitude ≤ x.magnitude := by
  by_contra above
  have points : halfway (x.magnitude + 1) ≤ halfway y.magnitude :=
    halfway_strictMono.monotone (by omega)
  have points : halfway (x.magnitude + 1) * leastQuarter ≤ halfway y.magnitude * leastQuarter :=
    mul_le_mul_of_nonneg_right (by exact_mod_cast points) leastQuarter_pos.le
  have upper := (x_read.bounds x_pos).2
  have lower := (y_read.bounds y_pos).1
  -- The number is the point halfway between the two, so they are neighbours and both even.
  have same : halfway (x.magnitude + 1) = halfway y.magnitude := by
    have joined := le_antisymm points (lower.trans upper)
    exact_mod_cast mul_right_cancel₀ leastQuarter_pos.ne' joined
  have next : x.magnitude + 1 = y.magnitude := halfway_strictMono.injective same
  have x_even := x_read.even_of_eq (le_antisymm upper (points.trans lower))
  have y_even := y_read.even_of_eq' y_pos (le_antisymm (upper.trans points) lower)
  rw [significand_eq, significandAt_mod_two] at x_even y_even
  omega

/-- No number is read as two different doubles. -/
theorem magnitude_eq_of_isReadFrom {x y : Double} {q : ℚ} (x_pos : 0 < x.significand)
    (y_pos : 0 < y.significand) (x_read : x.IsReadFrom q) (y_read : y.IsReadFrom q) :
    x.magnitude = y.magnitude :=
  Nat.le_antisymm (magnitude_le_of_isReadFrom y_pos x_pos y_read x_read)
    (magnitude_le_of_isReadFrom x_pos y_pos x_read y_read)

end Double
end DeployManifest.Number
