import DeployManifest.Proofs.ShortestDecimal

/-!
# Texts of doubles tell them apart

A double is laid out as digits, perhaps a point with more digits, and perhaps an exponent.  These
parts can be told from the text (`spell_inj`), and with them the number that was laid out
(`value_eq_of_layout_eq`).  Since no number reads as two doubles, two doubles with the same text are
the same, and since there is always a point or an exponent, no double is written like a whole number.

Main statements: `Double.same_of_text_eq` and `Double.text_ne_toString_int`.  The texts of all numbers
consist of letters, digits, signs and points (`Double.isNumberChar_text`).

- `AreDigits`, `rowValue`: rows of digits and their values.
- `spell`, `spell_inj`: a text put together from its parts, which can be told from it.
- `IsLaidOut`, `exists_isLaidOut`: the parts that a decimal is laid out in, whichever way is taken.
- `Double.kind`: the three kinds of texts.
- `Double.same_iff`, `Double.same_congr`: what it means for doubles to count as the same number.
-/

namespace DeployManifest.Number

/-! ## Rows of digits -/

/-- A row of digits. -/
def AreDigits (text : List Char) : Prop := ∀ c ∈ text, c.isDigit = true

/-- Digits behind digits are digits. -/
theorem AreDigits.append {a b : List Char} (ha : AreDigits a) (hb : AreDigits b) :
    AreDigits (a ++ b) := by
  intro c hc
  rcases List.mem_append.mp hc with h | h
  · exact ha c h
  · exact hb c h

theorem areDigits_toDigits (n : Nat) : AreDigits (Nat.toDigits 10 n) := fun _ hc =>
  Nat.isDigit_of_mem_toDigits (by decide) (by decide) hc

theorem areDigits_zeros (n : Nat) : AreDigits (List.replicate n '0') := by
  intro c hc
  rw [List.eq_of_mem_replicate hc]
  rfl

/-- Two rows of digits are equal if they end where something else begins. -/
theorem eq_of_append_eq {a b r s : List Char} (ha : AreDigits a) (hb : AreDigits b)
    (hr : ∀ c ∈ r.head?, c.isDigit = false) (hs : ∀ c ∈ s.head?, c.isDigit = false)
    (same : a ++ r = b ++ s) : a = b ∧ r = s := by
  -- as long as both rows go on they agree; where one stops, the other cannot go on with a digit
  induction a generalizing b with
  | nil =>
    cases b with
    | nil => exact ⟨rfl, same⟩
    | cons d b =>
      have no_digit := hr d (by simp [show r = d :: b ++ s from same])
      have digit := hb d List.mem_cons_self
      rw [digit] at no_digit
      nomatch no_digit
  | cons c a ih =>
    cases b with
    | nil =>
      have no_digit := hs c (by simp [show s = c :: a ++ r from same.symm])
      have digit := ha c List.mem_cons_self
      rw [digit] at no_digit
      nomatch no_digit
    | cons d b =>
      obtain ⟨rfl, rest⟩ := List.cons.inj same
      have ⟨rows, ends⟩ := ih (fun e he => ha e (List.mem_cons_of_mem _ he))
        (fun e he => hb e (List.mem_cons_of_mem _ he)) rest
      exact ⟨by rw [rows], ends⟩

/-! ## Whole numbers -/

theorem toDigits_inj {m n : Nat} (same : Nat.toDigits 10 m = Nat.toDigits 10 n) : m = n := by
  rw [← @Nat.ofDigitChars_ten_toDigits m, same, Nat.ofDigitChars_ten_toDigits]

/-- A whole number is written as digits, behind a sign if it is negative. -/
theorem toList_toString_int (z : ℤ) :
    (toString z).toList = (if z < 0 then ['-'] else []) ++ Nat.toDigits 10 z.natAbs := by
  cases z with
  | ofNat n => simp [toString, Int.repr]
  | negSucc n => simp [toString, Int.repr, Int.negSucc_lt_zero]

/-- An integer can be told from its text. -/
theorem int_eq_of_toString_eq {y z : ℤ} (same : toString y = toString z) : y = z := by
  -- only negative numbers start with a sign
  have no_sign : ∀ n : Nat, ∀ text : List Char, '-' :: text ≠ Nat.toDigits 10 n := by
    intro n text sign
    have digit := areDigits_toDigits n '-' (by simp [← sign])
    nomatch digit
  have lists := congrArg String.toList same
  rw [toList_toString_int, toList_toString_int] at lists
  by_cases y_neg : y < 0 <;> by_cases z_neg : z < 0
  · rw [if_pos y_neg, if_pos z_neg] at lists
    have := toDigits_inj (List.cons.inj lists).2
    omega
  · rw [if_pos y_neg, if_neg z_neg] at lists
    exact absurd lists (no_sign _ _)
  · rw [if_neg y_neg, if_pos z_neg] at lists
    exact absurd lists.symm (no_sign _ _)
  · rw [if_neg y_neg, if_neg z_neg] at lists
    have := toDigits_inj lists
    omega

/-! ## The parts of a layout -/

/-- The end of a number that is laid out with a power of ten. -/
def exponentText : Option ℤ → List Char
  | none => []
  | some power => 'e' :: (toString power).toList

/-- Digits behind a point, which is left out if there are none. -/
def pointed (after : List Char) : List Char := if after = [] then [] else '.' :: after

/-- A number as it is laid out: the digits before and behind the point and the power of ten. -/
def spell (before after : List Char) (power : Option ℤ) : List Char :=
  before ++ (pointed after ++ exponentText power)

/-- An exponent can be told from its text, and so can its absence. -/
theorem exponentText_inj {p q : Option ℤ} (same : exponentText p = exponentText q) : p = q := by
  cases p <;> cases q
  · rfl
  · nomatch same
  · nomatch same
  · next p q =>
    rw [int_eq_of_toString_eq (String.toList_inj.mp (List.cons.inj same).2)]

/-- No exponent starts with a digit. -/
theorem exponentText_head (p : Option ℤ) : ∀ c ∈ (exponentText p).head?, c.isDigit = false := by
  intro c hc
  cases p with
  | none => nomatch hc
  | some p =>
    obtain rfl : 'e' = c := by simpa [exponentText] using hc
    rfl

/-- Digits end where a point or an exponent starts. -/
theorem pointed_head (after : List Char) (p : Option ℤ) :
    ∀ c ∈ (pointed after ++ exponentText p).head?, c.isDigit = false := by
  unfold pointed
  split
  · exact exponentText_head p
  · intro c hc
    obtain rfl : '.' = c := by simpa using hc
    rfl

/-- A point with digits behind it is no exponent. -/
theorem pointed_ne {after : List Char} (some_digits : after ≠ []) (p q : Option ℤ) :
    pointed after ++ exponentText p ≠ exponentText q := by
  unfold pointed
  rw [if_neg some_digits]
  cases q with
  | none => exact nofun
  | some q =>
    intro same
    nomatch (List.cons.inj same).1

/-- A text is laid out in one way only. -/
theorem spell_inj {before after before' after' : List Char} {power power' : Option ℤ}
    (digits : AreDigits before ∧ AreDigits after) (digits' : AreDigits before' ∧ AreDigits after')
    (same : spell before after power = spell before' after' power') :
    before = before' ∧ after = after' ∧ power = power' := by
  have ⟨front, rest⟩ := eq_of_append_eq digits.1 digits'.1 (pointed_head after power)
    (pointed_head after' power') same
  -- a point is only written in front of digits, so it tells whether there are some
  by_cases empty : after = []
  · by_cases empty' : after' = []
    · subst empty empty'
      exact ⟨front, rfl, exponentText_inj rest⟩
    · subst empty
      exact absurd rest.symm (pointed_ne empty' power' power)
  · by_cases empty' : after' = []
    · subst empty'
      exact absurd rest (pointed_ne empty power power')
    · unfold pointed at rest
      rw [if_neg empty, if_neg empty'] at rest
      have ⟨fraction, ends⟩ := eq_of_append_eq digits.2 digits'.2 (exponentText_head power)
        (exponentText_head power') (List.cons.inj rest).2
      exact ⟨front, fraction, exponentText_inj ends⟩

/-! ## Layouts -/

/-- The number that a row of digits stands for. -/
def rowValue (row : List Char) : ℚ := Nat.ofDigitChars 10 row 0

/-- Zeros behind a row of digits multiply its value. -/
theorem rowValue_append_zeros (row : List Char) (count : Nat) :
    rowValue (row ++ List.replicate count '0') = rowValue row * 10 ^ count := by
  unfold rowValue
  rw [Nat.ofDigitChars_append, Nat.ofDigitChars_replicate_zero]
  push_cast
  ring

theorem rowValue_zeros_append (row : List Char) (count : Nat) :
    rowValue (List.replicate count '0' ++ row) = rowValue row := by
  unfold rowValue
  rw [Nat.ofDigitChars_append, Nat.ofDigitChars_replicate_zero, Nat.mul_zero]

/-- The digits of a decimal. -/
def Decimal.row (d : Decimal) : List Char := Nat.toDigits 10 d.digits

/-- Where the point stands, counted from the first digit. -/
def Decimal.point (d : Decimal) : ℤ := d.row.length + d.power

theorem Decimal.row_length_pos (d : Decimal) : 0 < d.row.length := Nat.length_toDigits_pos

theorem Decimal.areDigits_row (d : Decimal) : AreDigits d.row := areDigits_toDigits d.digits

theorem Decimal.value_eq_row (d : Decimal) : d.value = rowValue d.row * 10 ^ d.power := by
  unfold value rowValue row
  rw [Nat.ofDigitChars_ten_toDigits]

/-- The four ways in which a decimal is laid out. -/
theorem layout_eq (d : Decimal) :
    Double.layout d =
      if 0 ≤ d.power && d.point ≤ 16 then
        d.row ++ List.replicate d.power.toNat '0' ++ ['.', '0']
      else if 0 < d.point && d.point ≤ 16 then
        d.row.take d.point.toNat ++ '.' :: d.row.drop d.point.toNat
      else if -5 < d.point && d.point ≤ 0 then
        '0' :: '.' :: List.replicate (-d.point).toNat '0' ++ d.row
      else
        d.row.take 1 ++ (if d.row.length = 1 then [] else '.' :: d.row.drop 1) ++
          'e' :: (toString (d.point - 1)).toList := rfl

/-- How a decimal is laid out, and what is then spelled. -/
structure IsLaidOut (d : Decimal) (before after : List Char) (power : Option ℤ) : Prop where
  digits : AreDigits before ∧ AreDigits after
  starts : before ≠ []
  marked : after ≠ [] ∨ power ≠ none
  text : Double.layout d = spell before after power
  value : d.value = rowValue (before ++ after) * 10 ^ (power.getD 0 - after.length)

/-- A whole number of moderate size has zeros up to the point and one behind it. -/
theorem isLaidOut_whole {d : Decimal} (whole : 0 ≤ d.power) (short : d.point ≤ 16) :
    IsLaidOut d (d.row ++ List.replicate d.power.toNat '0') ['0'] none where
  digits := ⟨d.areDigits_row.append (areDigits_zeros _), areDigits_zeros 1⟩
  starts := List.append_ne_nil_of_left_ne_nil (List.ne_nil_of_length_pos d.row_length_pos) _
  marked := .inl (List.cons_ne_nil _ _)
  text := by
    rw [layout_eq, if_pos (by simp [whole, short])]
    rfl
  value := by
    have power : ((d.power.toNat : ℕ) : ℤ) = d.power := by omega
    -- zeros are written up to the point, and one behind it
    have zeros : rowValue (d.row ++ List.replicate d.power.toNat '0' ++ ['0']) =
        rowValue d.row * 10 ^ d.power.toNat * 10 := by
      rw [← rowValue_append_zeros, ← pow_one (10 : ℚ), ← rowValue_append_zeros]
      rfl
    rw [zeros, d.value_eq_row, ← zpow_natCast, power]
    simp

/-- A number with the point inside of its digits has it there. -/
theorem isLaidOut_inside {d : Decimal} (fractional : d.power < 0) (inside : 0 < d.point)
    (short : d.point ≤ 16) :
    IsLaidOut d (d.row.take d.point.toNat) (d.row.drop d.point.toNat) none where
  digits := ⟨fun c hc => d.areDigits_row c (List.mem_of_mem_take hc),
    fun c hc => d.areDigits_row c (List.mem_of_mem_drop hc)⟩
  starts := by
    have count := d.row_length_pos
    apply List.ne_nil_of_length_pos
    rw [List.length_take]
    omega
  marked := by
    left
    apply List.ne_nil_of_length_pos
    unfold Decimal.point at *
    rw [List.length_drop]
    omega
  text := by
    have behind : d.row.drop d.point.toNat ≠ [] := by
      apply List.ne_nil_of_length_pos
      unfold Decimal.point at *
      rw [List.length_drop]
      omega
    rw [layout_eq, if_neg (by simp [fractional]), if_pos (by simp [inside, short])]
    simp [spell, pointed, exponentText, behind]
  -- the digits behind the point are as many as the power takes away
  value := by
    have behind : ((0 : ℤ) - (d.row.drop d.point.toNat).length) = d.power := by
      unfold Decimal.point at *
      rw [List.length_drop]
      omega
    rw [List.take_append_drop, Option.getD_none, behind, d.value_eq_row]

/-- A small fraction has zeros between the point and its digits. -/
theorem isLaidOut_small {d : Decimal} (small : d.point ≤ 0) (moderate : -5 < d.point) :
    IsLaidOut d ['0'] (List.replicate (-d.point).toNat '0' ++ d.row) none where
  digits := ⟨areDigits_zeros 1, (areDigits_zeros _).append d.areDigits_row⟩
  starts := List.cons_ne_nil _ _
  marked := .inl
    (List.append_ne_nil_of_right_ne_nil _ (List.ne_nil_of_length_pos d.row_length_pos))
  text := by
    have fractional : ¬ 0 ≤ d.power := by
      have count := d.row_length_pos
      unfold Decimal.point at small
      omega
    have outside : ¬ 0 < d.point := by omega
    have some_digits : d.row ≠ [] := List.ne_nil_of_length_pos d.row_length_pos
    rw [layout_eq, if_neg (by simp [fractional]), if_neg (by simp [outside]),
      if_pos (by simp [small, moderate])]
    simp [spell, pointed, exponentText, some_digits]
  value := by
    have behind : ((0 : ℤ) - (List.replicate (-d.point).toNat '0' ++ d.row).length) = d.power := by
      unfold Decimal.point at *
      rw [List.length_append, List.length_replicate]
      omega
    -- zeros in front do not change the value
    have zeros : rowValue (['0'] ++ (List.replicate (-d.point).toNat '0' ++ d.row)) =
        rowValue d.row := by
      rw [← rowValue_zeros_append d.row (-d.point).toNat]
      exact rowValue_zeros_append _ 1
    rw [zeros, Option.getD_none, behind, d.value_eq_row]

/-- Any other number has one digit in front of the point, and an exponent. -/
theorem isLaidOut_exponent {d : Decimal} (large : ¬ (0 ≤ d.power ∧ d.point ≤ 16))
    (outside : ¬ (0 < d.point ∧ d.point ≤ 16)) (extreme : ¬ (-5 < d.point ∧ d.point ≤ 0)) :
    IsLaidOut d (d.row.take 1) (d.row.drop 1) (some (d.point - 1)) where
  digits := ⟨fun c hc => d.areDigits_row c (List.mem_of_mem_take hc),
    fun c hc => d.areDigits_row c (List.mem_of_mem_drop hc)⟩
  starts := by
    have count := d.row_length_pos
    apply List.ne_nil_of_length_pos
    rw [List.length_take]
    omega
  marked := .inr (Option.some_ne_none _)
  text := by
    have count := d.row_length_pos
    have single : d.row.drop 1 = [] ↔ d.row.length = 1 := by
      rw [List.drop_eq_nil_iff]
      omega
    rw [layout_eq, if_neg (by simpa using large), if_neg (by simpa using outside),
      if_neg (by simpa using extreme)]
    simp only [spell, pointed, exponentText, single, List.append_assoc]
  -- the exponent moves the point behind the first digit
  value := by
    have count := d.row_length_pos
    have behind : d.point - 1 - ((d.row.drop 1).length : ℤ) = d.power := by
      unfold Decimal.point at *
      rw [List.length_drop]
      omega
    rw [List.take_append_drop, Option.getD_some, behind, d.value_eq_row]

/-- Every decimal is laid out in one of these ways. -/
theorem exists_isLaidOut (d : Decimal) : ∃ before after power, IsLaidOut d before after power := by
  by_cases whole : 0 ≤ d.power ∧ d.point ≤ 16
  · exact ⟨_, _, _, isLaidOut_whole whole.1 whole.2⟩
  · by_cases inside : 0 < d.point ∧ d.point ≤ 16
    · exact ⟨_, _, _, isLaidOut_inside (by omega) inside.1 inside.2⟩
    · by_cases small : -5 < d.point ∧ d.point ≤ 0
      · exact ⟨_, _, _, isLaidOut_small small.2 small.1⟩
      · exact ⟨_, _, _, isLaidOut_exponent whole inside small⟩

/-- Decimals that are laid out alike are the same number. -/
theorem value_eq_of_layout_eq {d e : Decimal} (same : Double.layout d = Double.layout e) :
    d.value = e.value := by
  obtain ⟨before, after, power, d_laid⟩ := exists_isLaidOut d
  obtain ⟨before', after', power', e_laid⟩ := exists_isLaidOut e
  rw [d_laid.text, e_laid.text] at same
  obtain ⟨rfl, rfl, rfl⟩ := spell_inj d_laid.digits e_laid.digits same
  rw [d_laid.value, e_laid.value]

theorem layout_head (d : Decimal) : ∃ c rest, Double.layout d = c :: rest ∧ c.isDigit = true := by
  obtain ⟨before, after, power, laid⟩ := exists_isLaidOut d
  obtain ⟨c, rest, rfl⟩ := List.exists_cons_of_ne_nil laid.starts
  exact ⟨c, _, laid.text, laid.digits.1 c List.mem_cons_self⟩

/-- What is laid out is no row of digits: there is a point or an exponent. -/
theorem layout_marked (d : Decimal) : ∃ c ∈ Double.layout d, c = '.' ∨ c = 'e' := by
  obtain ⟨before, after, power, laid⟩ := exists_isLaidOut d
  rw [laid.text]
  rcases laid.marked with some_digits | some_power
  · exact ⟨'.', by simp [spell, pointed, some_digits], .inl rfl⟩
  · obtain ⟨p, rfl⟩ := Option.ne_none_iff_exists'.mp some_power
    exact ⟨'e', by simp [spell, exponentText], .inr rfl⟩

/-! ## Texts of doubles -/

namespace Double

/-- The digits, point and exponent of a finite double. -/
def body (x : Double) : List Char :=
  if x.significand = 0 then ['0', '.', '0'] else layout x.shortest

/-- A finite double is written with its sign and its digits. -/
theorem text_of_finite {x : Double} (not_nan : x.isNaN = false) (bounded : x.isInfinite = false) :
    x.text.toList = (if x.isNegative then ['-'] else []) ++ x.body := by
  unfold text body
  rw [not_nan, bounded]
  simp

/-- The digits of a double start with one. -/
theorem body_head (x : Double) : ∃ c rest, x.body = c :: rest ∧ c.isDigit = true := by
  unfold body
  split
  · exact ⟨'0', _, rfl, rfl⟩
  · exact layout_head _

/-- There is a point or an exponent among them. -/
theorem body_marked (x : Double) : ∃ c ∈ x.body, c = '.' ∨ c = 'e' := by
  unfold body
  split
  · exact ⟨'.', by simp, .inl rfl⟩
  · exact layout_marked _

/-- The shortest decimal of a double other than zero is positive, for what is not does not read as the
    double. -/
theorem shortest_value_pos {x : Double} (positive : 0 < x.significand) :
    0 < x.shortest.value := by
  have read := isReadFrom_shortest positive
  have gap : (x.gapBelow : ℚ) ≤ 2 := by exact_mod_cast x.gapBelow_le
  have least : (1 : ℚ) ≤ x.significand := by exact_mod_cast positive
  have low : 0 < (4 * x.significand - x.gapBelow) * x.quarter :=
    mul_pos (by linarith) x.quarter_pos
  unfold IsReadFrom at read
  dsimp only at read
  split at read
  · exact low.trans_le read.1
  · exact low.trans read.1

/-- Only zeros are written as zero. -/
theorem body_eq_zero_iff {x : Double} : x.body = ['0', '.', '0'] ↔ x.significand = 0 := by
  unfold body
  constructor
  · intro zeros
    by_contra nonzero
    rw [if_neg nonzero] at zeros
    -- Laid out like that is the decimal with the value zero, too.
    have zero_value := value_eq_of_layout_eq (zeros.trans (show _ = layout ⟨0, 0⟩ from rfl))
    have positive := shortest_value_pos (Nat.pos_of_ne_zero nonzero)
    rw [zero_value] at positive
    simp [Decimal.value] at positive
  · intro zero
    rw [if_pos zero]

/-- A double without a significand is a zero. -/
theorem magnitude_eq_zero {x : Double} (zero : x.significand = 0) : x.magnitude = 0 := by
  have ⟨field, rest⟩ := x.magnitude_eq
  unfold significand fractions at *
  split at zero
  · omega
  · omega

/-- Finite doubles with the same digits differ in their signs at most. -/
theorem magnitude_eq_of_body_eq {x y : Double} (same : x.body = y.body) :
    x.magnitude = y.magnitude := by
  by_cases x_zero : x.significand = 0
  · have y_zero := body_eq_zero_iff.mp (same.symm.trans (body_eq_zero_iff.mpr x_zero))
    rw [magnitude_eq_zero x_zero, magnitude_eq_zero y_zero]
  · have y_nonzero : y.significand ≠ 0 := fun zero =>
      x_zero (body_eq_zero_iff.mp (same.trans (body_eq_zero_iff.mpr zero)))
    have x_pos := Nat.pos_of_ne_zero x_zero
    have y_pos := Nat.pos_of_ne_zero y_nonzero
    unfold body at same
    rw [if_neg x_zero, if_neg y_nonzero] at same
    have y_read := isReadFrom_shortest y_pos
    rw [← value_eq_of_layout_eq same] at y_read
    exact magnitude_eq_of_isReadFrom x_pos y_pos (isReadFrom_shortest x_pos) y_read

/-- A double can be told from its sign and the bits behind it. -/
theorem bits_eq {x y : Double} (signs : x.isNegative = y.isNegative)
    (magnitudes : x.magnitude = y.magnitude) : x.bits = y.bits := by
  unfold isNegative at signs
  unfold magnitude signWeight at *
  have x_small := x.bits.toNat_lt
  have y_small := y.bits.toNat_lt
  have signs := decide_eq_decide.mp signs
  apply UInt64.toNat_inj.mp
  omega

/-- What stands in front of a number. -/
def signText (negative : Bool) : List Char := if negative then ['-'] else []

/-- A sign can be told from what stands behind it, if that does not start with a dash. -/
theorem signText_append_inj {a b : Bool} {v w : List Char} (hv : v.head? ≠ some '-')
    (hw : w.head? ≠ some '-') (same : signText a ++ v = signText b ++ w) : a = b ∧ v = w := by
  cases a <;> cases b
  · exact ⟨rfl, same⟩
  · have same : v = '-' :: w := same
    exact absurd (by rw [same]; rfl) hv
  · have same : '-' :: v = w := same
    exact absurd (by rw [← same]; rfl) hw
  · exact ⟨rfl, (List.cons.inj same).2⟩

/-- The digits start with no other character than a digit. -/
theorem body_head_ne {x : Double} {c : Char} (no_digit : c.isDigit = false) :
    x.body.head? ≠ some c := by
  obtain ⟨d, rest, body, digit⟩ := x.body_head
  rw [body]
  intro same
  obtain rfl : d = c := Option.some.inj same
  rw [digit] at no_digit
  nomatch no_digit

/-- The three kinds of doubles and their texts. -/
inductive Kind (x : Double) : Prop where
  | nan (is_nan : x.isNaN = true) (text : x.text.toList = signText false ++ ['.', 'n', 'a', 'n'])
  | infinite (is_infinite : x.isInfinite = true)
    (text : x.text.toList = signText x.isNegative ++ ['.', 'i', 'n', 'f'])
  | finite (text : x.text.toList = signText x.isNegative ++ x.body)

/-- Every double is written in one of three ways: as a word for none of the numbers, as one for an infinity,
    or with digits. -/
theorem kind (x : Double) : Kind x := by
  cases is_nan : x.isNaN with
  | true =>
    refine .nan is_nan ?_
    unfold text
    rw [if_pos is_nan]
    rfl
  | false =>
    cases is_infinite : x.isInfinite with
    | true =>
      refine .infinite is_infinite ?_
      unfold text
      rw [if_neg (by simp [is_nan]), if_pos is_infinite]
      cases x.isNegative <;> rfl
    | false =>
      refine .finite ?_
      unfold text body signText
      rw [if_neg (by simp [is_nan]), if_neg (by simp [is_infinite]), String.toList_ofList]

/-- The infinities differ in their signs only. -/
theorem magnitude_eq_of_isInfinite {x y : Double} (hx : x.isInfinite = true)
    (hy : y.isInfinite = true) : x.magnitude = y.magnitude := by
  have ⟨x_field, x_rest⟩ := x.magnitude_eq
  have ⟨y_field, y_rest⟩ := y.magnitude_eq
  have ⟨x_full, x_zero⟩ : x.exponentField = 2047 ∧ x.fraction = 0 := by
    simpa [isInfinite] using hx
  have ⟨y_full, y_zero⟩ : y.exponentField = 2047 ∧ y.fraction = 0 := by
    simpa [isInfinite] using hy
  unfold fractions at *
  omega

/-- Two doubles count as the same number if both are none, both are zero, or they are equal. -/
theorem same_iff {x y : Double} : x.same y = true ↔
    (x.isNaN = true ∧ y.isNaN = true) ∨ (x.magnitude = 0 ∧ y.magnitude = 0) ∨ x = y := by
  have of_bits : x.bits = y.bits ↔ x = y := ⟨fun bits => by cases x; cases y; cases bits; rfl, congrArg bits⟩
  unfold same
  split
  · next none => simpa using .inl (by simpa using none)
  · next some =>
    split
    · next zero => exact iff_of_true rfl (.inr (.inl (by simpa using zero)))
    · next one =>
      rw [beq_iff_eq, of_bits]
      exact ⟨fun same => .inr (.inr same), fun any =>
        (any.resolve_left (by simpa using some)).resolve_left (by simpa using one)⟩

theorem same_comm (x y : Double) : x.same y = y.same x := by
  rw [Bool.eq_iff_iff, same_iff, same_iff, @and_comm (x.isNaN = true), @and_comm (x.magnitude = 0),
    @eq_comm _ x]

/-- What is none of the numbers is no zero. -/
theorem magnitude_ne_zero_of_isNaN {x : Double} (none : x.isNaN = true) : x.magnitude ≠ 0 := by
  have ⟨full, _⟩ : x.exponentField = 2047 ∧ x.fraction ≠ 0 := by simpa [isNaN] using none
  have ⟨field, _⟩ := x.magnitude_eq
  unfold fractions at field
  omega

/-- Doubles that count as the same number as a third one count as the same. -/
theorem same_trans {x y z : Double} (xy : x.same y = true) (yz : y.same z = true) :
    x.same z = true := by
  rw [same_iff] at *
  rcases xy with ⟨x_none, y_none⟩ | ⟨x_zero, y_zero⟩ | rfl
  · rcases yz with ⟨-, z_none⟩ | ⟨y_zero, -⟩ | rfl
    · exact .inl ⟨x_none, z_none⟩
    · exact absurd y_zero (magnitude_ne_zero_of_isNaN y_none)
    · exact .inl ⟨x_none, y_none⟩
  · rcases yz with ⟨y_none, -⟩ | ⟨-, z_zero⟩ | rfl
    · exact absurd y_zero (magnitude_ne_zero_of_isNaN y_none)
    · exact .inr (.inl ⟨x_zero, z_zero⟩)
    · exact .inr (.inl ⟨x_zero, y_zero⟩)
  · exact yz

/-- Whatever counts as the same number as one of two doubles that do counts as the same as the other. -/
theorem same_congr {x y z : Double} (alike : x.same y = true) : z.same x = z.same y :=
  Bool.eq_iff_iff.mpr ⟨fun same => same_trans same alike, fun same =>
    same_trans same (by rwa [same_comm])⟩

/-- Doubles with the same text are the same number. -/
theorem same_of_text_eq {x y : Double} (texts : x.text = y.text) : x.same y = true := by
  have of_bits : ∀ bits : x.bits = y.bits, x.same y = true := by
    intro bits
    unfold same
    simp [bits]
  have word : ∀ w : List Char, ('.' :: w).head? ≠ some '-' := fun w => by simp
  have no_word : ∀ (z : Double) (w : List Char), z.body ≠ '.' :: w := fun z w body =>
    body_head_ne (x := z) rfl (by rw [body]; rfl)
  have no_sign : ∀ z : Double, z.body.head? ≠ some '-' := fun z => body_head_ne rfl
  have lists := congrArg String.toList texts
  -- texts of different kinds are different, which leaves three of the nine cases
  rcases x.kind with ⟨x_nan, x_text⟩ | ⟨x_inf, x_text⟩ | x_text <;>
    rcases y.kind with ⟨y_nan, y_text⟩ | ⟨y_inf, y_text⟩ | y_text <;>
    rw [x_text, y_text] at lists
  · unfold same
    rw [x_nan, y_nan]
    rfl
  · nomatch (signText_append_inj (word _) (word _) lists).2
  · exact absurd (signText_append_inj (word _) (no_sign y) lists).2.symm (no_word y _)
  · nomatch (signText_append_inj (word _) (word _) lists).2
  · have signs := (signText_append_inj (word _) (word _) lists).1
    exact of_bits (bits_eq signs (magnitude_eq_of_isInfinite x_inf y_inf))
  · exact absurd (signText_append_inj (word _) (no_sign y) lists).2.symm (no_word y _)
  · exact absurd (signText_append_inj (no_sign x) (word _) lists).2 (no_word x _)
  · exact absurd (signText_append_inj (no_sign x) (word _) lists).2 (no_word x _)
  · have ⟨signs, bodies⟩ := signText_append_inj (no_sign x) (no_sign y) lists
    exact of_bits (bits_eq signs (magnitude_eq_of_body_eq bodies))

/-- No double is written like a whole number. -/
theorem text_marked (x : Double) : ∃ c ∈ x.text.toList, c = '.' ∨ c = 'e' := by
  rcases x.kind with ⟨-, text⟩ | ⟨-, text⟩ | text <;> rw [text]
  · exact ⟨'.', by simp, .inl rfl⟩
  · exact ⟨'.', by simp, .inl rfl⟩
  · obtain ⟨c, hc, marked⟩ := x.body_marked
    exact ⟨c, List.mem_append_right _ hc, marked⟩

/-- No double is written like a whole number, for it has a point or an exponent. -/
theorem text_ne_toString_int (x : Double) (z : ℤ) : x.text ≠ toString z := by
  intro same
  obtain ⟨c, hc, marked⟩ := x.text_marked
  rw [same, toList_toString_int] at hc
  rcases List.mem_append.mp hc with sign | digit
  · split at sign
    · obtain rfl := List.mem_singleton.mp sign
      rcases marked with marked | marked <;> nomatch marked
    · nomatch sign
  · have digit := areDigits_toDigits _ c digit
    rcases marked with rfl | rfl <;> nomatch digit

end Double

/-! ## The characters of numbers -/

/-- The characters with which numbers are written. -/
def IsNumberChar (c : Char) : Prop := c.isAlphanum = true ∨ c = '-' ∨ c = '.'

theorem isNumberChar_of_isAlphanum {text : List Char} (alphanum : text.all Char.isAlphanum = true) :
    ∀ c ∈ text, IsNumberChar c := fun c mem => .inl (List.all_eq_true.mp alphanum c mem)

/-- Digits may occur in the text of a number. -/
theorem AreDigits.isNumberChar {text : List Char} (digits : AreDigits text) :
    ∀ c ∈ text, IsNumberChar c := by
  refine isNumberChar_of_isAlphanum (List.all_eq_true.mpr fun c mem => ?_)
  unfold Char.isAlphanum
  rw [digits c mem, Bool.or_true]

/-- The texts of integers consist of such characters. -/
theorem isNumberChar_int (z : ℤ) : ∀ c ∈ (toString z).toList, IsNumberChar c := by
  rw [toList_toString_int]
  intro c mem
  rcases List.mem_append.mp mem with sign | digit
  · split at sign
    · exact .inr (.inl (List.mem_singleton.mp sign))
    · nomatch sign
  · exact (areDigits_toDigits z.natAbs).isNumberChar c digit

/-- So does what is laid out. -/
theorem isNumberChar_layout (d : Decimal) : ∀ c ∈ Double.layout d, IsNumberChar c := by
  obtain ⟨before, after, power, laid⟩ := exists_isLaidOut d
  rw [laid.text]
  intro c mem
  unfold spell pointed exponentText at mem
  -- digits, then a point with digits, then an exponent
  rcases List.mem_append.mp mem with front | behind
  · exact laid.digits.1.isNumberChar c front
  · rcases List.mem_append.mp behind with fraction | exponent
    · split at fraction
      · nomatch fraction
      · rcases List.mem_cons.mp fraction with rfl | digit
        · exact .inr (.inr rfl)
        · exact laid.digits.2.isNumberChar c digit
    · split at exponent
      · nomatch exponent
      · rcases List.mem_cons.mp exponent with rfl | inside
        · exact .inl (by decide)
        · exact isNumberChar_int _ c inside

/-- And so do the texts of doubles. -/
theorem Double.isNumberChar_text (x : Double) : ∀ c ∈ x.text.toList, IsNumberChar c := by
  have sign : ∀ negative, ∀ c ∈ signText negative, IsNumberChar c := by
    intro negative c mem
    cases negative with
    | true => exact .inr (.inl (List.mem_singleton.mp mem))
    | false => nomatch mem
  have point : IsNumberChar '.' := .inr (.inr rfl)
  have pointed : ∀ {word : List Char}, word.all Char.isAlphanum = true →
      ∀ c ∈ '.' :: word, IsNumberChar c := fun alphanum =>
    List.forall_mem_cons.mpr ⟨point, isNumberChar_of_isAlphanum alphanum⟩
  have body : ∀ c ∈ x.body, IsNumberChar c := by
    unfold Double.body
    split
    · exact List.forall_mem_cons.mpr ⟨.inl (by decide), pointed (by decide)⟩
    · exact isNumberChar_layout _
  intro c mem
  -- in all three cases there is a sign in front
  rcases x.kind with ⟨-, text⟩ | ⟨-, text⟩ | text <;> rw [text] at mem <;>
    rcases List.mem_append.mp mem with front | behind
  · exact sign _ c front
  · exact pointed (by decide) c behind
  · exact sign _ c front
  · exact pointed (by decide) c behind
  · exact sign _ c front
  · exact body c behind

end DeployManifest.Number
