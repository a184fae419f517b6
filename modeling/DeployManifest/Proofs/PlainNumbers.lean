import DeployManifest.Proofs.FloatText
import DeployManifest.Proofs.PieceLines

/-!
# Numbers need no quotes

Letters, digits and some signs (`IsPlainChar`) are not taken for anything else at the start of a node or
inside of a plain scalar.  The texts of numbers are made of them, so they can be written plain
(`fitsPlain_int`, `fitsPlain_float`).

- `meaningfulSigns`: what is taken for something else, in the places where that may happen.
- `hasPair_eq_false`, `hasInnerIndicator_eq_false`, `opensWithIndicator_eq_false`: so plain characters ask
  for no quotes, one place after the other.
- `fitsPlain_of_isPlainChar`, `fitsPlain_signed`: texts of such characters, and texts of them behind a sign.
-/

namespace DeployManifest.Yaml

open Number (IsNumberChar Double areDigits_toDigits toList_toString_int isNumberChar_int)

/-- The signs with a meaning of their own at the start of a node, in a plain scalar, or between two. -/
def meaningfulSigns : List Char := "#,[]\x7b\x7d&*!|>\x27\x22%@\x60?: \t\r\n\x00".toList

/-- Letters, digits and signs without such a meaning. -/
def IsPlainChar (c : Char) : Prop := c.isAlphanum = true ∨ c ∈ "-._/=".toList

instance (c : Char) : Decidable (IsPlainChar c) := inferInstanceAs (Decidable (_ ∨ _))

theorem not_isPlainChar : ∀ c ∈ meaningfulSigns, ¬ IsPlainChar c := forall_mem_of_all (by decide)

/-- Numbers are spelled with plain characters. -/
theorem isPlainChar_of_isNumberChar {c : Char} (number : IsNumberChar c) : IsPlainChar c := by
  rcases number with alphanum | rfl | rfl
  · exact .inl alphanum
  · decide
  · decide

section

variable {c : Char}

/-- Plain characters can be printed. -/
theorem isPrintable_of_isPlainChar (plain : IsPlainChar c) : isPrintable c = true := by
  rcases plain with alphanum | sign
  · have visible := visible_of_isAlphanum alphanum
    simp [isPrintable, visible]
  · exact (forall_mem_of_all (by decide) : ∀ d ∈ "-._/=".toList, isPrintable d = true) c sign

/-- Plain characters end no line. -/
theorem isBreak_of_isPlainChar (plain : IsPlainChar c) : isBreak c = false := by
  rcases plain with alphanum | sign
  · have visible := visible_of_isAlphanum alphanum
    cases broken : isBreak c with
    | false => rfl
    | true =>
      simp only [isBreak, Bool.or_eq_true, beq_iff_eq] at broken
      -- the breaks are below or above all that can be typed
      rcases broken with ((((rfl | rfl) | next_line) | line) | paragraph)
      · exact absurd visible (by decide)
      · exact absurd visible (by decide)
      all_goals omega
  · exact (forall_mem_of_all (by decide) : ∀ d ∈ "-._/=".toList, isBreak d = false) c sign

theorem ne_of_isPlainChar (plain : IsPlainChar c) {sign : Char} (listed : sign ∈ meaningfulSigns) :
    c ≠ sign := by
  rintro rfl
  exact not_isPlainChar c listed plain

end

/-- Whether a pair of characters is found where no first one is. -/
theorem hasPair_eq_false {p q : Char → Bool} {text : List Char}
    (no_first : ∀ c ∈ text, p c = false) : hasPair p q text = false := by
  induction text with
  | nil => rfl
  | cons c rest ih =>
    cases rest with
    | nil => rfl
    | cons d more =>
      rw [hasPair, no_first c (by simp), ih fun e mem => no_first e (by simp [mem])]
      rfl

/-- Among plain characters there is neither a colon nor the start of a comment. -/
theorem hasInnerIndicator_eq_false {before : Char} {text : List Char}
    (chars : ∀ c ∈ text, IsPlainChar c) : hasInnerIndicator before text = false := by
  induction text generalizing before with
  | nil => rfl
  | cons c rest ih =>
    have colon : c ≠ ':' := ne_of_isPlainChar (chars c (by simp)) (by decide)
    have comment : c ≠ '#' := ne_of_isPlainChar (chars c (by simp)) (by decide)
    rw [hasInnerIndicator, ih fun d mem => chars d (by simp [mem])]
    simp [colon, comment]

/-- A plain character leaves no gap. -/
theorem isGap_eq_false {c : Char} {more : List Char} (plain : IsPlainChar c) :
    isGap (c :: more) = false := by
  have space : c ≠ ' ' := ne_of_isPlainChar plain (by decide)
  have tab : c ≠ '\t' := ne_of_isPlainChar plain (by decide)
  have zero : c ≠ '\x00' := ne_of_isPlainChar plain (by decide)
  simp [isGap, isBlank, space, tab, zero, isBreak_of_isPlainChar plain]

/-- Such characters do not start another token if a dash is followed by something. -/
theorem opensWithIndicator_eq_false {c : Char} {more : List Char}
    (chars : ∀ d ∈ c :: more, IsPlainChar d) (signed : c = '-' → more ≠ []) :
    opensWithIndicator (c :: more) = false := by
  have plain := chars c (by simp)
  have key : c ≠ '?' := ne_of_isPlainChar plain (by decide)
  have colon : c ≠ ':' := ne_of_isPlainChar plain (by decide)
  have unlisted : "#,[]\x7b\x7d&*!|>\x27\x22%@\x60".toList.contains c = false := by
    have listed : ∀ d ∈ "#,[]\x7b\x7d&*!|>\x27\x22%@\x60".toList, d ∈ meaningfulSigns :=
      forall_mem_of_all (by decide)
    simp only [List.contains_eq_mem, decide_eq_false_iff_not]
    exact fun mem => not_isPlainChar c (listed c mem) plain
  -- a sign stands in front of a digit, so it is no dash of an item
  have no_gap : c = '-' → isGap more = false := by
    intro sign
    obtain ⟨d, rest, rfl⟩ := List.exists_cons_of_ne_nil (signed sign)
    exact isGap_eq_false (chars d (by simp))
  rw [opensWithIndicator, unlisted]
  by_cases sign : c = '-'
  · simp [no_gap sign]
  · simp [key, colon, sign]

/-- A text of such characters can be written plain unless it starts like something else. -/
theorem fitsPlain_of_isPlainChar {c : Char} {more : List Char} (chars : ∀ d ∈ c :: more, IsPlainChar d)
    (signed : c = '-' → more ≠ []) (no_dashes : ['-', '-', '-'].isPrefixOf (c :: more) = false)
    (no_dots : ['.', '.', '.'].isPrefixOf (c :: more) = false) : fitsPlain (c :: more) = true := by
  -- no character is a space, a break or an indicator, so only how the text starts matters
  have no_space : ∀ d ∈ c :: more, isSpace d = false := fun d mem => by
    simpa [isSpace] using ne_of_isPlainChar (chars d mem) (by decide)
  have no_break : ∀ d ∈ c :: more, isBreak d = false := fun d mem =>
    isBreak_of_isPlainChar (chars d mem)
  have single : fitsSingleQuotes (c :: more) = true := by
    have printable : (c :: more).all isPrintable = true :=
      List.all_eq_true.mpr fun d mem => isPrintable_of_isPlainChar (chars d mem)
    rw [fitsSingleQuotes, printable, hasPair_eq_false no_space, hasPair_eq_false no_break]
    rfl
  have last : (c :: more).getLast?.any isSpace = false := by
    cases here : (c :: more).getLast? with
    | none => rfl
    | some d => exact no_space d (List.mem_of_getLast? here)
  have breaks : (c :: more).any isBreak = false := by
    simpa using no_break
  have inner : hasInnerIndicator c more = false :=
    hasInnerIndicator_eq_false fun d mem => chars d (by simp [mem])
  rw [fitsPlain, single, breaks, last, no_dashes, no_dots, opensWithIndicator_eq_false chars signed,
    List.head?_cons, Option.any_some, no_space c (by simp), inner]
  rfl

/-- Behind a sign, a text of plain characters fits if it does not start with another sign, or with two dots.
    -/
theorem fitsPlain_signed {negative : Bool} {c : Char} {more : List Char}
    (chars : ∀ d ∈ Double.signText negative ++ c :: more, IsPlainChar d) (no_sign : c ≠ '-')
    (no_dots : c = '.' → more.head? ≠ some '.') :
    fitsPlain (Double.signText negative ++ c :: more) = true := by
  -- with a sign in front there is only one dash, and without one there is none
  cases negative with
  | true =>
    exact fitsPlain_of_isPlainChar chars (by simp) (by simp [List.isPrefixOf, no_sign.symm])
      (by simp [List.isPrefixOf])
  | false =>
    refine fitsPlain_of_isPlainChar chars (fun sign => absurd sign no_sign)
      (by simp [List.isPrefixOf, no_sign.symm]) ?_
    by_cases dot : c = '.'
    · cases more with
      | nil => simp [List.isPrefixOf]
      | cons d rest =>
        have other : d ≠ '.' := by simpa using no_dots dot
        simp [List.isPrefixOf, other.symm]
    · simp [List.isPrefixOf, Ne.symm dot]

/-- Every integer can be written plain. -/
theorem fitsPlain_int (n : Int) : fitsPlain (toString n).toList = true := by
  have chars : ∀ c ∈ (toString n).toList, IsPlainChar c := fun c mem =>
    isPlainChar_of_isNumberChar (isNumberChar_int n c mem)
  obtain ⟨c, more, digits⟩ := List.exists_cons_of_length_pos (l := Nat.toDigits 10 n.natAbs)
    Nat.length_toDigits_pos
  have digit : c.isDigit = true := areDigits_toDigits n.natAbs c (by simp [digits])
  have sign : (if n < 0 then ['-'] else []) = Double.signText (decide (n < 0)) := by
    simp [Double.signText]
  rw [toList_toString_int, digits, sign] at chars ⊢
  refine fitsPlain_signed chars ?_ ?_
  · rintro rfl
    nomatch digit
  · rintro rfl
    nomatch digit

/-- Every number with a fraction can be written plain. -/
theorem fitsPlain_float (x : Double) : fitsPlain x.text.toList = true := by
  have chars : ∀ c ∈ x.text.toList, IsPlainChar c := fun c mem =>
    isPlainChar_of_isNumberChar (x.isNumberChar_text c mem)
  rcases x.kind with ⟨-, text⟩ | ⟨-, text⟩ | text <;> rw [text] at chars ⊢
  · exact fitsPlain_signed chars (by decide) (by simp)
  · exact fitsPlain_signed chars (by decide) (by simp)
  · obtain ⟨c, more, body, digit⟩ := x.body_head
    rw [body] at chars ⊢
    refine fitsPlain_signed chars ?_ ?_
    · rintro rfl
      nomatch digit
    · rintro rfl
      nomatch digit

end DeployManifest.Yaml
