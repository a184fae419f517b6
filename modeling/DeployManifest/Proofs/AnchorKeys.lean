import DeployManifest.Proofs.EscapedPaths
import DeployManifest.Proofs.Marks
import DeployManifest.Proofs.PlainNumbers

/-!
# Keys of anchors

The keys that can be given anchors are written as they are on one line, with and without a mark
(`IsPlainKey.simpleKey?`), and a reference is written between single quotes.

- `Plain.StartsNoNumber`: characters that no number starts with.
- `IsPlainKey`: texts that are written as they are in front of a colon.
- `isPlainKey_definition`: so are those that define an anchor.
-/

namespace DeployManifest.Yaml

open Anchors (isAnchorKey isDigest)

variable {text name digest : String}

namespace Plain

variable {c : Char} {rest : List Char}

/-- Whether a character starts no number. -/
def StartsNoNumber (c : Char) : Prop := c.isDigit = false ∧ c ≠ '-' ∧ c ≠ '+' ∧ c ≠ '.'

/-- A text that starts with no digit is no whole number. -/
theorem nat?_ten_eq_none (no_digit : c.isDigit = false) : nat? 10 (c :: rest) = none := by
  refine Option.eq_none_iff_forall_ne_some.mpr fun n read => ?_
  obtain ⟨-, digits, -⟩ := Patch.nat?_ten_eq_some_iff.mp read
  rw [digits c List.mem_cons_self] at no_digit
  nomatch no_digit

theorem ne_zero_of_isDigit (no_digit : c.isDigit = false) : c ≠ '0' := by
  rintro rfl
  nomatch no_digit

theorem hasNeedlessZero_eq_false (no_number : StartsNoNumber c) : hasNeedlessZero (c :: rest) = false := by
  obtain ⟨no_digit, no_minus, no_plus, -⟩ := no_number
  have no_zero := ne_zero_of_isDigit no_digit
  simp [hasNeedlessZero, no_minus, no_plus, no_zero]

/-- A text that starts no number is no integer. -/
theorem int?_eq_none (no_number : StartsNoNumber c) : int? (c :: rest) = none := by
  obtain ⟨no_digit, no_minus, no_plus, -⟩ := no_number
  have no_zero := ne_zero_of_isDigit no_digit
  have unsigned : unsigned? (c :: rest) = none := by
    simp [unsigned?, no_zero, nat?_ten_eq_none no_digit]
  simp [int?, whole?, no_minus, no_plus, unsigned]

/-- A text that starts no number is no fraction either. -/
theorem float?_eq_none (no_number : StartsNoNumber c) (starts : text.toList = c :: rest) : float? text = none := by
  obtain ⟨no_digit, no_minus, no_plus, no_point⟩ := no_number
  -- the words for infinity and the like start with a point
  have other {name : String} (point : name.toList.head? = some '.') : (text == name) = false := by
    rw [beq_eq_false_iff_ne]
    rintro rfl
    rw [starts] at point
    exact no_point (Option.some.inj point)
  have no_fraction : finite? false (c :: rest) = none := by
    simp [finite?, fraction?, no_digit, no_point, nat?]
  have same : String.ofList (c :: rest) = text := by rw [← starts, String.ofList_toList]
  unfold float?
  rw [other rfl, other rfl, other rfl, starts]
  rw [Bool.false_or, Bool.false_or, if_neg Bool.false_ne_true]
  split
  next sign body unsigned =>
    simp only [List.cons.injEq, no_minus, no_plus, false_and, imp_self, implies_true] at unsigned
    obtain ⟨rfl, rfl⟩ := Prod.mk.inj unsigned
    dsimp only
    rw [same, other rfl, other rfl, other rfl]
    exact no_fraction

/-- A text that starts like no number is a word if it is not one of few. -/
theorem resolve_eq_word (no_number : StartsNoNumber c) (starts : text.toList = c :: rest)
    (no_null : isNull text = false) (no_bool : bool? text = none) : resolve text = .word := by
  unfold resolve
  rw [no_null, no_bool, starts]
  dsimp only
  rw [int?_eq_none no_number, hasNeedlessZero_eq_false no_number, float?_eq_none no_number starts]
  rfl

end Plain

/-! ## Keys -/

/-- Whether a text can be written as a key as it is. -/
structure IsPlainKey (text : String) : Prop where
  starts : ∃ c rest, text.toList = c :: rest ∧ (c.isAlpha = true ∨ c = '_')
  chars : ∀ c ∈ text.toList, IsPlainChar c
  no_null : Plain.isNull text = false
  no_bool : Plain.bool? text = none
  short : text.utf8ByteSize ≤ maxKeySize

/-- Letters start no number; the spellings of infinity start with a point. -/
theorem startsNoNumber_of_isAlpha {c : Char} (alpha : c.isAlpha = true) : Plain.StartsNoNumber c := by
  refine ⟨?_, ?_, ?_, ?_⟩
  · rw [← Bool.not_eq_true]
    intro digit
    have high : c.val.toNat ≤ 57 := (Char.isDigit_iff_toNat.mp digit).2
    simp only [Char.isAlpha, Char.isUpper, Char.isLower, Bool.or_eq_true, Bool.and_eq_true, decide_eq_true_eq,
      ge_iff_le, UInt32.le_iff_toNat_le] at alpha
    have : 'A'.val.toNat = 65 := rfl
    have : 'a'.val.toNat = 97 := rfl
    omega
  all_goals
    rintro rfl
    nomatch alpha

namespace IsPlainKey

/-- No key of an anchor starts like a number. -/
theorem startsNoNumber (key : IsPlainKey text) {c : Char} {rest : List Char} (starts : text.toList = c :: rest) :
    Plain.StartsNoNumber c := by
  obtain ⟨d, more, same, first⟩ := key.starts
  obtain ⟨rfl, rfl⟩ := List.cons.inj (starts.symm.trans same)
  rcases first with alpha | rfl
  · exact startsNoNumber_of_isAlpha alpha
  · exact ⟨rfl, by decide, by decide, by decide⟩

/-- The key of an anchor is to be written plain. -/
theorem wantedStyle (key : IsPlainKey text) : wantedStyle text = .plain := by
  obtain ⟨c, rest, starts, -⟩ := key.starts
  have no_number := key.startsNoNumber starts
  have no_feed : text.toList.contains '\n' = false := by
    rw [← Bool.not_eq_true, List.contains_iff_mem]
    exact fun mem => ne_of_isPlainChar (key.chars _ mem) (by decide) rfl
  unfold Yaml.wantedStyle
  dsimp only
  rw [no_feed, Plain.resolve_eq_word no_number starts key.no_null key.no_bool, starts,
    Plain.hasNeedlessZero_eq_false no_number]
  rfl

/-- It can be written plain. -/
theorem fitsPlain (key : IsPlainKey text) : fitsPlain text.toList = true := by
  obtain ⟨c, rest, starts, -⟩ := key.starts
  obtain ⟨-, no_dash, -, no_point⟩ := key.startsNoNumber starts
  have chars := key.chars
  rw [starts] at chars ⊢
  exact fitsPlain_of_isPlainChar chars (fun dash => absurd dash no_dash)
    (by simp [List.isPrefixOf, no_dash.symm]) (by simp [List.isPrefixOf, no_point.symm])

theorem any_isBreak (key : IsPlainKey text) : text.toList.any isBreak = false :=
  List.any_eq_false.mpr fun c mem => by simp [isBreak_of_isPlainChar (key.chars c mem)]

/-- Such a key is written as it is, in front of its colon. -/
theorem simpleKey? (key : IsPlainKey text) :
    (Piece.scalar none (.ofString text)).simpleKey? = some text.toList := by
  have style : (Leaf.ofString text).style = .plain := by
    simp [Leaf.style, Leaf.ofString, key.wantedStyle, writtenStyle, key.fitsPlain]
  have bare : (Piece.scalar none (.ofString text)).bareKey? = some (text.toList, text.utf8ByteSize) := by
    have line : writtenStyle .oneLine (Leaf.ofString text).wanted text.toList = _ :=
      Leaf.style_oneLine key.any_isBreak
    rw [style] at line
    rw [Piece.bareKey?, show (Leaf.ofString text).text = text from rfl, line, key.any_isBreak]
    rfl
  rw [Piece.simpleKey?, Piece.property?, bare]
  simp [key.short]

end IsPlainKey

/-- Digests consist of characters that may stand in such a key. -/
theorem isPlainChar_of_isDigest (hex : isDigest digest.toList = true) : ∀ c ∈ digest.toList, IsPlainChar c := by
  have digits : ∀ c ∈ "0123456789abcdef".toList, IsPlainChar c := forall_mem_of_all (by decide)
  unfold Anchors.isDigest at hex
  simp only [Bool.and_eq_true, List.all_eq_true, List.contains_iff_mem] at hex
  exact fun c mem => digits c (hex.2 c mem)

/-- A digest has 64 bytes. -/
theorem utf8ByteSize_of_isDigest (hex : isDigest digest.toList = true) : digest.utf8ByteSize = 64 := by
  have digits : ∀ c ∈ "0123456789abcdef".toList, (Plain.digit? c).isSome = true := forall_mem_of_all (by decide)
  have length := Anchors.length_of_isDigest hex
  unfold Anchors.isDigest at hex
  simp only [Bool.and_eq_true, List.all_eq_true, List.contains_iff_mem] at hex
  rw [← bytes_toList, bytes_of_digits fun c mem => digits c (hex.2 c mem), length]

/-- Keys that may be given anchors consist of such characters. -/
theorem isPlainChar_of_isAnchorKey (isKey : isAnchorKey name = true) : ∀ c ∈ name.toList, IsPlainChar c := by
  have signs : ∀ c ∈ "_.-/".toList, IsPlainChar c := forall_mem_of_all (by decide)
  intro c mem
  rcases (Anchors.isAnchorKey_spec isKey).2.1 c mem with alphanum | sign
  · exact .inl alphanum
  · exact signs c sign

/-- A key that may be given an anchor is written as it is. -/
theorem isPlainKey_of_isAnchorKey (isKey : isAnchorKey name = true) : IsPlainKey name := by
  obtain ⟨⟨c, rest, starts, first⟩, chars, short, no_word⟩ := Anchors.isAnchorKey_spec isKey
  -- the words with a meaning are reserved, and so are none of these keys
  have other {word : String} (reserved : word.toLower ∈ Anchors.reservedWords) : (name == word) = false := by
    rw [beq_eq_false_iff_ne]
    rintro rfl
    exact no_word reserved
  have no_tilde : (name == "~") = false := by
    rw [beq_eq_false_iff_ne]
    rintro rfl
    obtain ⟨rfl, -⟩ := List.cons.inj starts
    rcases first with alpha | same
    · nomatch alpha
    · nomatch same
  constructor
  · exact ⟨c, rest, starts, first⟩
  · exact isPlainChar_of_isAnchorKey isKey
  · unfold Plain.isNull
    rw [other (by decide +kernel), other (by decide +kernel), other (by decide +kernel), no_tilde]
    rfl
  · unfold Plain.bool?
    rw [other (by decide +kernel), other (by decide +kernel), other (by decide +kernel),
      other (by decide +kernel), other (by decide +kernel), other (by decide +kernel)]
    rfl
  · exact Nat.le_trans short (by decide)

/-- The mark of a key has an equals sign, so it is none of the words of another kind either. -/
theorem isPlainKey_definition (isKey : isAnchorKey name = true) (hex : isDigest digest.toList = true) :
    IsPlainKey (name ++ "=" ++ digest) := by
  obtain ⟨⟨c, rest, starts, first⟩, -, short, -⟩ := Anchors.isAnchorKey_spec isKey
  -- the equals sign keeps it apart from all words with a meaning
  have other {word : String} (clean : '=' ∉ word.toList) : (name ++ "=" ++ digest == word) = false := by
    rw [beq_eq_false_iff_ne]
    rintro rfl
    exact clean (by simp)
  constructor
  · exact ⟨c, rest ++ '=' :: digest.toList, by simp [starts], first⟩
  · intro c mem
    simp only [String.toList_append, List.mem_append] at mem
    rcases mem with (mem | mem) | mem
    · exact isPlainChar_of_isAnchorKey isKey c mem
    · exact (forall_mem_of_all (by decide) : ∀ c ∈ "=".toList, IsPlainChar c) c mem
    · exact isPlainChar_of_isDigest hex c mem
  · unfold Plain.isNull
    rw [other (by decide), other (by decide), other (by decide), other (by decide)]
    rfl
  · unfold Plain.bool?
    rw [other (by decide), other (by decide), other (by decide), other (by decide), other (by decide),
      other (by decide)]
    rfl
  · have size : "=".utf8ByteSize = 1 := rfl
    have small : name.utf8ByteSize ≤ 48 := short
    have large : maxKeySize = 128 := rfl
    rw [String.utf8ByteSize_append, String.utf8ByteSize_append, utf8ByteSize_of_isDigest hex]
    omega

/-! ## References -/

/-- A text with an asterisk in front is written between single quotes. -/
theorem style_reference (hex : isDigest digest.toList = true) :
    (Leaf.ofString ("*" ++ digest)).style = .singleQuoted := by
  have chars : ("*" ++ digest).toList = '*' :: digest.toList := by simp
  have printable : ∀ c ∈ '*' :: digest.toList, isPrintable c = true ∧ isSpace c = false ∧ isBreak c = false := by
    refine List.forall_mem_cons.mpr ⟨by decide, fun c mem => ?_⟩
    have plain := isPlainChar_of_isDigest hex c mem
    have space : c ≠ ' ' := ne_of_isPlainChar plain (by decide)
    exact ⟨isPrintable_of_isPlainChar plain, by simp [isSpace, space], isBreak_of_isPlainChar plain⟩
  have fits : fitsSingleQuotes ('*' :: digest.toList) = true := by
    have all : ('*' :: digest.toList).all isPrintable = true :=
      List.all_eq_true.mpr fun c mem => (printable c mem).1
    rw [fitsSingleQuotes, all, hasPair_eq_false fun c mem => (printable c mem).2.1,
      hasPair_eq_false fun c mem => (printable c mem).2.2]
    rfl
  -- unquoted it would be an alias
  have no_plain : fitsPlain ('*' :: digest.toList) = false := by
    have opens : opensWithIndicator ('*' :: digest.toList) = true := by
      simp [opensWithIndicator]
    simp [fitsPlain, opens]
  have no_feed : ('*' :: digest.toList).contains '\n' = false := by
    rw [← Bool.not_eq_true, List.contains_iff_mem]
    exact fun mem => absurd (printable _ mem).2.2 (by decide)
  have wanted : wantedStyle ("*" ++ digest) = .plain ∨ wantedStyle ("*" ++ digest) = .singleQuoted := by
    unfold wantedStyle
    dsimp only
    rw [chars, no_feed, if_neg Bool.false_ne_true]
    split
    · split
      · exact .inr rfl
      · exact .inl rfl
    · exact .inr rfl
  show writtenStyle .anyLines (wantedStyle ("*" ++ digest)) ("*" ++ digest).toList = _
  rcases wanted with wanted | wanted <;> rw [wanted, chars] <;> simp [writtenStyle, no_plain, fits]

/-- A reference in a tree with marks is written between single quotes, since it looks like an alias. -/
theorem text_reference (hex : isDigest digest.toList = true) (behind : Behind) (column : Nat) :
    (Piece.scalar none (.ofString ("*" ++ digest))).text behind column =
      behind.gap ++ ('\'' :: '*' :: digest.toList ++ ['\'', '\n']) := by
  have chars : (Leaf.ofString ("*" ++ digest)).text.toList = '*' :: digest.toList := by
    simp [Leaf.ofString]
  have no_break : ('*' :: digest.toList).any isBreak = false := by
    have digits : digest.toList.any isBreak = false := List.any_eq_false.mpr fun c mem => by
      simp [isBreak_of_isPlainChar (isPlainChar_of_isDigest hex c mem)]
    rw [List.any_cons, digits]
    rfl
  have no_quote : ∀ c ∈ '*' :: digest.toList, (if c = '\'' then [c, c] else [c]) = [c] := by
    refine List.forall_mem_cons.mpr ⟨rfl, fun c mem => if_neg ?_⟩
    exact ne_of_isPlainChar (isPlainChar_of_isDigest hex c mem) (by decide)
  rw [Piece.text, style_reference hex, chars, scalarLines, inSingleQuotes_of_no_break no_break,
    List.flatMap_congr no_quote, List.flatMap_singleton', Piece.lead, ← List.cons_append, endLine,
    List.getLast?_concat, if_neg (by decide)]
  simp

end DeployManifest.Yaml
