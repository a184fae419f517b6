import Mathlib
import DeployManifest.Manifest.Dns
import DeployManifest.Proofs.Resolution

/-!
# Domain names

A domain name is a list of labels with dots between them, and a label is made of characters of a class and
of dashes, with no dash at its ends (`IsDomainName`, `IsLabel`).  The class is that of the letters and digits,
of both cases or of one.

Two other ways to tell a domain name are the same.  A text of the right characters is one just if it starts and
ends with a character of the class and each of its dots stands between two of them
(`isDomainName_iff_dotsInside`).  And with letters of both cases the domain names, perhaps with a dot behind them,
are what a regular expression matches (`mem_namePattern_iff`).

- `StartsIn`, `EndsIn`: how a text starts and ends.
- `IsLabel`, `IsDomainName`: labels and domain names over a class of characters.
- `DotsInside`: dots that stand between characters of the class.
- `labelPattern`, `namePattern`: the same as regular expressions.
-/

namespace DeployManifest

variable {isWord isLetter : Char → Bool} {f : Char → Char} {text before after front back first label : List Char}
  {parts : List (List Char)}

/-! ## Labels with dots between them -/

/-- Whether a text starts with a character of a class. -/
def StartsIn (isWord : Char → Bool) (text : List Char) : Prop := ∃ c ∈ text.head?, isWord c = true

/-- Whether a text ends with a character of a class. -/
def EndsIn (isWord : Char → Bool) (text : List Char) : Prop := ∃ c ∈ text.getLast?, isWord c = true

/-- Whether a text is a label: characters of a class and dashes, with a character of the class at both ends. -/
structure IsLabel (isWord : Char → Bool) (label : List Char) : Prop where
  chars : ∀ c ∈ label, isWord c = true ∨ c = '-'
  starts : StartsIn isWord label
  ends : EndsIn isWord label

/-- Whether a text is a list of labels, of one at least, with dots between them. -/
def IsDomainName (isWord : Char → Bool) (text : List Char) : Prop :=
  ∃ labels, labels ≠ [] ∧ (∀ label ∈ labels, IsLabel isWord label) ∧ text = ['.'].intercalate labels

/-- Whether a character can occur in a domain name. -/
def IsNameChar (isWord : Char → Bool) (c : Char) : Prop := isWord c = true ∨ c = '-' ∨ c = '.'

/-- Whether every dot of a text stands between two characters of a class. -/
def DotsInside (isWord : Char → Bool) (text : List Char) : Prop :=
  ∀ before after, text = before ++ '.' :: after → EndsIn isWord before ∧ StartsIn isWord after

/-- What starts with a word character does so with more behind it. -/
theorem StartsIn.append (starts : StartsIn isWord front) (back : List Char) : StartsIn isWord (front ++ back) := by
  obtain ⟨c, head, word⟩ := starts
  refine ⟨c, ?_, word⟩
  rw [List.head?_append, Option.mem_def.mp head]
  rfl

theorem EndsIn.append (ends : EndsIn isWord back) (front : List Char) : EndsIn isWord (front ++ back) := by
  obtain ⟨c, last, word⟩ := ends
  exact ⟨c, List.mem_getLast?_append_of_mem_getLast? last, word⟩

theorem EndsIn.cons (ends : EndsIn isWord text) (c : Char) : EndsIn isWord (c :: text) := ends.append [c]

theorem StartsIn.of_append (starts : StartsIn isWord (front ++ back)) (filled : front ≠ []) :
    StartsIn isWord front := by
  obtain ⟨c, rest, rfl⟩ := List.exists_cons_of_ne_nil filled
  exact starts

/-- A back that is not empty ends as the whole text does. -/
theorem EndsIn.of_append (ends : EndsIn isWord (front ++ back)) (filled : back ≠ []) : EndsIn isWord back := by
  obtain ⟨c, last, word⟩ := ends
  refine ⟨c, ?_, word⟩
  rw [List.getLast?_append, List.getLast?_eq_some_getLast filled] at last
  rwa [List.getLast?_eq_some_getLast filled]

theorem startsIn_map_iff (words : ∀ c, isWord (f c) = isLetter c) :
    StartsIn isWord (text.map f) ↔ StartsIn isLetter text := by
  simp [StartsIn, words]

theorem endsIn_map_iff (words : ∀ c, isWord (f c) = isLetter c) :
    EndsIn isWord (text.map f) ↔ EndsIn isLetter text := by
  simp [EndsIn, words]

theorem IsLabel.ne_nil (isLabel : IsLabel isWord label) : label ≠ [] := by
  rintro rfl
  obtain ⟨c, head, -⟩ := isLabel.starts
  nomatch head

/-- A domain name has a first label, and others behind it with a dot in front of each. -/
theorem isDomainName_iff_exists_cons :
    IsDomainName isWord text ↔
      ∃ first parts, (∀ label ∈ first :: parts, IsLabel isWord label) ∧ text = first ++ parts.flatMap ('.' :: ·) := by
  constructor
  · rintro ⟨labels, filled, all, rfl⟩
    obtain ⟨first, parts, rfl⟩ := List.exists_cons_of_ne_nil filled
    exact ⟨first, parts, all, Text.intercalate_cons '.' first parts⟩
  · rintro ⟨first, parts, all, rfl⟩
    exact ⟨first :: parts, List.cons_ne_nil _ _, all, (Text.intercalate_cons '.' first parts).symm⟩

section

variable (apart : isWord '.' = false)

include apart

/-- No label has a dot. -/
theorem IsLabel.dot_not_mem (isLabel : IsLabel isWord label) : '.' ∉ label := by
  intro mem
  rcases isLabel.chars '.' mem with word | dash
  · exact Bool.false_ne_true (apart.symm.trans word)
  · exact absurd dash (by decide)

/-- A text is a domain name if all its parts between dots are labels. -/
theorem isDomainName_iff_splitAt :
    IsDomainName isWord text ↔ ∀ part ∈ Text.splitAt '.' text, IsLabel isWord part := by
  rw [isDomainName_iff_exists_cons]
  constructor
  · rintro ⟨first, parts, all, split⟩
    rw [Text.splitAt_eq_cons_iff.mpr ⟨split, fun label mem => (all label mem).dot_not_mem apart⟩]
    exact all
  · intro all
    obtain ⟨first, parts, split⟩ := List.exists_cons_of_ne_nil (Text.splitAt_ne_nil '.' text)
    rw [split] at all
    exact ⟨first, parts, all, (Text.splitAt_eq_cons_iff.mp split).1⟩

/-! ## Dots between characters of the class -/

theorem not_startsIn_dot : ¬ StartsIn isWord ('.' :: after) := by
  rintro ⟨_, ⟨⟩, word⟩
  exact Bool.false_ne_true (apart.symm.trans word)

/-- No text that ends with a dot ends with a word character. -/
theorem not_endsIn_dot : ¬ EndsIn isWord (before ++ ['.']) := by
  rintro ⟨c, last, word⟩
  rw [List.getLast?_concat] at last
  obtain rfl := Option.some.inj last
  exact Bool.false_ne_true (apart.symm.trans word)

/-- A piece of a text keeps its dots inside if none is at its ends. -/
theorem DotsInside.piece (front back : List Char) (inside : DotsInside isWord (front ++ text ++ back))
    (starts : StartsIn isWord text) (ends : EndsIn isWord text) : DotsInside isWord text := by
  rintro before after rfl
  obtain ⟨left, right⟩ := inside (front ++ before) (after ++ back) (by simp)
  have before_filled : before ≠ [] := by
    rintro rfl
    exact not_startsIn_dot apart starts
  have after_filled : after ≠ [] := by
    rintro rfl
    exact not_endsIn_dot apart ends
  exact ⟨left.of_append before_filled, right.of_append after_filled⟩

/-- What is put behind a text changes nothing if it has no dots. -/
theorem dotsInside_append_iff (starts : StartsIn isWord front) (ends : EndsIn isWord front) (clean : '.' ∉ back) :
    DotsInside isWord (front ++ back) ↔ DotsInside isWord front := by
  constructor
  · exact fun inside => inside.piece apart [] back starts ends
  · intro inside before after split
    -- what stands behind has no dots, so the dot stands in front
    rcases List.append_eq_append_iff.mp split with ⟨more, rfl, behind⟩ | ⟨more, rfl, behind⟩
    · rw [behind] at clean
      simp at clean
    · cases more with
      | nil =>
        rw [List.nil_append] at behind
        rw [← behind] at clean
        simp at clean
      | cons c more =>
        obtain ⟨rfl, rfl⟩ := List.cons.inj behind
        obtain ⟨left, right⟩ := inside before more rfl
        exact ⟨left, right.append back⟩

omit apart in
/-- What is put in front of a text changes nothing if it has no dots. -/
theorem DotsInside.append_front (inside : DotsInside isWord text) (clean : '.' ∉ front) :
    DotsInside isWord (front ++ text) := by
  intro before after split
  rcases List.append_eq_append_iff.mp split with ⟨more, rfl, behind⟩ | ⟨more, rfl, behind⟩
  · obtain ⟨left, right⟩ := inside more after behind
    exact ⟨left.append front, right⟩
  · cases more with
    | nil =>
      obtain ⟨⟨c, last, -⟩, -⟩ := inside [] after behind.symm
      nomatch last
    | cons c more =>
      obtain ⟨rfl, -⟩ := List.cons.inj behind
      simp at clean

omit apart in
/-- The dots stay where they are if other characters are exchanged within the class and outside of it. -/
theorem dotsInside_map_iff (words : ∀ c, isWord (f c) = isLetter c) (dots : ∀ c, f c = '.' ↔ c = '.') :
    DotsInside isWord (text.map f) ↔ DotsInside isLetter text := by
  constructor
  · rintro inside before after rfl
    obtain ⟨left, right⟩ := inside (before.map f) (after.map f) (by simp [(dots '.').mpr rfl])
    exact ⟨(endsIn_map_iff words).mp left, (startsIn_map_iff words).mp right⟩
  · intro inside before after split
    obtain ⟨before, dotted, rfl, rfl, mapped⟩ := List.map_eq_append_iff.mp split
    obtain ⟨c, after, rfl, dot, rfl⟩ := List.map_eq_cons_iff.mp mapped
    obtain ⟨left, right⟩ := inside before after (by rw [(dots c).mp dot])
    exact ⟨(endsIn_map_iff words).mpr left, (startsIn_map_iff words).mpr right⟩

omit apart in
/-- A dot of a text stands at the first dot or behind it. -/
theorem eq_or_exists_of_append_dot {rest : List Char} (clean : '.' ∉ first)
    (split : first ++ '.' :: rest = before ++ '.' :: after) :
    (before = first ∧ after = rest) ∨ ∃ more, before = first ++ '.' :: more ∧ rest = more ++ '.' :: after := by
  rcases List.append_eq_append_iff.mp split with ⟨more, rfl, behind⟩ | ⟨more, rfl, behind⟩
  · cases more with
    | nil => exact .inl ⟨by simp, (List.cons.inj behind).2.symm⟩
    | cons c more =>
      obtain ⟨rfl, rfl⟩ := List.cons.inj behind
      exact .inr ⟨more, rfl, rfl⟩
  · cases more with
    | nil => exact .inl ⟨by simp, (List.cons.inj behind).2⟩
    | cons c more =>
      obtain ⟨rfl, -⟩ := List.cons.inj behind
      simp at clean

/-- The induction is on the labels behind the first one. -/
theorem dotsInside_of_labels (all : ∀ label ∈ first :: parts, IsLabel isWord label) :
    EndsIn isWord (first ++ parts.flatMap ('.' :: ·)) ∧ DotsInside isWord (first ++ parts.flatMap ('.' :: ·)) := by
  induction parts generalizing first with
  | nil =>
    have only := all first List.mem_cons_self
    rw [List.flatMap_nil, List.append_nil]
    refine ⟨only.ends, fun before after split => absurd ?_ (only.dot_not_mem apart)⟩
    rw [split]
    exact List.mem_append_right _ List.mem_cons_self
  | cons second later ih =>
    have ⟨first_label, others⟩ := List.forall_mem_cons.mp all
    obtain ⟨ends, inside⟩ := ih others
    rw [List.flatMap_cons, List.cons_append]
    refine ⟨?_, fun before after split => ?_⟩
    · simpa using ends.append (first ++ ['.'])
    -- the dot is the one behind the first label, or one further behind
    · rcases eq_or_exists_of_append_dot (first_label.dot_not_mem apart) split with
        ⟨rfl, rfl⟩ | ⟨more, rfl, behind⟩
      · exact ⟨first_label.ends, (others second List.mem_cons_self).starts.append _⟩
      · obtain ⟨left, right⟩ := inside more after behind
        refine ⟨?_, right⟩
        simpa using left.append (first ++ ['.'])

theorem IsDomainName.endsIn (is_name : IsDomainName isWord text) : EndsIn isWord text := by
  obtain ⟨first, parts, all, rfl⟩ := isDomainName_iff_exists_cons.mp is_name
  exact (dotsInside_of_labels apart all).1

omit apart in
/-- The characters of a name that are no dots are those of labels. -/
theorem label_chars (clean : '.' ∉ label) (chars : ∀ c ∈ label, IsNameChar isWord c) :
    ∀ c ∈ label, isWord c = true ∨ c = '-' := by
  intro c mem
  rcases chars c mem with word | dash | rfl
  · exact .inl word
  · exact .inr dash
  · exact absurd mem clean

/-- The first dot tells that the first part ends as it should and that what is behind it starts so. -/
theorem labels_of_dotsInside (clean : ∀ part ∈ first :: parts, '.' ∉ part)
    (chars : ∀ c ∈ first ++ parts.flatMap ('.' :: ·), IsNameChar isWord c)
    (starts : StartsIn isWord (first ++ parts.flatMap ('.' :: ·)))
    (ends : EndsIn isWord (first ++ parts.flatMap ('.' :: ·)))
    (inside : DotsInside isWord (first ++ parts.flatMap ('.' :: ·))) :
    ∀ label ∈ first :: parts, IsLabel isWord label := by
  have first_chars := label_chars (clean first List.mem_cons_self) fun c mem => chars c (List.mem_append_left _ mem)
  -- the first dot stands between word characters: the first label ends in one, the rest starts with one
  induction parts generalizing first with
  | nil =>
    rw [List.flatMap_nil, List.append_nil] at starts ends
    exact List.forall_mem_singleton.mpr ⟨first_chars, starts, ends⟩
  | cons second later ih =>
    rw [List.flatMap_cons, List.cons_append] at chars starts ends inside
    have others_clean := (List.forall_mem_cons.mp clean).2
    have rest_chars : ∀ c ∈ second ++ later.flatMap ('.' :: ·), IsNameChar isWord c :=
      fun c mem => chars c (List.mem_append_right _ (List.mem_cons_of_mem _ mem))
    obtain ⟨first_ends, rest_starts⟩ := inside first _ rfl
    have first_filled : first ≠ [] := by
      rintro rfl
      exact not_startsIn_dot apart starts
    have rest_filled : second ++ later.flatMap ('.' :: ·) ≠ [] := by
      intro blank
      rw [blank] at rest_starts
      obtain ⟨c, head, -⟩ := rest_starts
      nomatch head
    have rest_ends : EndsIn isWord (second ++ later.flatMap ('.' :: ·)) := by
      have ends : EndsIn isWord ((first ++ ['.']) ++ (second ++ later.flatMap ('.' :: ·))) := by
        simpa using ends
      exact ends.of_append rest_filled
    have rest_inside : DotsInside isWord (second ++ later.flatMap ('.' :: ·)) := by
      refine DotsInside.piece apart (first ++ ['.']) [] ?_ rest_starts rest_ends
      simpa using inside
    refine List.forall_mem_cons.mpr ⟨⟨first_chars, starts.of_append first_filled, first_ends⟩, ?_⟩
    exact ih others_clean rest_chars rest_starts rest_ends rest_inside
      (label_chars (others_clean second List.mem_cons_self) fun c mem => rest_chars c (List.mem_append_left _ mem))

/-- A text of the right characters is a domain name if its ends and the two sides of each dot are in the class. -/
theorem isDomainName_iff_dotsInside (chars : ∀ c ∈ text, IsNameChar isWord c) :
    IsDomainName isWord text ↔ StartsIn isWord text ∧ EndsIn isWord text ∧ DotsInside isWord text := by
  obtain ⟨first, parts, pieces⟩ := List.exists_cons_of_ne_nil (Text.splitAt_ne_nil '.' text)
  obtain ⟨rfl, clean⟩ := Text.splitAt_eq_cons_iff.mp pieces
  rw [isDomainName_iff_splitAt apart, pieces]
  constructor
  · intro all
    obtain ⟨ends, inside⟩ := dotsInside_of_labels apart all
    exact ⟨(all first List.mem_cons_self).starts.append _, ends, inside⟩
  · rintro ⟨starts, ends, inside⟩
    exact labels_of_dotsInside apart clean chars starts ends inside

end

/-! ## The pattern of a domain name

With letters of both cases in the class.  A pattern has no ranges of characters and no optional parts of its own,
so that they are made of its sums. -/

section

open RegularExpression (char star)

variable {low high c : Char} {cs : List Char} {pattern : RegularExpression Char}

/-- The characters of a range. -/
def charsBetween (low high : Char) : List Char :=
  (List.range' low.toNat (high.toNat + 1 - low.toNat)).map Char.ofNat

/-- One character of a list. -/
def oneOf (cs : List Char) : RegularExpression Char := (cs.map char).sum

/-- What a pattern matches or nothing. -/
def optional (pattern : RegularExpression Char) : RegularExpression Char := 1 + pattern

/-- The letters and digits, `a-zA-Z0-9`. -/
def alphanumChars : List Char := charsBetween 'a' 'z' ++ charsBetween 'A' 'Z' ++ charsBetween '0' '9'

/-- The pattern `[a-zA-Z0-9]([-a-zA-Z0-9]*[a-zA-Z0-9])?` of a label. -/
def labelPattern : RegularExpression Char :=
  oneOf alphanumChars * optional (star (oneOf ('-' :: alphanumChars)) * oneOf alphanumChars)

/-- The pattern of a domain name that may have a dot behind it. -/
def namePattern : RegularExpression Char :=
  labelPattern * star (char '.' * labelPattern) * optional (char '.')

/-- Below the numbers that are no characters a range is what stands between its ends. -/
theorem mem_charsBetween (small : high.toNat < 0xD800) : c ∈ charsBetween low high ↔ low ≤ c ∧ c ≤ high := by
  simp only [charsBetween, List.mem_map, List.mem_range'_1]
  constructor
  · rintro ⟨n, ⟨above, below⟩, rfl⟩
    -- below the surrogates each number is that of a character
    have valid : n.isValidChar := .inl (by omega)
    have number : (Char.ofNat n).toNat = n := by
      rw [Char.ofNat, dif_pos valid]
      rfl
    constructor
    · change low.toNat ≤ (Char.ofNat n).toNat
      rwa [number]
    · change (Char.ofNat n).toNat ≤ high.toNat
      omega
  · rintro ⟨above, below⟩
    change low.toNat ≤ c.toNat at above
    change c.toNat ≤ high.toNat at below
    exact ⟨c.toNat, by omega, Char.ofNat_toNat c⟩

/-- The letters and digits, as a list. -/
theorem mem_alphanumChars : c ∈ alphanumChars ↔ c.isAlphanum = true := by
  simp only [alphanumChars, List.mem_append, mem_charsBetween (show ('z' : Char).toNat < 0xD800 by decide),
    mem_charsBetween (show ('Z' : Char).toNat < 0xD800 by decide),
    mem_charsBetween (show ('9' : Char).toNat < 0xD800 by decide), Char.isAlphanum, Char.isAlpha, Char.isUpper,
    Char.isLower, Char.isDigit, Bool.or_eq_true, Bool.and_eq_true, decide_eq_true_eq, Char.le_def, ge_iff_le]
  tauto

/-- A choice of characters matches one of them. -/
theorem mem_oneOf : text ∈ (oneOf cs).matches' ↔ ∃ c ∈ cs, text = [c] := by
  induction cs with
  | nil => simp [oneOf, Language.notMem_zero]
  | cons c cs ih =>
    rw [oneOf, List.map_cons, List.sum_cons, RegularExpression.matches'_add, Language.mem_add, ← oneOf, ih,
      List.exists_mem_cons_iff]
    rfl

/-- Repeated, it matches the texts of such characters. -/
theorem mem_star_oneOf : text ∈ (star (oneOf cs)).matches' ↔ ∀ c ∈ text, c ∈ cs := by
  rw [RegularExpression.matches'_star, Language.mem_kstar]
  constructor
  · rintro ⟨pieces, rfl, all⟩ c mem
    obtain ⟨piece, piece_mem, mem⟩ := List.mem_flatten.mp mem
    obtain ⟨d, listed, rfl⟩ := mem_oneOf.mp (all piece piece_mem)
    obtain rfl := List.mem_singleton.mp mem
    exact listed
  · intro all
    refine ⟨text.map fun c => [c], (List.flatMap_singleton' text).symm, fun piece mem => ?_⟩
    obtain ⟨c, c_mem, rfl⟩ := List.mem_map.mp mem
    exact mem_oneOf.mpr ⟨c, all c c_mem, rfl⟩

theorem mem_optional : text ∈ (optional pattern).matches' ↔ text = [] ∨ text ∈ pattern.matches' := by
  rw [optional, RegularExpression.matches'_add, Language.mem_add]
  rfl

/-- A character in front of a pattern matches itself and then what the pattern matches. -/
theorem mem_char_mul :
    text ∈ (char c * pattern).matches' ↔ ∃ rest ∈ pattern.matches', text = c :: rest := by
  rw [RegularExpression.matches'_mul, Language.mem_mul]
  constructor
  · rintro ⟨_, rfl, rest, matched, rfl⟩
    exact ⟨rest, matched, rfl⟩
  · rintro ⟨rest, matched, rfl⟩
    exact ⟨[c], rfl, rest, matched, rfl⟩

/-- The pattern of labels matches labels. -/
theorem mem_labelPattern_iff : label ∈ labelPattern.matches' ↔ IsLabel Char.isAlphanum label := by
  simp only [labelPattern, RegularExpression.matches'_mul, Language.mem_mul, mem_oneOf, mem_optional, mem_star_oneOf]
  constructor
  · rintro ⟨_, ⟨c, listed, rfl⟩, _, rfl | ⟨middle, allowed, _, ⟨d, d_listed, rfl⟩, rfl⟩, rfl⟩
    · have word := mem_alphanumChars.mp listed
      exact ⟨by simp [word], ⟨c, rfl, word⟩, ⟨c, rfl, word⟩⟩
    · have word := mem_alphanumChars.mp listed
      have d_word := mem_alphanumChars.mp d_listed
      refine ⟨fun e mem => ?_, ⟨c, rfl, word⟩, ⟨d, ?_, d_word⟩⟩
      · simp only [List.singleton_append, List.mem_cons, List.mem_append, List.not_mem_nil, or_false] at mem
        rcases mem with rfl | mem | rfl
        · exact .inl word
        · exact (List.mem_cons.mp (allowed e mem)).symm.imp_left mem_alphanumChars.mp
        · exact .inl d_word
      · rw [← List.append_assoc, List.getLast?_concat]
        rfl
  · rintro ⟨chars, ⟨c, head, word⟩, ⟨d, last, d_word⟩⟩
    obtain ⟨rest, rfl⟩ := List.head?_eq_some_iff.mp head
    refine ⟨[c], ⟨c, mem_alphanumChars.mpr word, rfl⟩, rest, ?_, rfl⟩
    -- one character alone is a label, and a longer label has a last character
    rcases List.eq_nil_or_concat rest with rfl | ⟨middle, e, rfl⟩
    · exact .inl rfl
    · rw [List.concat_eq_append, ← List.cons_append, List.getLast?_concat] at last
      obtain rfl := Option.some.inj last
      refine .inr ⟨middle, fun b mem => ?_, [e], ⟨e, mem_alphanumChars.mpr d_word, rfl⟩,
        (List.concat_eq_append ..).symm⟩
      refine List.mem_cons.mpr ((chars b ?_).symm.imp_right mem_alphanumChars.mpr)
      simp [mem]

/-- Repeated labels with dots in front are matched one by one. -/
theorem mem_star_dotted :
    text ∈ (star (char '.' * labelPattern)).matches' ↔
      ∃ parts : List (List Char), (∀ part ∈ parts, IsLabel Char.isAlphanum part) ∧ text = parts.flatMap ('.' :: ·) := by
  rw [RegularExpression.matches'_star, Language.mem_kstar]
  constructor
  · rintro ⟨pieces, rfl, all⟩
    -- each piece is a dot and a label
    induction pieces with
    | nil => exact ⟨[], by simp, rfl⟩
    | cons piece pieces ih =>
      obtain ⟨dotted, others⟩ := List.forall_mem_cons.mp all
      obtain ⟨label, matched, rfl⟩ := mem_char_mul.mp dotted
      obtain ⟨parts, labels, joined⟩ := ih others
      refine ⟨label :: parts, List.forall_mem_cons.mpr ⟨mem_labelPattern_iff.mp matched, labels⟩, ?_⟩
      rw [List.flatten_cons, joined, List.flatMap_cons]
  · rintro ⟨parts, labels, rfl⟩
    refine ⟨parts.map ('.' :: ·), List.flatMap_def .., fun piece mem => ?_⟩
    obtain ⟨part, part_mem, rfl⟩ := List.mem_map.mp mem
    exact mem_char_mul.mpr ⟨part, mem_labelPattern_iff.mpr (labels part part_mem), rfl⟩

/-- The pattern matches the domain names, with a dot behind them or without. -/
theorem mem_namePattern_iff :
    text ∈ namePattern.matches' ↔
      ∃ name, IsDomainName Char.isAlphanum name ∧ (text = name ∨ text = name ++ ['.']) := by
  simp only [namePattern, RegularExpression.matches'_mul (labelPattern * _), Language.mem_mul, mem_optional,
    RegularExpression.matches'_mul labelPattern, mem_star_dotted, mem_labelPattern_iff, isDomainName_iff_exists_cons]
  constructor
  · rintro ⟨_, ⟨first, is_label, _, ⟨parts, labels, rfl⟩, rfl⟩, tail, dotted, rfl⟩
    refine ⟨_, ⟨first, parts, List.forall_mem_cons.mpr ⟨is_label, labels⟩, rfl⟩, ?_⟩
    rcases dotted with rfl | rfl
    · exact .inl (List.append_nil _)
    · exact .inr rfl
  · rintro ⟨_, ⟨first, parts, labels, rfl⟩, ends⟩
    obtain ⟨is_label, labels⟩ := List.forall_mem_cons.mp labels
    rcases ends with plain | dotted
    · exact ⟨_, ⟨first, is_label, _, ⟨parts, labels, rfl⟩, rfl⟩, [], .inl rfl, (List.append_nil _).trans plain.symm⟩
    · exact ⟨_, ⟨first, is_label, _, ⟨parts, labels, rfl⟩, rfl⟩, ['.'], .inr rfl, dotted.symm⟩

end

end DeployManifest
