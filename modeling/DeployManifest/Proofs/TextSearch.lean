import Mathlib.Data.List.Basic
import DeployManifest.Text.Search

/-!
# Laws of searching

What a search of a text gives is said without the search: the parts of a text are those that hold no
separator and make up the text (`splitAt_eq_cons_iff`), and the first separator stands behind a text without
any (`splitOnce?_eq_some_iff`).

A replacement goes through a text from the left.  It takes a whole match at once (`replaceAll_append`) and
leaves a character that no match starts with (`replaceAll_cons`), which is all there is to know about it.
It goes through a text part by part if no match reaches from one into the next (`replaceAll_append_cons`).

- `splitAt_eq_cons_iff`, `splitAt_intercalate`: the parts of a text.
- `splitOnce?_eq_some_iff`, `stripStart?_eq_some_iff`: one separator, or a start.
- `replaceAll_append`, `replaceAll_cons`, `replaceAll_induct`: the steps of a replacement, and the induction
  along them.
- `replaceAll_eq_self`, `replaceAll_append_of_apart`: texts in which nothing is replaced, or only part by
  part.
-/

namespace DeployManifest.Text

variable {sep : Char} {text first before after : List Char} {parts : List (List Char)}

/-- A text has at least one part. -/
theorem splitAt_ne_nil (sep : Char) (text : List Char) : splitAt sep text ≠ [] := by
  cases text with
  | nil => exact List.cons_ne_nil _ _
  | cons c rest =>
    unfold splitAt
    split
    · exact List.cons_ne_nil _ _
    · split <;> exact List.cons_ne_nil _ _

/-- A text without separators is its only part. -/
theorem splitAt_of_notMem (clean : sep ∉ text) : splitAt sep text = [text] := by
  induction text with
  | nil => rfl
  | cons c rest ih =>
    have ⟨other, clean⟩ := List.ne_and_not_mem_of_not_mem_cons clean
    rw [splitAt, if_neg (Ne.symm other), ih clean]

/-- The first part of a text ends at the first separator, and the others are those of what stands behind it.
    -/
theorem splitAt_append (clean : sep ∉ before) :
    splitAt sep (before ++ sep :: after) = before :: splitAt sep after := by
  induction before with
  | nil => rw [List.nil_append, splitAt, if_pos rfl]
  | cons c rest ih =>
    have ⟨other, clean⟩ := List.ne_and_not_mem_of_not_mem_cons clean
    rw [List.cons_append, splitAt, if_neg (Ne.symm other), ih clean]

/-- The parts of a text are those that hold no separator and make up the text with separators between
    them. -/
theorem splitAt_eq_cons_iff :
    splitAt sep text = first :: parts ↔
      text = first ++ parts.flatMap (sep :: ·) ∧ ∀ part ∈ first :: parts, sep ∉ part := by
  constructor
  · intro split
    induction text generalizing first parts with
    | nil =>
      obtain ⟨rfl, rfl⟩ := List.cons.inj split
      simp
    | cons c rest ih =>
      -- the first character is a separator of its own or belongs to the first part
      obtain ⟨second, later, behind⟩ := List.exists_cons_of_ne_nil (splitAt_ne_nil sep rest)
      obtain ⟨rest_eq, clean⟩ := ih behind
      rw [splitAt, behind] at split
      by_cases here : c = sep
      · rw [if_pos here] at split
        obtain ⟨rfl, rfl⟩ := List.cons.inj split
        refine ⟨by rw [here, rest_eq]; rfl, ?_⟩
        exact List.forall_mem_cons.mpr ⟨List.not_mem_nil, clean⟩
      · rw [if_neg here] at split
        obtain ⟨rfl, rfl⟩ := List.cons.inj split
        have ⟨second_clean, later_clean⟩ := List.forall_mem_cons.mp clean
        refine ⟨by rw [rest_eq]; rfl, List.forall_mem_cons.mpr ⟨?_, later_clean⟩⟩
        exact List.not_mem_cons_of_ne_of_not_mem (Ne.symm here) second_clean
  · rintro ⟨rfl, clean⟩
    induction parts generalizing first with
    | nil => simpa using splitAt_of_notMem (clean first List.mem_cons_self)
    | cons second later ih =>
      have ⟨first_clean, later_clean⟩ := List.forall_mem_cons.mp clean
      rw [List.flatMap_cons, List.cons_append, splitAt_append first_clean, ih later_clean]

/-- Parts with separators between them: the first part, and every other one behind a separator. -/
theorem intercalate_cons (sep : Char) (first : List Char) (parts : List (List Char)) :
    [sep].intercalate (first :: parts) = first ++ parts.flatMap (sep :: ·) := by
  induction parts generalizing first with
  | nil => simp
  | cons second rest ih =>
    rw [List.intercalate_cons_cons, ih, List.flatMap_cons]
    simp

/-- Texts that hold no separator are the parts of what they make up with separators between them. -/
theorem splitAt_intercalate (nonempty : parts ≠ []) (clean : ∀ part ∈ parts, sep ∉ part) :
    splitAt sep ([sep].intercalate parts) = parts := by
  obtain ⟨first, rest, rfl⟩ := List.exists_cons_of_ne_nil nonempty
  exact splitAt_eq_cons_iff.mpr ⟨intercalate_cons sep first rest, clean⟩

/-- A text is parted at a separator just if there is none in front of it. -/
theorem splitOnce?_eq_some_iff :
    splitOnce? sep text = some (before, after) ↔ text = before ++ sep :: after ∧ sep ∉ before := by
  constructor
  · intro split
    -- the text is searched up to the first separator
    induction text generalizing before with
    | nil => nomatch split
    | cons c rest ih =>
      unfold splitOnce? at split
      split at split
      · next here =>
        cases split
        exact ⟨by rw [here]; rfl, List.not_mem_nil⟩
      · next other =>
        obtain ⟨⟨shorter, tail⟩, found, same⟩ := Option.map_eq_some_iff.mp split
        obtain ⟨rfl, rfl⟩ := Prod.mk.inj same
        obtain ⟨rest_eq, clean⟩ := ih found
        exact ⟨by rw [rest_eq]; rfl, List.not_mem_cons_of_ne_of_not_mem (Ne.symm other) clean⟩
  · rintro ⟨rfl, clean⟩
    -- in front of the separator there is none to stop at
    induction before with
    | nil => rw [List.nil_append, splitOnce?, if_pos rfl]
    | cons c rest ih =>
      have ⟨other, clean⟩ := List.ne_and_not_mem_of_not_mem_cons clean
      rw [List.cons_append, splitOnce?, if_neg (Ne.symm other), ih clean]
      rfl

/-- A start is taken off just if the text starts with it. -/
theorem stripStart?_eq_some_iff : stripStart? before text = some after ↔ text = before ++ after := by
  unfold stripStart?
  constructor
  · intro stripped
    split at stripped
    · next starts =>
      obtain ⟨rest, rfl⟩ := List.isPrefixOf_iff_prefix.mp starts
      rw [List.drop_left] at stripped
      rw [Option.some.inj stripped]
    · nomatch stripped
  · rintro rfl
    rw [if_pos (List.isPrefixOf_iff_prefix.mpr (List.prefix_append before after)), List.drop_left]

/-! ## Replacing -/

section

variable {pattern replacement : List Char} {c : Char}

/-- What is skipped belongs to a match already. -/
theorem replaceFrom_eq (skip : Nat) (text : List Char) :
    replaceFrom pattern replacement skip text = replaceAll pattern replacement (text.drop skip) := by
  induction text generalizing skip with
  | nil => cases skip <;> rfl
  | cons c rest ih =>
    cases skip with
    | zero => rfl
    | succ skip => exact ih skip

/-- A match at the start is replaced, and the search goes on behind it. -/
theorem replaceAll_append (nonempty : pattern ≠ []) (after : List Char) :
    replaceAll pattern replacement (pattern ++ after) =
      replacement ++ replaceAll pattern replacement after := by
  obtain ⟨c, more, rfl⟩ := List.exists_cons_of_ne_nil nonempty
  have found : (c :: more).isPrefixOf (c :: (more ++ after)) = true :=
    List.isPrefixOf_iff_prefix.mpr (List.prefix_append (c :: more) after)
  show replaceFrom (c :: more) replacement 0 (c :: (more ++ after)) = _
  rw [replaceFrom, if_pos found, replaceFrom_eq, List.length_cons, Nat.add_sub_cancel, List.drop_left]

theorem replaceAll_self (nonempty : pattern ≠ []) : replaceAll pattern replacement pattern = replacement := by
  have whole : replaceAll pattern replacement (pattern ++ []) = replacement ++ [] := replaceAll_append nonempty []
  rwa [List.append_nil, List.append_nil] at whole

/-- A character that no match starts with stays, and the search goes on behind it. -/
theorem replaceAll_cons (missed : ¬ pattern <+: c :: text) :
    replaceAll pattern replacement (c :: text) = c :: replaceAll pattern replacement text := by
  have missed : ¬ pattern.isPrefixOf (c :: text) = true := fun found =>
    missed (List.isPrefixOf_iff_prefix.mp found)
  show replaceFrom pattern replacement 0 (c :: text) = _
  rw [replaceFrom, if_neg missed]
  rfl

/-- A search goes on behind a match, or behind a character that no match starts with. -/
theorem replaceAll_induct {motive : List Char → Prop} (nonempty : pattern ≠ []) (nil : motive [])
    (hit : ∀ after, motive after → motive (pattern ++ after))
    (miss : ∀ c rest, ¬ pattern <+: c :: rest → motive rest → motive (c :: rest)) (text : List Char) :
    motive text := by
  -- a match takes several characters at once, so the induction is on the length
  induction size : text.length using Nat.strongRecOn generalizing text with
  | ind n ih =>
    subst size
    cases text with
    | nil => exact nil
    | cons c rest =>
      by_cases found : pattern <+: c :: rest
      · obtain ⟨after, whole⟩ := found
        have shorter : after.length < (c :: rest).length := by
          rw [← whole, List.length_append]
          have := List.length_pos_iff.mpr nonempty
          omega
        rw [← whole]
        exact hit after (ih _ shorter after rfl)
      · exact miss c rest found (ih rest.length (by simp) rest rfl)

/-- Nothing is replaced in a text without matches. -/
theorem replaceAll_eq_self (missed : ¬ pattern <:+: text) : replaceAll pattern replacement text = text := by
  induction text with
  | nil => rfl
  | cons c rest ih =>
    rw [replaceAll_cons fun starts => missed starts.isInfix, ih fun later => missed (List.infix_cons later)]

/-- Two parts of a text are searched one after the other if no match reaches from the first into the
    second. -/
theorem replaceAll_append_of_apart (nonempty : pattern ≠ [])
    (apart : ∀ back, back <:+ before → back ≠ [] → pattern <+: back ++ after → pattern <+: back) :
    replaceAll pattern replacement (before ++ after) =
      replaceAll pattern replacement before ++ replaceAll pattern replacement after := by
  induction before using replaceAll_induct nonempty with
  | nil => rfl
  | hit rest ih =>
    have later := ih fun back suffix => apart back (suffix.trans (List.suffix_append pattern rest))
    rw [List.append_assoc, replaceAll_append nonempty, replaceAll_append nonempty, later, List.append_assoc]
  | miss c rest missed ih =>
    have later := ih fun back suffix => apart back (suffix.trans (List.suffix_cons c rest))
    have missed_whole : ¬ pattern <+: c :: (rest ++ after) := fun starts =>
      missed (apart (c :: rest) List.suffix_rfl (List.cons_ne_nil c rest) starts)
    rw [List.cons_append, replaceAll_cons missed_whole, replaceAll_cons missed, later, List.cons_append]

/-- A match does not reach over a character that it may have only at its end. -/
theorem eq_or_isPrefix_of_isPrefix (clean : sep ∉ pattern.dropLast)
    (starts : pattern <+: before ++ sep :: after) : pattern = before ++ [sep] ∨ pattern <+: before := by
  have first : before ++ [sep] <+: before ++ sep :: after := ⟨after, by simp⟩
  rcases List.prefix_or_prefix_of_prefix starts first with short | ⟨more, longer⟩
  · exact List.prefix_concat_iff.mp short
  · rcases List.eq_nil_or_concat' more with rfl | ⟨between, c, rfl⟩
    · exact .inl (by simpa using longer.symm)
    · rw [← longer, ← List.append_assoc, List.dropLast_concat] at clean
      exact absurd (by simp) clean

/-- A search is parted behind a character that a match may have only at its end. -/
theorem replaceAll_append_cons (nonempty : pattern ≠ []) (clean : sep ∉ pattern.dropLast)
    (before after : List Char) :
    replaceAll pattern replacement (before ++ sep :: after) =
      replaceAll pattern replacement (before ++ [sep]) ++ replaceAll pattern replacement after := by
  rw [List.append_cons]
  refine replaceAll_append_of_apart nonempty fun back suffix inside starts => ?_
  rcases List.suffix_concat_iff.mp suffix with rfl | ⟨front, rfl, -⟩
  · exact absurd rfl inside
  · rw [← List.append_cons] at starts
    rcases eq_or_isPrefix_of_isPrefix clean starts with rfl | short
    · exact List.prefix_rfl
    · exact short.trans (List.prefix_append front [sep])

/-- A character at the end that is not in the pattern stays, whatever is replaced in front of it. -/
theorem replaceAll_concat (nonempty : pattern ≠ []) (clean : sep ∉ pattern) (before : List Char) :
    replaceAll pattern replacement (before ++ [sep]) = replaceAll pattern replacement before ++ [sep] := by
  have clean_front : sep ∉ pattern.dropLast := fun mem => clean (List.dropLast_subset pattern mem)
  have alone : ¬ pattern <:+: [sep] := by
    intro within
    obtain ⟨c, mem⟩ := List.exists_mem_of_ne_nil pattern nonempty
    exact clean (List.mem_singleton.mp (within.subset mem) ▸ mem)
  rw [replaceAll_append_of_apart nonempty, replaceAll_eq_self alone]
  intro back _ _ starts
  refine (eq_or_isPrefix_of_isPrefix clean_front starts).resolve_left ?_
  rintro rfl
  exact clean (by simp)

end

/-! ## Words within a text -/

/-- A text that does not hold `c` stands on one side of it. -/
theorem infix_append_cons_iff {c : Char} {a b word : List Char} (outside : c ∉ word) :
    word <:+: a ++ c :: b ↔ word <:+: a ∨ word <:+: b := by
  constructor
  · rintro ⟨front, back, whole⟩
    -- the word ends in front of the character, or it reaches beyond
    rcases List.append_eq_append_iff.mp whole with ⟨between, a_eq, -⟩ | ⟨cut, front_eq, cut_eq⟩
    · exact .inl ⟨front, between, a_eq.symm⟩
    · cases cut with
      | nil => exact .inl ⟨front, [], by simpa using front_eq⟩
      | cons d cut =>
        obtain ⟨rfl, b_eq⟩ := List.cons.inj cut_eq
        -- it cannot hold the character, so it starts behind it
        rcases List.append_eq_append_iff.mp front_eq with ⟨more, -, word_eq⟩ | ⟨more, -, word_eq⟩
        · exact absurd (word_eq ▸ List.mem_append_right more List.mem_cons_self) outside
        · cases more with
          | nil =>
            have word_eq : c :: cut = word := word_eq
            exact absurd (word_eq ▸ List.mem_cons_self) outside
          | cons d more =>
            obtain ⟨-, rfl⟩ := List.cons.inj word_eq
            exact .inr ⟨more, back, b_eq.symm⟩
  · rintro (⟨front, back, rfl⟩ | ⟨front, back, rfl⟩)
    · exact ⟨front, back ++ c :: b, by simp⟩
    · exact ⟨a ++ c :: front, back, by simp⟩

/-- A word stands behind what does not hold its first character. -/
theorem infix_append_iff_of_notMem {sign : Char} {a b rest : List Char} (clean : sign ∉ a) :
    sign :: rest <:+: a ++ b ↔ sign :: rest <:+: b := by
  induction a with
  | nil => rfl
  | cons d more ih =>
    have ⟨other, clean⟩ := List.ne_and_not_mem_of_not_mem_cons clean
    rw [List.cons_append, List.infix_cons_iff, ih clean, or_iff_right]
    rintro ⟨behind, whole⟩
    exact other (List.cons.inj whole).1

end DeployManifest.Text
