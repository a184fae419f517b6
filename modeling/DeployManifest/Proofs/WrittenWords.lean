import DeployManifest.Proofs.QuotedReading
import DeployManifest.Proofs.TextSearch
import Mathlib.Data.List.Infix

/-!
# Words in written texts

A text is changed on its way into a document: strings are quoted, escaped and indented, and marks turn
into anchors.  No such change makes up a word that is looked for there, be it a placeholder or a mark
(`IsWord`).  The word does not start in what is put in, and does not reach beyond a character there that
stands in no such word; such a text is a wall (`IsWall`).

`Echoes word text copy` says that the copy is the text with walls put in, perhaps in place of some of its
characters.  A word that stands in the copy stands in the text then (`Echoes.isInfix`).

Main statement: `infix_of_scalarLines`, for strings in all styles.

- `IsWord.isWall`: the signs that strings are written with are walls for all words.
- `Echoes.append`, `Echoes.behind_wall`, `Echoes.before_wall`: copies can be put together.
- `echoes_flatMap`, `echoes_indentLines`: escaping and indenting give copies.
-/

namespace DeployManifest.Yaml

variable {word text copy a b : List Char} {c : Char}

/-- The signs that words which are looked for start with. -/
def wordSigns : List Char := ['(', '*', '=']

/-- Whether a word that is looked for starts with a sign of its own, and has no break and none of the signs
    that scalars are written with. -/
structure IsWord (word : List Char) : Prop where
  starts : ∃ sign ∈ wordSigns, ∃ rest, word = sign :: rest
  within : ∀ c ∈ word, isBreak c = false ∧ c ∉ " :'\x22\\|".toList

/-! ## Walls -/

/-- Whether a word can neither start in a text nor reach through it: in front of a character that is not in
    the word there is none that the word ends with. -/
def IsWall (word text : List Char) : Prop :=
  (∀ sign ∈ word.head?, sign ∉ text) ∧
    ∃ before c after, text = before ++ c :: after ∧ (∀ last ∈ word.getLast?, last ∉ before) ∧ c ∉ word

/-- A character that the word does not hold starts a wall, if the word does not start behind it. -/
theorem isWall_cons (apart : c ∉ word) (no_start : ∀ sign ∈ word.head?, sign ∉ a) : IsWall word (c :: a) := by
  refine ⟨fun sign starts => ?_, [], c, a, rfl, fun _ _ => List.not_mem_nil, apart⟩
  refine List.not_mem_cons_of_ne_of_not_mem ?_ (no_start sign starts)
  rintro rfl
  exact apart (List.mem_of_head? starts)

/-- A word that is looked for holds no sign that strings are written with. -/
theorem IsWord.notMem (is_word : IsWord word) (apart : isBreak c = true ∨ c ∈ " :'\x22\\|".toList) : c ∉ word := by
  intro mem
  obtain ⟨no_break, no_sign⟩ := is_word.within c mem
  rcases apart with breaks | sign
  · rw [no_break] at breaks
    nomatch breaks
  · exact no_sign sign

/-- What scalars are written with is a wall for all words. -/
theorem IsWord.isWall (is_word : IsWord word) (apart : isBreak c = true ∨ c ∈ " :'\x22\\|".toList)
    (clean : ∀ sign ∈ wordSigns, sign ∉ a) : IsWall word (c :: a) := by
  refine isWall_cons (is_word.notMem apart) ?_
  obtain ⟨sign, is_sign, rest, rfl⟩ := is_word.starts
  rintro _ ⟨⟩
  exact clean sign is_sign

/-- Whether the first text is the second with walls put in, some of them in place of other texts. -/
inductive Echoes (word : List Char) : List Char → List Char → Prop where
  | nil : Echoes word [] []
  | same {text copy : List Char} (c : Char) (rest : Echoes word text copy) :
    Echoes word (c :: text) (c :: copy)
  | wall {text copy put : List Char} (gone : List Char) (wall : IsWall word put)
    (rest : Echoes word text copy) : Echoes word (gone ++ text) (put ++ copy)

/-- Copies that are put together are a copy. -/
theorem Echoes.append (first : Echoes word text copy) (second : Echoes word a b) :
    Echoes word (text ++ a) (copy ++ b) := by
  induction first with
  | nil => exact second
  | same c _ ih => exact .same c ih
  | wall gone wall _ ih =>
    rw [List.append_assoc, List.append_assoc]
    exact .wall gone wall ih

/-- Walls may be put in where nothing was. -/
theorem Echoes.behind_wall {put : List Char} (wall : IsWall word put) (echoes : Echoes word text copy) :
    Echoes word text (put ++ copy) := .wall [] wall echoes

theorem Echoes.before_wall {put : List Char} (wall : IsWall word put) (echoes : Echoes word text copy) :
    Echoes word text (copy ++ put) := by
  simpa using echoes.append (Echoes.nil.behind_wall wall)

/-- The rest of a word does not reach into a wall. -/
theorem Echoes.isPrefix (echoes : Echoes word text copy) {rest : List Char} (suffix : rest <:+ word)
    (starts : rest <+: copy) : rest <+: text := by
  induction echoes generalizing rest with
  | nil => exact starts
  | @same text copy c _ ih =>
    cases rest with
    | nil => exact List.nil_prefix
    | cons d more =>
      obtain ⟨rfl, later⟩ := List.cons_prefix_cons.mp starts
      exact List.cons_prefix_cons.mpr ⟨rfl, ih ((List.suffix_cons _ more).trans suffix) later⟩
  | @wall text copy put gone wall _ _ =>
    obtain ⟨-, before, c, after, rfl, before_open, apart⟩ := wall
    have outside : c ∉ rest := fun mem => apart (suffix.subset mem)
    have first : before ++ [c] <+: before ++ c :: after ++ copy := ⟨after ++ copy, by simp⟩
    rcases List.prefix_or_prefix_of_prefix starts first with short | long
    · rcases List.prefix_concat_iff.mp short with rfl | short
      · exact absurd (List.mem_append_right before List.mem_cons_self) outside
      -- the word does not end in front of the character that is not in it
      · rcases List.eq_nil_or_concat' rest with rfl | ⟨front, last, rfl⟩
        · exact List.nil_prefix
        · obtain ⟨more, rfl⟩ := suffix
          have mem : last ∈ before := short.subset (by simp)
          exact absurd mem (before_open last (by simp [← List.append_assoc]))
    · exact absurd (long.subset (List.mem_append_right before List.mem_cons_self)) outside

/-- A word that stands in the copy stands in the text. -/
theorem Echoes.isInfix (echoes : Echoes word text copy) (nonempty : word ≠ []) (within : word <:+: copy) :
    word <:+: text := by
  induction echoes with
  | nil => exact within
  | same c rest ih =>
    rcases List.infix_cons_iff.mp within with starts | later
    · exact ((rest.same c).isPrefix List.suffix_rfl starts).isInfix
    · exact List.infix_cons (ih later)
  | wall gone wall _ ih =>
    obtain ⟨sign, rest, rfl⟩ := List.exists_cons_of_ne_nil nonempty
    have behind := (Text.infix_append_iff_of_notMem (wall.1 sign rfl)).mp within
    exact (ih behind).trans (List.suffix_append gone _).isInfix

/-- Writing each character as itself or as a wall gives a copy. -/
theorem echoes_flatMap {write : Char → List Char} (text : List Char)
    (each : ∀ c, write c = [c] ∨ IsWall word (write c)) : Echoes word text (text.flatMap write) := by
  induction text with
  | nil => exact .nil
  | cons c rest ih =>
    rw [List.flatMap_cons]
    rcases each c with same | wall
    · rw [same]
      exact .same c ih
    · exact .wall [c] wall ih

/-! ## Strings in all styles -/

namespace IsWord

variable (is_word : IsWord word)
include is_word

theorem ne_nil : word ≠ [] := by
  obtain ⟨sign, -, rest, rfl⟩ := is_word.starts
  exact List.cons_ne_nil sign rest

theorem infix_append_iff (clean : ∀ sign ∈ wordSigns, sign ∉ a) : word <:+: a ++ b ↔ word <:+: b := by
  obtain ⟨sign, is_sign, rest, rfl⟩ := is_word.starts
  exact Text.infix_append_iff_of_notMem (clean sign is_sign)

theorem not_within (clean : ∀ sign ∈ wordSigns, sign ∉ a) : ¬ word <:+: a := by
  intro within
  rw [← List.append_nil a, is_word.infix_append_iff clean] at within
  exact is_word.ne_nil (List.eq_nil_of_infix_nil within)

/-- Indentation gives a copy. -/
theorem echoes_behind_spaces (echoes : Echoes word text copy) (n : Nat) :
    Echoes word text (spaces n ++ copy) := by
  cases n with
  | zero => exact echoes
  | succ n =>
    refine echoes.behind_wall (is_word.isWall (.inr (by decide)) fun sign is_sign mem => ?_)
    obtain rfl := List.eq_of_mem_replicate mem
    exact absurd is_sign (by decide)

/-- A character is written as itself or as a wall. -/
theorem isWall_of_escaped {written : List Char} (escaped : Escaped c written) :
    written = [c] ∨ IsWall word written := by
  cases escaped with
  | own => exact .inl rfl
  -- no sign that makes up words is the letter or a digit of an escape
  | letter e _ read =>
    refine .inr (is_word.isWall (.inr (by decide)) fun sign is_sign mem => ?_)
    obtain rfl := List.mem_singleton.mp mem
    have none_read : ∀ sign ∈ wordSigns, (escape? sign).isNone = true := forall_mem_of_all (by decide)
    simpa [read] using none_read sign is_sign
  | number e digits _ read spells =>
    refine .inr (is_word.isWall (.inr (by decide)) fun sign is_sign mem => ?_)
    rcases List.mem_cons.mp mem with rfl | mem
    · have none_read : ∀ sign ∈ wordSigns, (escape? sign).isNone = true := forall_mem_of_all (by decide)
      simpa [read] using none_read sign is_sign
    · unfold charByNumber? at spells
      split at spells
      · next number =>
        have no_digit : ∀ sign ∈ wordSigns, (Plain.digit? sign).isSome = false := forall_mem_of_all (by decide)
        exact absurd (digit?_of_nat? number sign mem) (by simp [no_digit sign is_sign])
      · nomatch spells

/-- So lines can be indented. -/
theorem echoes_indentLines (column : Nat) (atStart : Bool) (text : List Char) :
    Echoes word text (indentLines column atStart text) := by
  induction text generalizing atStart with
  | nil => exact .nil
  | cons c rest ih =>
    unfold indentLines
    split
    · exact .same c (ih true)
    · split
      · exact is_word.echoes_behind_spaces (.same c (ih false)) column
      · exact .same c (ih false)

theorem isWall_singleton (sign : c ∈ " :'\x22\\|".toList) : IsWall word [c] :=
  is_word.isWall (.inr sign) fun _ _ => List.not_mem_nil

/-- What stands between single quotes is the text with its quotes doubled and its lines indented. -/
theorem infix_of_inSingleQuotes {column : Nat} (within : word <:+: inSingleQuotes column text) :
    word <:+: text := by
  have quote : IsWall word ['\''] := is_word.isWall_singleton (by decide)
  -- from the outside in: quotes, margins, and quotes that are doubled
  have doubled : Echoes word text (text.flatMap fun c => if c = '\'' then [c, c] else [c]) := by
    refine echoes_flatMap text fun c => ?_
    split
    · next same => exact .inr (same ▸ is_word.isWall (.inr (by decide)) (forall_mem_of_all (by decide)))
    · exact .inl rfl
  refine doubled.isInfix is_word.ne_nil (Echoes.isInfix ?_ is_word.ne_nil within)
  unfold inSingleQuotes
  dsimp only
  generalize text.flatMap _ = doubled
  have inside : Echoes word doubled (indentLines column false doubled ++
      if text.getLast?.any isBreak then spaces column else []) := by
    have indented := is_word.echoes_indentLines column false doubled
    split
    · simpa using indented.append (is_word.echoes_behind_spaces .nil column)
    · simpa using indented
  exact (inside.behind_wall quote).before_wall quote

omit is_word in
/-- No word starts in the hints of a literal block. -/
theorem notMem_literalHints (text : List Char) : ∀ sign ∈ wordSigns, sign ∉ literalHints text := by
  have hints : ∀ c ∈ literalHints text, c ∉ wordSigns := by
    unfold literalHints
    dsimp only
    intro c mem
    rcases List.mem_append.mp mem with mem | mem
    · split at mem <;> simp_all [wordSigns]
    · repeat' split at mem
      all_goals simp_all [wordSigns]
  exact fun sign is_sign mem => hints sign mem is_sign

/-- A word in a written string is one of the string, whatever style the string is written in. -/
theorem infix_of_scalarLines {style : Style} {column : Nat} (within : word <:+: scalarLines style column text) :
    word <:+: text := by
  unfold scalarLines at within
  split at within
  · exact is_word.infix_of_inSingleQuotes within
  · refine Echoes.isInfix ?_ is_word.ne_nil within
    -- what stands in front of the lines is a wall to the word
    have bar : IsWall word ('|' :: literalHints text ++ ['\n']) := by
      refine is_word.isWall (.inr (by decide)) fun sign is_sign mem => ?_
      rcases List.mem_append.mp mem with mem | mem
      · exact notMem_literalHints text sign is_sign mem
      · obtain rfl := List.mem_singleton.mp mem
        exact absurd is_sign (by decide)
    simpa using (is_word.echoes_indentLines column true text).behind_wall bar
  · refine Echoes.isInfix ?_ is_word.ne_nil within
    have quote : IsWall word ['"'] := is_word.isWall_singleton (by decide)
    have each := echoes_flatMap text fun c => is_word.isWall_of_escaped (escaped_spec c)
    exact (each.behind_wall quote).before_wall quote
  · exact within

end IsWord
end DeployManifest.Yaml
