import DeployManifest.Proofs.Discovery
import DeployManifest.Proofs.Marks
import DeployManifest.Proofs.WrittenWords

/-!
# Placeholders in written texts

A placeholder is a word that is looked for in texts (`IsProper.isWord`), so writing a string in any style makes
up none.  Nor does turning marks into anchors: both are walls, for they have no parentheses.

Main statement: `standsIn_putInAll` for anchors, which neither add nor hide any placeholder.

- `IsProper.isWord`: a placeholder starts with a parenthesis, and holds no sign that strings are written
  with.
- `isWall_written`, `isWall_cons`: texts that no placeholder reaches through.
- `Replaces`, `Replaces.echoes`: a text in which a pattern has been replaced by a wall.
-/

namespace DeployManifest

namespace Placeholder

open Yaml (Echoes IsWall IsWord isBreak)

variable {p : Placeholder} {a b text copy : List Char} {c : Char}

theorem isApart_of_isBreak (line_end : isBreak c = true) : isApart c = true := by
  rcases Yaml.eq_of_isBreak line_end with rfl | rfl | rfl | rfl | rfl <;> decide +kernel

/-- A placeholder is a word that is looked for. -/
theorem IsProper.isWord (proper : p.IsProper) : IsWord p.written where
  starts := ⟨'(', by decide, _, p.written_eq⟩
  within c mem := by
    have near := proper.isApart_of_mem mem
    have signs : ∀ c ∈ " :'\x22\\|".toList, isApart c = true := Yaml.forall_mem_of_all (by decide)
    constructor
    · refine Bool.eq_false_iff.mpr fun breaks => ?_
      simp [isApart_of_isBreak breaks] at near
    · intro sign
      simp [signs c sign] at near

/-- A text without parentheses in front of a character that stands in no placeholder. -/
theorem isWall_written (no_opening : '(' ∉ text) {before after : List Char} (whole : text = before ++ c :: after)
    (before_open : ')' ∉ before) (apart : isApart c = true) (proper : p.IsProper) : IsWall p.written text := by
  have starts : p.written.head? = some '(' := by rw [written_eq]; rfl
  have ends : p.written.getLast? = some ')' := by
    rw [show p.written = '(' :: '(' :: p.inner ++ [')'] ++ [')'] by simp [written], List.getLast?_concat]
  refine ⟨?_, before, c, after, whole, ?_, fun mem => ?_⟩
  · rw [starts]
    rintro _ ⟨⟩
    exact no_opening
  · rw [ends]
    rintro _ ⟨⟩
    exact before_open
  · simp [proper.isApart_of_mem mem] at apart

/-- A character that stands in no placeholder starts a wall, if no placeholder starts behind it. -/
theorem isWall_cons (apart : isApart c = true) (no_opening : '(' ∉ a) (proper : p.IsProper) :
    IsWall p.written (c :: a) := by
  refine isWall_written (List.not_mem_cons_of_ne_of_not_mem ?_ no_opening) rfl List.not_mem_nil apart proper
  rintro rfl
  exact absurd apart (by decide)

theorem standsIn_of_echoes (echoes : p.IsProper → Echoes p.written text copy) (stands : p.StandsIn copy) :
    p.StandsIn text := by
  obtain ⟨proper, within⟩ := stands
  exact ⟨proper, (echoes proper).isInfix proper.isWord.ne_nil within⟩

/-! ## Anchors -/

/-- Whether the second text is the first with some places where a pattern stands replaced. -/
inductive Replaces (pattern replacement : List Char) : List Char → List Char → Prop where
  | nil : Replaces pattern replacement [] []
  | miss {text copy : List Char} (c : Char) (rest : Replaces pattern replacement text copy) :
    Replaces pattern replacement (c :: text) (c :: copy)
  | hit {text copy : List Char} (rest : Replaces pattern replacement text copy) :
    Replaces pattern replacement (pattern ++ text) (replacement ++ copy)

/-- Replacing all places replaces some of them. -/
theorem replaces_replaceAll {pattern replacement : List Char} (nonempty : pattern ≠ [])
    (text : List Char) : Replaces pattern replacement text (Text.replaceAll pattern replacement text) := by
  induction text using Text.replaceAll_induct nonempty with
  | nil => exact .nil
  | hit after ih =>
    rw [Text.replaceAll_append nonempty]
    exact .hit ih
  | miss c rest missed ih =>
    rw [Text.replaceAll_cons missed]
    exact .miss c ih

/-- What has been replaced can be put back. -/
theorem Replaces.symm {pattern replacement : List Char}
    (replaces : Replaces pattern replacement text copy) : Replaces replacement pattern copy text := by
  induction replaces with
  | nil => exact .nil
  | miss c _ ih => exact .miss c ih
  | hit _ ih => exact .hit ih

/-- A text in which walls have been put in place of a pattern is a copy of it. -/
theorem Replaces.echoes {word pattern replacement : List Char} (wall : IsWall word replacement)
    (replaces : Replaces pattern replacement text copy) : Echoes word text copy := by
  induction replaces with
  | nil => exact .nil
  | miss c _ ih => exact .same c ih
  | hit _ ih => exact .wall _ wall ih

/-- Replacing walls by walls neither adds nor hides a placeholder. -/
theorem standsIn_replaceAll {pattern replacement : List Char} (nonempty : pattern ≠ [])
    (old : p.IsProper → IsWall p.written pattern) (new : p.IsProper → IsWall p.written replacement) :
    p.StandsIn (Text.replaceAll pattern replacement text) ↔ p.StandsIn text := by
  have replaces : Replaces pattern replacement text (Text.replaceAll pattern replacement text) :=
    replaces_replaceAll nonempty text
  exact ⟨standsIn_of_echoes fun proper => replaces.echoes (new proper),
    standsIn_of_echoes fun proper => replaces.symm.echoes (old proper)⟩

/-- Whether a text has no parentheses. -/
def HasNoParens (text : String) : Prop := '(' ∉ text.toList ∧ ')' ∉ text.toList

/-- One anchor neither adds nor hides a placeholder. -/
theorem standsIn_putIn {digest key : String} (digest_clean : HasNoParens digest)
    (key_clean : HasNoParens key) :
    p.StandsIn (Yaml.Anchors.putIn text digest key) ↔ p.StandsIn text := by
  have reference : p.IsProper → IsWall p.written ('*' :: digest.toList) :=
    isWall_cons (by decide) digest_clean.1
  have quoted : p.IsProper → IsWall p.written ('\'' :: '*' :: digest.toList ++ ['\'']) :=
    isWall_cons (by decide) (by simp [digest_clean.1])
  have doubleQuoted : p.IsProper → IsWall p.written ('"' :: '*' :: digest.toList ++ ['"']) :=
    isWall_cons (by decide) (by simp [digest_clean.1])
  have mark : p.IsProper → IsWall p.written (key.toList ++ '=' :: digest.toList ++ [':', ' ']) :=
    isWall_written (by simp [key_clean.1, digest_clean.1]) (List.append_assoc _ _ _) key_clean.2 (by decide)
  have anchor : p.IsProper →
      IsWall p.written (key.toList ++ ':' :: ' ' :: '&' :: digest.toList ++ [' ']) :=
    isWall_written (by simp [key_clean.1, digest_clean.1]) (List.append_assoc _ _ _) key_clean.2 (by decide)
  unfold Yaml.Anchors.putIn
  dsimp only
  -- marks and what takes their places are all walls to placeholders
  rw [standsIn_replaceAll (by simp) mark anchor, standsIn_replaceAll (by simp) doubleQuoted reference,
    standsIn_replaceAll (by simp) quoted reference]

/-- Turning marks into references and anchors neither adds nor hides a placeholder. -/
theorem standsIn_putInAll {anchors : Yaml.Anchors} {printed : String}
    (clean : ∀ e ∈ anchors.entries, HasNoParens e.1 ∧ HasNoParens e.2) :
    p.StandsIn (anchors.putInAll printed).toList ↔ p.StandsIn printed.toList := by
  unfold Yaml.Anchors.putInAll
  rw [String.toList_ofList]
  generalize printed.toList = text
  generalize anchors.entries = entries at clean
  induction entries generalizing text with
  | nil => rfl
  | cons e rest ih =>
    have here := clean e List.mem_cons_self
    rw [List.foldl_cons, ih _ fun e mem => clean e (List.mem_cons_of_mem _ mem)]
    exact standsIn_putIn here.1 here.2

theorem not_paren_of_isAlphanum (alphanum : c.isAlphanum = true) : c ≠ '(' ∧ c ≠ ')' := by
  constructor <;> rintro rfl <;> exact absurd alphanum (by decide)

/-- There is no parenthesis in the key of an anchor. -/
theorem hasNoParens_of_isAnchorKey {key : String} (isKey : Yaml.Anchors.isAnchorKey key = true) :
    HasNoParens key := by
  obtain ⟨-, chars, -, -⟩ := Yaml.Anchors.isAnchorKey_spec isKey
  have plain : ∀ c ∈ key.toList, c ≠ '(' ∧ c ≠ ')' := by
    have signs : ∀ c ∈ "_.-/".toList, c ≠ '(' ∧ c ≠ ')' := Yaml.forall_mem_of_all (by decide)
    intro c mem
    rcases chars c mem with alphanum | sign
    · exact not_paren_of_isAlphanum alphanum
    · exact signs c sign
  exact ⟨fun mem => (plain _ mem).1 rfl, fun mem => (plain _ mem).2 rfl⟩

/-- A digest consists of digits. -/
theorem hasNoParens_digest (text : String) : HasNoParens (Digest.ofText text) := by
  have digits : ∀ n < 16, Nat.digitChar n ≠ '(' ∧ Nat.digitChar n ≠ ')' := by decide
  constructor
  all_goals
    intro mem
    obtain ⟨n, lt, same⟩ := Digest.exists_digitChar_of_mem mem
  · exact (digits n lt).1 same.symm
  · exact (digits n lt).2 same.symm

end Placeholder
end DeployManifest
