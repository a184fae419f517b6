import DeployManifest.Proofs.KeySizes
import DeployManifest.Proofs.Marking
import DeployManifest.Proofs.PrintedWords
import DeployManifest.Proofs.WrittenMarks

/-!
# Marks in printed trees

Marks are words that are looked for, so what looks like a mark in a printed tree stands in one of the texts that
the tree is printed from: the texts of its scalars, and its tags (`exists_text_of_node`).  If none of these
holds the mark of a long string of the tree (`HoldsNoMarks`), nothing in the printed tree looks like one
(`HoldsNoMarks.not_holdsMark`).

- `IsMarkWord`: a sign and a digest, without anything that printing would part.
- `Value.texts`: the texts that a tree is printed from.
- `HoldsNoMarks`: trees in whose texts nothing looks like the mark of one of their long strings.
-/

namespace DeployManifest.Yaml

open Anchors (HoldsMark isDigest digest?)

variable {word : List Char} {sign : Char} {digest : String}

/-- Whether a word that is looked for stands in a written tag only if it stands in the tag. -/
structure IsMarkWord (word : List Char) : Prop extends IsWord word where
  no_bang : '!' ∉ word
  no_percent : '%' ∉ word

/-- A sign with a digest behind it is a word. -/
theorem isMarkWord (hex : isDigest digest.toList = true) (is_sign : sign = '*' ∨ sign = '=') :
    IsMarkWord (sign :: digest.toList) := by
  have other {c : Char} (apart : c ∉ "*=".toList) (no_digit : ¬ IsPlainChar c) : c ∉ sign :: digest.toList := by
    refine List.not_mem_cons_of_ne_of_not_mem ?_ fun mem => no_digit (isPlainChar_of_isDigest hex c mem)
    rintro rfl
    exact apart (by rcases is_sign with rfl | rfl <;> decide)
  have starts : sign ∈ wordSigns := by rcases is_sign with rfl | rfl <;> decide
  refine ⟨⟨⟨sign, starts, _, rfl⟩, fun c mem => ⟨?_, fun among => ?_⟩⟩, other (by decide) (by decide),
    other (by decide) (by decide)⟩
  · rcases List.mem_cons.mp mem with rfl | mem
    · rcases is_sign with rfl | rfl <;> decide
    · exact isBreak_of_isPlainChar (isPlainChar_of_isDigest hex c mem)
  · have all : ∀ c ∈ " :'\x22\\|".toList, c ∉ "*=".toList ∧ ¬ IsPlainChar c := forall_mem_of_all (by decide)
    exact other (all c among).1 (all c among).2 mem

/-! ## Tags -/

section

variable (is_word : IsMarkWord word)
include is_word

omit is_word in
/-- Escaped bytes contain no sign. -/
theorem notMem_escapes (written : Text.Bytes) :
    ∀ sign ∈ wordSigns, sign ∉ written.flatMap fun b => '%' :: upperHex 2 b.toNat := by
  have apart : ∀ sign ∈ wordSigns, sign ≠ '%' ∧ (Plain.digit? sign).isSome = false := forall_mem_of_all (by decide)
  intro sign is_sign mem
  obtain ⟨not_percent, no_digit⟩ := apart sign is_sign
  obtain ⟨b, -, mem⟩ := List.mem_flatMap.mp mem
  have digit := digit?_of_nat? (nat?_upperHex 2 b.toNat) sign ((List.mem_cons.mp mem).resolve_left not_percent)
  rw [no_digit] at digit
  nomatch digit

omit is_word in
theorem encode_ne_nil (c : Char) : Text.Utf8.encode (String.singleton c) ≠ [] := by
  refine List.ne_nil_of_length_pos ?_
  rw [length_encode, String.utf8ByteSize_singleton]
  exact c.utf8Size_pos

/-- A word in the written name of a tag is in the name. -/
theorem infix_of_tagName {name : List Char} (within : word <:+: tagName name) : word <:+: name := by
  refine Echoes.isInfix (echoes_flatMap name fun c => ?_) is_word.ne_nil within
  split
  · exact .inl rfl
  · obtain ⟨b, rest, bytes⟩ := List.exists_cons_of_ne_nil (encode_ne_nil c)
    have clean := notMem_escapes (b :: rest)
    rw [bytes]
    rw [List.flatMap_cons, List.cons_append] at clean ⊢
    refine .inr (isWall_cons is_word.no_percent ?_)
    obtain ⟨sign, is_sign, behind, rfl⟩ := is_word.starts
    rintro _ ⟨⟩ mem
    exact clean sign is_sign (List.mem_cons_of_mem _ mem)

/-- So it is in the tag. -/
theorem infix_of_writtenTag {tag : String} (within : word <:+: writtenTag tag) : word <:+: tag.toList := by
  have nothing : ¬ word <:+: [] := is_word.not_within fun _ _ => List.not_mem_nil
  have behind {name : List Char} (within : word <:+: '!' :: tagName name) : word <:+: name := by
    have split := (Text.infix_append_cons_iff (a := []) is_word.no_bang).mp within
    exact infix_of_tagName is_word (split.resolve_left nothing)
  unfold writtenTag at within
  split at within
  · exact absurd within (is_word.not_within (forall_mem_of_all (by decide)))
  · next name is =>
    rw [is]
    exact List.infix_cons (behind within)
  · exact behind within

end

namespace Value

/-! ## The texts of a tree -/

mutual

/-- The texts that a tree is printed from: those of its scalars, and its tags. -/
def texts : Value → List String
  | .seq items => textsOfItems items
  | .map entries => textsOfEntries entries
  | .tagged tag content => tag :: texts content
  | v => (v.scalar?.map Prod.fst).toList

/-- The same for the items of a sequence. -/
def textsOfItems : List Value → List String
  | [] => []
  | v :: rest => texts v ++ textsOfItems rest

/-- The same for the keys and values of a mapping. -/
def textsOfEntries : List (Value × Value) → List String
  | [] => []
  | (k, v) :: rest => texts k ++ texts v ++ textsOfEntries rest

end

/-- A scalar is printed from its text. -/
theorem texts_of_scalar? {v : Value} {text : String} {wanted : Style} (scalar : v.scalar? = some (text, wanted)) :
    v.texts = [text] := by
  cases v with
  | seq | map | tagged => nomatch scalar
  | null | bool | int | float | string =>
    rw [texts, scalar]
    · rfl
    all_goals exact nofun

/-- The texts of an item are texts of the sequence. -/
theorem mem_texts_of_mem_items {v : Value} {items : List Value} (mem : v ∈ items) :
    ∀ text ∈ v.texts, text ∈ textsOfItems items := by
  intro text here
  induction items with
  | nil => exact absurd mem List.not_mem_nil
  | cons first rest ih =>
    rw [textsOfItems, List.mem_append]
    rcases List.mem_cons.mp mem with rfl | mem
    · exact .inl here
    · exact .inr (ih mem)

/-- The texts of an entry are texts of the mapping. -/
theorem mem_texts_of_mem_entries {e : Value × Value} {entries : List (Value × Value)} (mem : e ∈ entries) :
    ∀ text ∈ e.1.texts ++ e.2.texts, text ∈ textsOfEntries entries := by
  intro text here
  induction entries with
  | nil => exact absurd mem List.not_mem_nil
  | cons first rest ih =>
    rw [textsOfEntries, List.mem_append]
    rcases List.mem_cons.mp mem with rfl | mem
    · exact .inl here
    · exact .inr (ih mem)

/-- The strings of a tree are among the texts that it is printed from. -/
theorem HasString.mem_texts {v : Value} {s : String} (has : v.HasString s) : s ∈ v.texts := by
  induction has with
  | string s => rw [texts_of_scalar? rfl, List.mem_singleton]
  | item mem _ ih => exact mem_texts_of_mem_items mem _ ih
  | @key entries v s mem =>
    refine mem_texts_of_mem_entries mem s (List.mem_append_left _ ?_)
    rw [texts_of_scalar? rfl, List.mem_singleton]
  | value mem _ ih => exact mem_texts_of_mem_entries mem _ (List.mem_append_right _ ih)
  | content _ ih => exact List.mem_cons_of_mem _ ih

/-! ## Words in the texts of a tree -/

section

variable (is_word : IsMarkWord word)
include is_word

/-- Behind a tag there is a gap, a line or the mark of another tag. -/
theorem exists_cons_of_tagged (behind : Behind) (column : Nat) (v : Value) :
    ∃ c rest, node behind true column v = c :: rest ∧ c ∉ word := by
  -- a node behind a tag starts with a space or on a new line, and a tag starts with a bang
  have space : ' ' ∉ word := is_word.notMem (.inr (by decide))
  have feed : '\n' ∉ word := is_word.notMem (.inl (by decide))
  cases v with
  | tagged tag content =>
    have bang : ∃ rest, writtenTag tag = '!' :: rest := by
      unfold writtenTag
      split <;> exact ⟨_, rfl⟩
    obtain ⟨rest, starts⟩ := bang
    rw [node, starts]
    cases behind with
    | start => exact ⟨'!', _, rfl, is_word.no_bang⟩
    | dash | mark | key => exact ⟨' ', _, rfl, space⟩
  | seq items =>
    cases items with
    | nil => exact ⟨' ', _, by rw [node]; rfl, space⟩
    | cons item more => exact ⟨'\n', _, by rw [node_seq_cons]; rfl, feed⟩
  | map entries =>
    cases entries with
    | nil => exact ⟨' ', _, by rw [node]; rfl, space⟩
    | cons entry more => exact ⟨'\n', _, by rw [node_map_cons]; rfl, feed⟩
  | bool b => cases b <;> exact ⟨' ', _, by rw [node_of_scalar? rfl]; rfl, space⟩
  | null | int | float | string => exact ⟨' ', _, by rw [node_of_scalar? rfl]; rfl, space⟩

/-- A word in the text of a key stands in the text of its node or of its scalar, or in a tag. -/
theorem infix_of_keyText {column : Nat} {key : Value} (within : word <:+: keyText column key) :
    word <:+: node .mark false column key ∨ ∃ text ∈ key.texts, word <:+: text.toList := by
  unfold keyText at within
  cases simple : simpleKey? key with
  | none =>
    rw [simple] at within
    exact .inl within
  | some written =>
    rw [simple] at within
    obtain ⟨⟨found, size⟩, kept, rfl⟩ := Option.map_eq_some_iff.mp simple
    have bare := (Option.filter_eq_some_iff.mp kept).1
    split at bare
    · next tag content =>
      obtain ⟨⟨inside, size'⟩, bare_inside, same⟩ := Option.map_eq_some_iff.mp bare
      obtain ⟨rfl, -⟩ := Prod.mk.inj same
      -- a word does not reach over the space behind a tag
      rcases (Text.infix_append_cons_iff (is_word.notMem (.inr (by decide)))).mp within with in_tag | within
      · exact .inr ⟨tag, List.mem_cons_self, infix_of_writtenTag is_word in_tag⟩
      · obtain ⟨text, wanted, scalar, within⟩ := infix_of_bareKey? is_word.toIsWord bare_inside within
        refine .inr ⟨text, List.mem_cons_of_mem _ ?_, within⟩
        rw [texts_of_scalar? scalar, List.mem_singleton]
    · obtain ⟨text, wanted, scalar, within⟩ := infix_of_bareKey? is_word.toIsWord bare within
      refine .inr ⟨text, ?_, within⟩
      rw [texts_of_scalar? scalar, List.mem_singleton]

end

mutual

/-- A word in a printed tree stands in one of the texts of the tree. -/
theorem exists_text_of_node (is_word : IsMarkWord word) : ∀ (v : Value) {behind : Behind} {tagged : Bool}
    {column : Nat}, word <:+: node behind tagged column v → ∃ text ∈ v.texts, word <:+: text.toList
  | .seq items, _, _, _, within => exists_text_of_items is_word items ((infix_node_seq is_word.toIsWord).mp within)
  | .map entries, _, _, _, within =>
    exists_text_of_entries is_word entries ((infix_node_map is_word.toIsWord).mp within)
  | .tagged tag content, behind, _, column, within => by
    obtain ⟨c, rest, starts, outside⟩ := exists_cons_of_tagged is_word behind column content
    have gap : ∀ sign ∈ wordSigns, sign ∉ behind.gap := notMem_gap behind false
    rw [node, List.append_assoc, is_word.infix_append_iff gap, starts,
      Text.infix_append_cons_iff outside] at within
    -- its content starts with a character that the word does not hold
    rcases within with in_tag | within
    · exact ⟨tag, List.mem_cons_self, infix_of_writtenTag is_word in_tag⟩
    · have within : word <:+: node behind true column content := starts ▸ List.infix_cons within
      obtain ⟨text, mem, within⟩ := exists_text_of_node is_word content within
      exact ⟨text, List.mem_cons_of_mem tag mem, within⟩
  | .null, _, _, _, within | .bool true, _, _, _, within | .bool false, _, _, _, within
  | .int _, _, _, _, within | .float _, _, _, _, within | .string _, _, _, _, within =>
    ⟨_, by rw [texts_of_scalar? rfl]; exact List.mem_singleton_self _,
      infix_of_node_scalar is_word.toIsWord rfl within⟩

/-- The same for the items of a sequence. -/
theorem exists_text_of_items (is_word : IsMarkWord word) : ∀ (items : List Value) {column : Nat},
    (∃ v ∈ items, word <:+: node .dash false column v) → ∃ text ∈ textsOfItems items, word <:+: text.toList
  | [], _, ⟨_, mem, _⟩ => nomatch mem
  | v :: rest, column, within => by
    rcases (List.exists_mem_cons_iff _ _ _).mp within with within | within
    · obtain ⟨text, mem, within⟩ := exists_text_of_node is_word v within
      exact ⟨text, List.mem_append_left _ mem, within⟩
    · obtain ⟨text, mem, within⟩ := exists_text_of_items is_word rest within
      exact ⟨text, List.mem_append_right _ mem, within⟩

/-- The same for the entries of a mapping, keys and values. -/
theorem exists_text_of_entries (is_word : IsMarkWord word) : ∀ (entries : List (Value × Value)) {column : Nat},
    (∃ e ∈ entries, InfixOfEntry word column e) → ∃ text ∈ textsOfEntries entries, word <:+: text.toList
  | [], _, ⟨_, mem, _⟩ => nomatch mem
  | (k, v) :: rest, column, within => by
    rcases (List.exists_mem_cons_iff _ _ _).mp within with (in_key | in_value) | within
    · obtain ⟨text, mem, within⟩ : ∃ text ∈ k.texts, word <:+: text.toList :=
        (infix_of_keyText is_word in_key).elim (exists_text_of_node is_word k) id
      exact ⟨text, List.mem_append_left _ (List.mem_append_left _ mem), within⟩
    · obtain ⟨text, mem, within⟩ := exists_text_of_node is_word v in_value
      exact ⟨text, List.mem_append_left _ (List.mem_append_right _ mem), within⟩
    · obtain ⟨text, mem, within⟩ := exists_text_of_entries is_word rest within
      exact ⟨text, List.mem_append_right _ mem, within⟩

end

/-! ## Trees that hold no marks -/

/-- Whether no text of a tree looks like a mark for one of its long strings. -/
def HoldsNoMarks (t : Value) : Prop := ∀ s digest, t.HasString s → digest? (.string s) = some digest →
  ∀ text ∈ t.texts, ¬ HoldsMark digest text.toList

/-- What is printed holds no marks either. -/
theorem HoldsNoMarks.not_holdsMark {t : Value} (quiet : t.HoldsNoMarks) {s : String} (has : t.HasString s)
    (long : digest? (.string s) = some digest) : ¬ HoldsMark digest t.render.toList := by
  have hex := isDigest_of_digest? long
  rw [render, String.toList_ofList]
  rintro (within | within)
  · obtain ⟨text, mem, within⟩ := exists_text_of_node (isMarkWord hex (.inl rfl)) t within
    exact quiet s digest has long text mem (.inl within)
  · obtain ⟨text, mem, within⟩ := exists_text_of_node (isMarkWord hex (.inr rfl)) t within
    exact quiet s digest has long text mem (.inr within)

end Value
end DeployManifest.Yaml
