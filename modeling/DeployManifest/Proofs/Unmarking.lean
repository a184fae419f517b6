import DeployManifest.Proofs.Anchoring
import DeployManifest.Proofs.Marking

/-!
# Undoing marks

Marks can be undone: keys that define a digest become their names again, and references the strings whose
digest has been defined.  That gives back the tree that was marked, provided that the keys which are given
anchors are strings without tags (`HasBareAnchorKeys`); a key with a tag loses it.

- `unmarked`, `unmarkedKey`: a tree and a key without their marks.
- `HasBareAnchorKeys`, `HasDistinctDigests`: what has to hold for marks to be undone.
- `areOrdered_and_restored_mark`: marks that are in order and can be undone.
- `not_forall_restored_mark`: a key with a tag, which is lost.
-/

namespace DeployManifest.Yaml.Value

open Anchors (digest? markLong isAnchorKey reference? definition?)

variable {v key : Value} {anchors : Anchors} {text? : String → Option String}

/-! ## Undoing -/

/-- A key without its mark. -/
def unmarkedKey : Value → Value
  | .string s => .string (((definition? s).map Prod.fst).getD s)
  | key => key

mutual

/-- A tree without its marks; `text?` gives the strings that are referred to. -/
def unmarked (text? : String → Option String) : Value → Value
  | .string s => .string (((reference? s).bind text?).getD s)
  | .seq items => .seq (unmarkedItems text? items)
  | .map entries => .map (unmarkedEntries text? entries)
  | .tagged tag content => .tagged tag (unmarked text? content)
  | v => v

/-- The items of a sequence without their marks. -/
def unmarkedItems (text? : String → Option String) : List Value → List Value
  | [] => []
  | v :: rest => unmarked text? v :: unmarkedItems text? rest

/-- The entries of a mapping without their marks. -/
def unmarkedEntries (text? : String → Option String) : List (Value × Value) → List (Value × Value)
  | [] => []
  | (k, v) :: rest => (unmarkedKey k, unmarked text? v) :: unmarkedEntries text? rest

end

/-- The string that stands behind the first key that defines a digest. -/
def definedText? (spots : List Spot) (digest : String) : Option String :=
  (spots.find? fun spot => spot.defines? == some digest).bind Spot.text?

/-- A marked tree without its marks. -/
def restored (marked : Value) : Value := marked.unmarked (definedText? marked.spots)

/-! ## What is undone -/

/-- Whether the key is a string without tags, if it can be given an anchor. -/
def IsBare (e : Value × Value) : Prop :=
  digest? e.2 ≠ none → ∀ name, e.1.asString? = some name → isAnchorKey name = true → e.1 = .string name

theorem isBare_string (s : String) (v : Value) : IsBare (.string s, v) := by
  intro _ name named _
  exact congrArg Value.string (Option.some.inj named)

/-- Whether no key that may be given an anchor has a tag. -/
def AreBare (entries : Entries) : Prop := ∀ e ∈ entries, IsBare e

/-- Whether all keys that can be given anchors are strings without tags. -/
def HasBareAnchorKeys (t : Value) : Prop := EachMapping AreBare t

/-- Whether there is a string for every digest among some anchors that a tree may refer to. -/
def Finds (text? : String → Option String) (anchors : Anchors) (t : Value) : Prop :=
  ∀ s, t.HasString s → Digest.ofText s ∈ anchors.keys → text? (Digest.ofText s) = some s

theorem IsNoMark.unmarked_string {s : String} (no_mark : IsNoMark s) :
    unmarked text? (.string s) = .string s := by
  simp [unmarked, no_mark.1]

theorem unmarkedKey_of_noMark (no_mark : ∀ s, key = .string s → IsNoMark s) : unmarkedKey key = key := by
  cases key with
  | string s => simp [unmarkedKey, (no_mark s rfl).2]
  | _ => rfl

theorem unmarkedKey_definition {name digest : String} (hex : Anchors.isDigest digest.toList = true) :
    unmarkedKey (.string (name ++ "=" ++ digest)) = .string name := by
  simp [unmarkedKey, Anchors.definition?_definition name hex]

theorem unmarked_reference {text digest : String} (hex : Anchors.isDigest digest.toList = true)
    (found : text? digest = some text) : unmarked text? (.string ("*" ++ digest)) = .string text := by
  simp [unmarked, Anchors.reference?_reference hex, found]

/-- An entry with a long string, with its marks undone. -/
theorem unmarked_marksLong {text digest : String} {marked : (Value × Value) × Anchors}
    (long : digest? (.string text) = some digest) (no_mark : ∀ s, key = .string s → IsNoMark s)
    (no_mark_text : IsNoMark text) (bare : IsBare (key, .string text))
    (found : digest ∈ marked.2.keys → text? digest = some text)
    (marks : MarksLong anchors key (.string text) digest marked) :
    (unmarkedKey marked.1.1, unmarked text? marked.1.2) = (key, .string text) := by
  have hex := isDigest_of_digest? long
  cases marks with
  | refers known => rw [unmarkedKey_of_noMark no_mark, unmarked_reference hex (found known)]
  | keeps => rw [unmarkedKey_of_noMark no_mark, no_mark_text.unmarked_string]
  | @defines name _ named isKey =>
    have key_bare : key = .string name := bare (by simp [long]) name named isKey
    rw [unmarkedKey_definition hex, no_mark_text.unmarked_string, key_bare]

-- Induction on the tree.  The anchors behind a part are among those behind the whole (`Finds` is about
-- the latter), which is why a reference within a part finds the string that may be defined far in front.
mutual

/-- Undoing the marks gives back the tree that was marked. -/
theorem unmarked_mark : ∀ (v : Value) {anchors : Anchors}, v.IsUnmarked → v.HasDistinctKeys →
    v.HasBareAnchorKeys → Finds text? (v.mark anchors).2 v → unmarked text? (v.mark anchors).1 = v
  | .seq items, _, no_marks, distinct, bare, finds =>
    congrArg Value.seq (unmarkedItems_markItems items no_marks distinct bare finds)
  | .map entries, _, no_marks, distinct, bare, finds => by
    rw [mark_map_of_unmarked no_marks distinct] at finds ⊢
    exact congrArg Value.map (unmarkedEntries_markEntries entries no_marks distinct.2 bare.1 bare.2 finds)
  | .tagged tag content, _, no_marks, distinct, bare, finds =>
    congrArg (Value.tagged tag) (unmarked_mark content (fun s inside => no_marks s (.content inside)) distinct bare
      fun s inside => finds s (.content inside))
  | .string s, _, no_marks, _, _, _ => (no_marks s (.string s)).unmarked_string
  | .null, _, _, _, _, _ | .bool _, _, _, _, _, _ | .int _, _, _, _, _, _ | .float _, _, _, _, _, _ => rfl

/-- The same for the items of a sequence. -/
theorem unmarkedItems_markItems : ∀ (items : List Value) {anchors : Anchors}, IsUnmarked (.seq items) →
    EachMappingOfItems KeysDiffer items → EachMappingOfItems AreBare items →
    Finds text? (markItems anchors items).2 (.seq items) →
    unmarkedItems text? (markItems anchors items).1 = items
  | [], _, _, _, _, _ => rfl
  | v :: rest, anchors, no_marks, distinct, bare, finds => by
    obtain ⟨no_marks_here, no_marks⟩ := isUnmarked_seq_cons_iff.mp no_marks
    rw [markItems_cons] at finds ⊢
    have finds_here : Finds text? (v.mark anchors).2 v := fun s inside known =>
      finds s (hasString_seq_cons_iff.mpr (.inl inside)) ((isInvariant_mem_keys _).markItems rest known)
    have finds_later : Finds text? (markItems (v.mark anchors).2 rest).2 (.seq rest) := fun s inside =>
      finds s (hasString_seq_cons_iff.mpr (.inr inside))
    rw [unmarkedItems, unmarked_mark v no_marks_here distinct.1 bare.1 finds_here,
      unmarkedItems_markItems rest no_marks distinct.2 bare.2 finds_later]

/-- The same for the entries of a mapping. -/
theorem unmarkedEntries_markEntries : ∀ (entries : List (Value × Value)) {anchors : Anchors},
    IsUnmarked (.map entries) → EachMappingOfEntries KeysDiffer entries → AreBare entries →
    EachMappingOfEntries AreBare entries →
    Finds text? (markEntries anchors entries).2 (.map entries) →
    unmarkedEntries text? (markEntries anchors entries).1 = entries
  | [], _, _, _, _, _, _ => rfl
  | (key, v) :: rest, anchors, no_marks, distinct, bare, bare_within, finds => by
    obtain ⟨⟨no_mark, no_marks_here⟩, no_marks_rest⟩ := isUnmarked_map_cons_iff.mp no_marks
    obtain ⟨bare_here, bare_rest⟩ := List.forall_mem_cons.mp bare
    -- only an entry with a long string gets another key or another value itself
    cases long : digest? v with
    | none =>
      rw [markEntries_of_none anchors long] at finds ⊢
      have finds_here : Finds text? (v.mark anchors).2 v := fun s inside known =>
        finds s (hasString_map_cons_iff.mpr (.inl (.inr inside)))
          ((isInvariant_mem_keys _).markEntries rest known)
      have finds_later : Finds text? (markEntries (v.mark anchors).2 rest).2 (.map rest) := fun s inside =>
        finds s (hasString_map_cons_iff.mpr (.inr inside))
      rw [unmarkedEntries, unmarkedKey_of_noMark no_mark,
        unmarked_mark v no_marks_here distinct.1 bare_within.1 finds_here,
        unmarkedEntries_markEntries rest no_marks_rest distinct.2 bare_rest bare_within.2 finds_later]
    | some digest =>
      rw [markEntries_of_some anchors long] at finds ⊢
      obtain ⟨text, rfl, digest_of⟩ := exists_string_of_digest? long
      -- what is known behind the entry is known at the end, where the texts are looked up
      have found (known : digest ∈ (markLong anchors key (.string text) digest).2.keys) :
          text? digest = some text :=
        digest_of ▸ finds text (hasString_map_cons_iff.mpr (.inl (.inr (.string text))))
          ((isInvariant_mem_keys _).markEntries rest (digest_of ▸ known))
      have finds_later : Finds text? (markEntries (markLong anchors key (.string text) digest).2 rest).2
          (.map rest) := fun s inside => finds s (hasString_map_cons_iff.mpr (.inr inside))
      have here := unmarked_marksLong long no_mark (no_marks_here text (.string text)) bare_here found
        (marksLong_markLong anchors key _ digest)
      obtain ⟨same_key, same_value⟩ := Prod.mk.inj here
      rw [unmarkedEntries, same_key, same_value,
        unmarkedEntries_markEntries rest no_marks_rest distinct.2 bare_rest bare_within.2 finds_later]

end

/-- Whether no two strings of a tree have the same digest. -/
def HasDistinctDigests (t : Value) : Prop :=
  ∀ s u, t.HasString s → t.HasString u → Digest.ofText s = Digest.ofText u → s = u

/-- In a marked tree the string of every anchor is found. -/
theorem finds_definedText? {t : Value} (no_marks : t.IsUnmarked) (distinct : t.HasDistinctKeys)
    (apart : t.HasDistinctDigests) :
    Finds (definedText? (t.mark .empty).1.spots) (t.mark .empty).2 t := by
  intro s inside known
  have marks := marksSpots_mark .empty no_marks distinct
  have plain := no_marks.isPlain
  have defined := ((marks.mem_keys_iff plain).mp known).resolve_left nofun
  obtain ⟨spot, mem, defines⟩ := List.mem_filterMap.mp defined
  have found : (((t.mark .empty).1.spots).find? fun spot => spot.defines? == some (Digest.ofText s)).isSome :=
    List.find?_isSome.mpr ⟨spot, mem, by simp [defines]⟩
  obtain ⟨first, found⟩ := Option.isSome_iff_exists.mp found
  have first_defines : first.defines? = some (Digest.ofText s) := by simpa using List.find?_some found
  obtain ⟨text, is, long, old, old_mem, was⟩ :=
    marks.exists_of_defines? plain (List.mem_of_find?_eq_some found) first_defines
  -- texts of the same digest are the same
  have same := apart text s (hasString_of_mem_spots old_mem (.inl was)) inside (digest?_string_eq_some long)
  rw [definedText?, found, Option.bind_some, is, same]

/-- Marking puts marks in order, and they can be undone if the keys that can be given anchors have no
    tags: then the old tree comes back, with all entries in their order. -/
theorem areOrdered_and_restored_mark {t : Value} (no_marks : t.IsUnmarked) (distinct : t.HasDistinctKeys)
    (apart : t.HasDistinctDigests) :
    AreOrdered (t.mark .empty).1.spots ∧ (t.HasBareAnchorKeys → (t.mark .empty).1.restored = t) :=
  ⟨areOrdered_mark no_marks distinct, fun bare =>
    unmarked_mark t no_marks distinct bare (finds_definedText? no_marks distinct apart)⟩

/-- A mapping with a long string that a value further in repeats. -/
def sharedText : Value :=
  .map [(.string "a", .string longText), (.string "b", .seq [.map [(.string "c", .string longText)]])]

/-- Its strings. -/
theorem hasString_sharedText {s : String} (has : sharedText.HasString s) : s ∈ ["a", "b", "c", longText] := by
  have strings : s = "a" ∨ s = longText ∨ s = "b" ∨ s = "c" ∨ s = longText := by
    simpa [sharedText, hasString_map_cons_iff, hasString_seq_iff, hasString_string_iff, hasString_map_iff,
      eq_comm, or_assoc] using has
  rcases strings with rfl | rfl | rfl | rfl | rfl <;> simp

theorem hasDistinctDigests_sharedText : sharedText.HasDistinctDigests := by
  have all : ∀ s ∈ ["a", "b", "c", longText], ∀ u ∈ ["a", "b", "c", longText],
      Digest.ofText s = Digest.ofText u → s = u := by decide +kernel
  exact fun s u has has_too => all s (hasString_sharedText has) u (hasString_sharedText has_too)

theorem hasBareAnchorKeys_sharedText : sharedText.HasBareAnchorKeys := by
  simp [sharedText, HasBareAnchorKeys, EachMapping, EachMappingOfEntries, EachMappingOfItems, AreBare,
    isBare_string, -Prod.forall]

/-- The second of two equal strings is within a sequence of mappings. -/
theorem areOrdered_and_restored_mark_shared :
    sharedText.IsUnmarked ∧ sharedText.HasDistinctKeys ∧ sharedText.HasDistinctDigests ∧
      sharedText.HasBareAnchorKeys ∧
      (sharedText.mark .empty).1 = .map [(.string ("a=" ++ longDigest), .string longText),
        (.string "b", .seq [.map [(.string "c", .string ("*" ++ longDigest))]])] ∧
      AreOrdered (sharedText.mark .empty).1.spots ∧ (sharedText.mark .empty).1.restored = sharedText := by
  have no_marks : sharedText.IsUnmarked := by
    have all : ∀ s ∈ ["a", "b", "c", longText], IsNoMark s := by decide +kernel
    exact fun s has => all s (hasString_sharedText has)
  have distinct : sharedText.HasDistinctKeys := by
    simp [sharedText, HasDistinctKeys, EachMapping, EachMappingOfEntries, EachMappingOfItems, same]
  obtain ⟨ordered, restored⟩ := areOrdered_and_restored_mark no_marks distinct hasDistinctDigests_sharedText
  exact ⟨no_marks, distinct, hasDistinctDigests_sharedText, hasBareAnchorKeys_sharedText, by decide +kernel, ordered,
    restored hasBareAnchorKeys_sharedText⟩

/-- A long string behind a key with a tag. -/
def taggedKey : Value := .map [(.tagged "t" (.string "a"), .string longText), (.string "b", .int 1)]

/-- The key with a tag is given an anchor, too, and loses its tag. -/
theorem not_forall_restored_mark : ¬ ∀ t : Value, t.IsUnmarked → t.HasDistinctKeys → t.HasDistinctDigests →
    (t.mark .empty).1.restored = t := by
  have strings : ∀ s, taggedKey.HasString s → s ∈ ["b", longText] := by
    intro s has
    have no_string : ¬ HasString (.int 1) s := nofun
    have strings : s = longText ∨ s = "b" := by
      simpa [taggedKey, hasString_map_cons_iff, hasString_string_iff, hasString_map_iff, no_string,
        eq_comm] using has
    rcases strings with rfl | rfl <;> simp
  have no_marks : ∀ s ∈ ["b", longText], IsNoMark s := by decide +kernel
  have apart : ∀ s ∈ ["b", longText], ∀ u ∈ ["b", longText], Digest.ofText s = Digest.ofText u → s = u := by
    decide +kernel
  have distinct : taggedKey.HasDistinctKeys := by
    simp [taggedKey, HasDistinctKeys, EachMapping, EachMappingOfEntries, same]
  have stripped : (taggedKey.mark .empty).1.restored ≠ taggedKey := by decide +kernel
  exact fun restored => stripped (restored taggedKey (fun s has => no_marks s (strings s has)) distinct
    fun s u has has_too => apart s (strings s has) u (strings u has_too))

end DeployManifest.Yaml.Value
