import DeployManifest.Proofs.CanonicalForm
import DeployManifest.Proofs.Marks
import DeployManifest.Proofs.Missing

/-!
# Marking trees

Marking goes through a tree in the order in which it is printed, and carries along the anchors that are
defined so far.  Anchors are only added (`isInvariant_mem_keys`).

In a tree without marks (`IsUnmarked`) keys that differ still do when they are marked, so that no entry gets
lost (`keysDiffer_markEntries`).  Marking such a tree is marking its spots one after the other
(`marksSpots_mark`), and so the marks are in order (`areOrdered_mark`).

- `mark_seq`, `mark_map`, `markEntries_of_none`, `markEntries_of_some`: the steps of marking.
- `MarksLong`: the three things that may happen to an entry with a long string.
- `IsInvariant`, `IsInvariant.mark`: what every mark keeps, and that a whole tree does.
- `keysDiffer_markEntries`: keys that differ still do when they are marked.
-/

namespace DeployManifest.Yaml.Value

open Anchors (digest? markLong isAnchorKey reference? definition?)

variable {key v : Value} {rest : Entries}

/-! ## Equations -/

theorem mark_seq (anchors : Anchors) (items : List Value) :
    mark anchors (.seq items) = (.seq (markItems anchors items).1, (markItems anchors items).2) := rfl

theorem markItems_cons (anchors : Anchors) (v : Value) (items : List Value) :
    markItems anchors (v :: items) =
      ((mark anchors v).1 :: (markItems (mark anchors v).2 items).1,
        (markItems (mark anchors v).2 items).2) := rfl

theorem mark_map (anchors : Anchors) (entries : Entries) :
    mark anchors (.map entries) =
      (.map (insertAll (markEntries anchors entries).1), (markEntries anchors entries).2) := rfl

/-- An entry without a long string keeps its key, and its value is marked. -/
theorem markEntries_of_none (anchors : Anchors) (short : digest? v = none) :
    markEntries anchors ((key, v) :: rest) =
      ((key, (mark anchors v).1) :: (markEntries (mark anchors v).2 rest).1,
        (markEntries (mark anchors v).2 rest).2) := by
  rw [markEntries, short]

/-- An entry with a long string is marked itself. -/
theorem markEntries_of_some (anchors : Anchors) {digest : String} (long : digest? v = some digest) :
    markEntries anchors ((key, v) :: rest) =
      ((markLong anchors key v digest).1 :: (markEntries (markLong anchors key v digest).2 rest).1,
        (markEntries (markLong anchors key v digest).2 rest).2) := by
  rw [markEntries, long]

/-! ## Long strings -/

/-- All that marking can do to an entry with a long string. -/
inductive MarksLong (anchors : Anchors) (key v : Value) (digest : String) :
    (Value × Value) × Anchors → Prop where
  | refers (known : digest ∈ anchors.keys) :
    MarksLong anchors key v digest ((key, .string ("*" ++ digest)), anchors)
  | defines {name : String} (fresh : digest ∉ anchors.keys) (named : key.asString? = some name)
    (isKey : isAnchorKey name = true) :
    MarksLong anchors key v digest ((.string (name ++ "=" ++ digest), v), anchors.insert digest name)
  | keeps (fresh : digest ∉ anchors.keys) (unnamed : key.asString?.filter isAnchorKey = none) :
    MarksLong anchors key v digest ((key, v), anchors)

/-- Marking an entry with a long string does one of the three things. -/
theorem marksLong_markLong (anchors : Anchors) (key v : Value) (digest : String) :
    MarksLong anchors key v digest (markLong anchors key v digest) := by
  unfold markLong
  split
  · next known => exact .refers (Table.contains_iff_mem_keys.mp known)
  · next fresh =>
    have fresh : digest ∉ anchors.keys := fun known => fresh (Table.contains_iff_mem_keys.mpr known)
    split
    · next name found =>
      obtain ⟨named, isKey⟩ := Option.filter_eq_some_iff.mp found
      exact .defines fresh named isKey
    · next unnamed => exact .keeps fresh unnamed

/-! ## Anchors -/

/-- Whether what holds of anchors still holds where a long string is marked. -/
def IsInvariant (P : Anchors → Prop) : Prop := ∀ anchors key v digest,
  digest? v = some digest → P anchors → P (markLong anchors key v digest).2

mutual

/-- What every mark keeps is kept when a tree is marked. -/
theorem IsInvariant.mark {P : Anchors → Prop} (invariant : IsInvariant P) :
    ∀ (v : Value) {anchors : Anchors}, P anchors → P (v.mark anchors).2
  | .seq items, _, holds => invariant.markItems items holds
  | .map entries, _, holds => invariant.markEntries entries holds
  | .tagged _ content, _, holds => invariant.mark content holds
  | .null, _, holds | .bool _, _, holds | .int _, _, holds | .float _, _, holds
  | .string _, _, holds => holds

/-- The same for the items of a sequence. -/
theorem IsInvariant.markItems {P : Anchors → Prop} (invariant : IsInvariant P) :
    ∀ (items : List Value) {anchors : Anchors}, P anchors → P (markItems anchors items).2
  | [], _, holds => holds
  | v :: rest, _, holds => invariant.markItems rest (invariant.mark v holds)

/-- The same for the entries of a mapping. -/
theorem IsInvariant.markEntries {P : Anchors → Prop} (invariant : IsInvariant P) :
    ∀ (entries : List (Value × Value)) {anchors : Anchors}, P anchors → P (markEntries anchors entries).2
  | [], _, holds => holds
  | (key, v) :: rest, anchors, holds => by
    cases long : digest? v with
    | none =>
      rw [markEntries_of_none anchors long]
      exact invariant.markEntries rest (invariant.mark v holds)
    | some digest =>
      rw [markEntries_of_some anchors long]
      exact invariant.markEntries rest (invariant anchors key v digest long holds)

end

/-- Anchors stay. -/
theorem isInvariant_mem_keys (known : String) : IsInvariant (known ∈ ·.keys) := by
  intro anchors key v digest _ mem
  have marks := marksLong_markLong anchors key v digest
  generalize markLong anchors key v digest = result at marks ⊢
  cases marks with
  | refers | keeps => exact mem
  | defines => exact Table.mem_keys_insert.mpr (.inr mem)

/-! ## Trees without marks -/

/-- Whether none of the strings of a tree is a mark. -/
def IsUnmarked (t : Value) : Prop := ∀ s, t.HasString s → IsNoMark s

theorem hasString_seq_cons_iff {s : String} {items : List Value} :
    HasString (.seq (v :: items)) s ↔ v.HasString s ∨ HasString (.seq items) s := by
  simp [hasString_seq_iff]

theorem hasString_map_cons_iff {s : String} :
    HasString (.map ((key, v) :: rest)) s ↔ (key = .string s ∨ v.HasString s) ∨ HasString (.map rest) s := by
  simp [hasString_map_iff]

theorem isUnmarked_seq_cons_iff {items : List Value} :
    IsUnmarked (.seq (v :: items)) ↔ v.IsUnmarked ∧ IsUnmarked (.seq items) := by
  simp [IsUnmarked, hasString_seq_cons_iff, or_imp, forall_and]

theorem isUnmarked_map_cons_iff :
    IsUnmarked (.map ((key, v) :: rest)) ↔
      ((∀ s, key = .string s → IsNoMark s) ∧ v.IsUnmarked) ∧ IsUnmarked (.map rest) := by
  simp [IsUnmarked, hasString_map_cons_iff, or_imp, forall_and]

/-! ## Keys -/

/-- Whether no key occurs twice among entries. -/
def KeysDiffer (entries : Entries) : Prop := entries.Pairwise fun a b => a.1.same b.1 = false

/-- Whether a key is that of an entry, or defines the digest of a value that is not defined so far. -/
inductive IsOldOrFresh (anchors : Anchors) (entries : Entries) (key : Value) : Prop where
  | old {e : Value × Value} (mem : e ∈ entries) (same : key = e.1)
  | fresh {e : Value × Value} {name digest : String} (mem : e ∈ entries) (long : digest? e.2 = some digest)
    (defines : key = .string (name ++ "=" ++ digest)) (fresh : digest ∉ anchors.keys)

/-- A key that is old or fresh among the later entries is so among all of them. -/
theorem IsOldOrFresh.cons {anchors between : Anchors} {e : Value × Value}
    (there : IsOldOrFresh between rest key)
    (stay : ∀ digest, digest ∈ anchors.keys → digest ∈ between.keys) :
    IsOldOrFresh anchors (e :: rest) key := by
  cases there with
  | old mem same => exact .old (List.mem_cons_of_mem e mem) same
  | fresh mem long defines fresh =>
    exact .fresh (List.mem_cons_of_mem e mem) long defines fun known => fresh (stay _ known)

/-- A key of a marked mapping is an old one, or it defines a digest that was not defined. -/
theorem isOldOrFresh_of_mem_markEntries {anchors : Anchors} {entries : Entries} {e : Value × Value}
    (mem : e ∈ (markEntries anchors entries).1) : IsOldOrFresh anchors entries e.1 := by
  induction entries generalizing anchors with
  | nil => nomatch mem
  | cons first rest ih =>
    obtain ⟨key, v⟩ := first
    cases long : digest? v with
    | none =>
      rw [markEntries_of_none anchors long] at mem
      rcases List.mem_cons.mp mem with rfl | mem
      · exact .old List.mem_cons_self rfl
      · exact (ih mem).cons fun digest => (isInvariant_mem_keys digest).mark v
    | some digest =>
      rw [markEntries_of_some anchors long] at mem
      rcases List.mem_cons.mp mem with rfl | mem
      · have marks := marksLong_markLong anchors key v digest
        -- only where an anchor is defined is the key another one
        generalize markLong anchors key v digest = result at marks ⊢
        cases marks with
        | refers | keeps => exact .old List.mem_cons_self rfl
        | defines fresh => exact .fresh List.mem_cons_self long rfl fresh
      · exact (ih mem).cons fun known => isInvariant_mem_keys known anchors key v digest long

/-- Whether no key of some entries is the mark that defines the digest of one of their values. -/
def HasNoMarkKeys (entries : Entries) : Prop := ∀ e ∈ entries, ∀ f ∈ entries, ∀ name digest,
  digest? f.2 = some digest → e.1 ≠ .string (name ++ "=" ++ digest)

/-- In a mapping without marks no key is one. -/
theorem IsUnmarked.hasNoMarkKeys {entries : Entries} (unmarked : IsUnmarked (.map entries)) :
    HasNoMarkKeys entries := by
  intro e mem f _ name digest long same
  have no_mark := unmarked _ (hasString_map_iff.mpr ⟨e, mem, .inl same⟩)
  exact no_mark.ne_definition (isDigest_of_digest? long) rfl

/-- Keys that differ still do when they are marked: each digest is defined but once, and no old key is a
    mark. -/
theorem keysDiffer_markEntries {anchors : Anchors} {entries : Entries} (no_marks : HasNoMarkKeys entries)
    (distinct : KeysDiffer entries) : KeysDiffer (markEntries anchors entries).1 := by
  induction entries generalizing anchors with
  | nil => exact .nil
  | cons first rest ih =>
    obtain ⟨key, v⟩ := first
    obtain ⟨differs, distinct⟩ := List.pairwise_cons.mp distinct
    have ih {between : Anchors} := @ih between (fun e mem f mem' =>
      no_marks e (List.mem_cons_of_mem _ mem) f (List.mem_cons_of_mem _ mem')) distinct
    have key_differs {between : Anchors} : ∀ e ∈ (markEntries between rest).1, key.same e.1 = false := by
      intro e mem
      cases isOldOrFresh_of_mem_markEntries mem with
      | old mem same =>
        rw [same]
        exact differs _ mem
      | @fresh f name digest mem long defines _ =>
        rw [defines]
        exact Bool.eq_false_iff.mpr fun same =>
          no_marks (key, v) List.mem_cons_self f (List.mem_cons_of_mem _ mem) name digest long
            (same_string_iff.mp same)
    cases long : digest? v with
    | none =>
      rw [markEntries_of_none anchors long]
      exact .cons key_differs ih
    | some digest =>
      rw [markEntries_of_some anchors long]
      have marks := marksLong_markLong anchors key v digest
      generalize markLong anchors key v digest = result at marks ⊢
      cases marks with
      | refers | keeps => exact .cons key_differs ih
      | @defines name =>
        refine .cons (fun e mem => Bool.eq_false_iff.mpr fun same => ?_) ih
        have same := string_same_iff.mp same
        cases isOldOrFresh_of_mem_markEntries mem with
        | old mem was =>
          exact no_marks _ (List.mem_cons_of_mem _ mem) (key, v) List.mem_cons_self name digest long
            (was.symm.trans same)
        | fresh _ long_too defines fresh =>
          -- what a key defines can be read off it, and this digest is known by now
          have read := Anchors.definition?_definition name (isDigest_of_digest? long)
          rw [string.inj (same.symm.trans defines),
            Anchors.definition?_definition _ (isDigest_of_digest? long_too)] at read
          obtain ⟨-, rfl⟩ := Prod.mk.inj (Option.some.inj read)
          exact fresh (Table.mem_keys_insert.mpr (.inl rfl))

/-! ## All spots of a tree -/

/-- No entry of a mapping without marks gets lost when it is marked. -/
theorem mark_map_of_unmarked {anchors : Anchors} {entries : Entries} (unmarked : IsUnmarked (.map entries))
    (distinct : HasDistinctKeys (.map entries)) :
    mark anchors (.map entries) =
      (.map (markEntries anchors entries).1, (markEntries anchors entries).2) := by
  rw [mark_map, insertAll_eq_self (keysDiffer_markEntries unmarked.hasNoMarkKeys distinct.1)]

theorem bareText?_mark (v : Value) (anchors : Anchors) : (v.mark anchors).1.bareText? = v.bareText? := by
  cases v <;> rfl

theorem marksSpot_beside (anchors : Anchors) (text? : Option String) :
    MarksSpot anchors ⟨none, text?⟩ ⟨none, text?⟩ anchors :=
  .keeps fun _ _ _ entry => by cases entry

/-- A spot with a key is marked as its entry is. -/
theorem marksSpot_markLong {anchors : Anchors} {text digest : String}
    (long : digest? (.string text) = some digest) (marked : (Value × Value) × Anchors)
    (marks : MarksLong anchors key (.string text) digest marked) :
    MarksSpot anchors ⟨some key, some text⟩ ⟨some marked.1.1, marked.1.2.bareText?⟩ marked.2 ∧
      marked.1.2.spotsWithin = [] := by
  cases marks with
  | refers known => exact ⟨.refers long known, rfl⟩
  | defines fresh named isKey => exact ⟨.defines long fresh named isKey, rfl⟩
  | keeps fresh unnamed =>
    refine ⟨.keeps fun _ _ _ same_key same long_too => ?_, rfl⟩
    obtain rfl := Option.some.inj same_key
    obtain rfl := Option.some.inj same
    obtain rfl := Option.some.inj (long.symm.trans long_too)
    exact ⟨fresh, unnamed⟩

-- Induction on the tree.  As the keys differ, putting in the marked entries keeps each in its place, so
-- that the spots of the marked tree are those of its marked parts, one after the other.
mutual

/-- Marking a tree is marking its spots one after another. -/
theorem marksSpots_within : ∀ (v : Value) {anchors : Anchors}, v.IsUnmarked → v.HasDistinctKeys →
    MarksSpots anchors v.spotsWithin (v.mark anchors).1.spotsWithin (v.mark anchors).2
  | .seq items, _, unmarked, distinct => marksSpots_items items unmarked distinct
  | .map entries, _, unmarked, distinct => by
    rw [mark_map_of_unmarked unmarked distinct]
    exact marksSpots_entries entries unmarked distinct.2
  | .tagged _ content, anchors, unmarked, distinct => by
    have unmarked : content.IsUnmarked := fun s inside => unmarked s (.content inside)
    rw [spotsWithin, mark, spotsWithin, bareText?_mark]
    exact .cons (marksSpot_beside _ _) (marksSpots_within content unmarked distinct)
  | .null, _, _, _ | .bool _, _, _, _ | .int _, _, _, _ | .float _, _, _, _ | .string _, _, _, _ => .nil _

/-- The same for the items of a sequence. -/
theorem marksSpots_items : ∀ (items : List Value) {anchors : Anchors}, IsUnmarked (.seq items) →
    EachMappingOfItems KeysDiffer items →
    MarksSpots anchors (spotsOfItems items) (spotsOfItems (markItems anchors items).1)
      (markItems anchors items).2
  | [], _, _, _ => .nil _
  | v :: rest, anchors, unmarked, distinct => by
    obtain ⟨unmarked_here, unmarked⟩ := isUnmarked_seq_cons_iff.mp unmarked
    rw [markItems_cons, spotsOfItems, spotsOfItems, bareText?_mark]
    exact .cons (marksSpot_beside _ _)
      ((marksSpots_within v unmarked_here distinct.1).append (marksSpots_items rest unmarked distinct.2))

/-- The same for the entries of a mapping. -/
theorem marksSpots_entries : ∀ (entries : List (Value × Value)) {anchors : Anchors}, IsUnmarked (.map entries) →
    EachMappingOfEntries KeysDiffer entries →
    MarksSpots anchors (spotsOfEntries entries) (spotsOfEntries (markEntries anchors entries).1)
      (markEntries anchors entries).2
  | [], _, _, _ => .nil _
  | (key, v) :: rest, anchors, unmarked, distinct => by
    obtain ⟨⟨-, unmarked_here⟩, unmarked_rest⟩ := isUnmarked_map_cons_iff.mp unmarked
    have later {between : Anchors} := @marksSpots_entries rest between unmarked_rest distinct.2
    cases long : digest? v with
    | none =>
      rw [markEntries_of_none anchors long, spotsOfEntries, spotsOfEntries, bareText?_mark]
      -- the value is no long text, so there is nothing to mark but what is inside of it
      refine .cons (.keeps fun _ text digest _ here long_too => ?_)
        ((marksSpots_within v unmarked_here distinct.1).append later)
      obtain rfl := bareText?_eq_some_iff.mp here
      cases long.symm.trans long_too
    | some digest =>
      rw [markEntries_of_some anchors long]
      obtain ⟨text, rfl, -⟩ := exists_string_of_digest? long
      obtain ⟨here, nothing_within⟩ := marksSpot_markLong long _ (marksLong_markLong anchors key _ digest)
      rw [spotsOfEntries, spotsOfEntries, nothing_within]
      exact .cons here later

end

/-- Marking a tree is marking its spots one after the other. -/
theorem marksSpots_mark {t : Value} (anchors : Anchors) (unmarked : t.IsUnmarked)
    (distinct : t.HasDistinctKeys) :
    MarksSpots anchors t.spots (t.mark anchors).1.spots (t.mark anchors).2 := by
  rw [spots, spots, bareText?_mark]
  exact .cons (marksSpot_beside _ _) (marksSpots_within t unmarked distinct)

/-! ## Strings at the spots -/

/-- Whether a string is the text or the key at a spot. -/
def Spot.Has (spot : Spot) (s : String) : Prop := spot.text? = some s ∨ spot.key?.bind bareText? = some s

mutual

/-- What stands at a spot of a tree is a string of it. -/
theorem hasString_of_mem_within : ∀ (v : Value) {spot : Spot} {s : String}, spot ∈ v.spotsWithin → spot.Has s →
    v.HasString s
  | .seq items, _, _, mem, has => hasString_of_mem_items items mem has
  | .map entries, _, _, mem, has => hasString_of_mem_entries entries mem has
  | .tagged _ content, spot, s, mem, has => by
    rcases List.mem_cons.mp mem with rfl | mem
    · obtain rfl := bareText?_eq_some_iff.mp (has.resolve_right nofun)
      exact .content (.string s)
    · exact .content (hasString_of_mem_within content mem has)
  | .null, _, _, mem, _ | .bool _, _, _, mem, _ | .int _, _, _, mem, _ | .float _, _, _, mem, _
  | .string _, _, _, mem, _ => absurd mem List.not_mem_nil

/-- The same for the items of a sequence. -/
theorem hasString_of_mem_items : ∀ (items : List Value) {spot : Spot} {s : String}, spot ∈ spotsOfItems items →
    spot.Has s → HasString (.seq items) s
  | [], _, _, mem, _ => absurd mem List.not_mem_nil
  | v :: rest, spot, s, mem, has => by
    rw [hasString_seq_cons_iff]
    rcases List.mem_cons.mp mem with rfl | mem
    · obtain rfl := bareText?_eq_some_iff.mp (has.resolve_right nofun)
      exact .inl (.string s)
    · rcases List.mem_append.mp mem with mem | mem
      · exact .inl (hasString_of_mem_within v mem has)
      · exact .inr (hasString_of_mem_items rest mem has)

/-- The same for the entries of a mapping. -/
theorem hasString_of_mem_entries : ∀ (entries : List (Value × Value)) {spot : Spot} {s : String},
    spot ∈ spotsOfEntries entries → spot.Has s → HasString (.map entries) s
  | [], _, _, mem, _ => absurd mem List.not_mem_nil
  | (k, v) :: rest, spot, s, mem, has => by
    rw [hasString_map_cons_iff]
    rcases List.mem_cons.mp mem with rfl | mem
    · rcases has with text | key
      · obtain rfl := bareText?_eq_some_iff.mp text
        exact .inl (.inr (.string s))
      · exact .inl (.inl (bareText?_eq_some_iff.mp key))
    · rcases List.mem_append.mp mem with mem | mem
      · exact .inl (.inr (hasString_of_mem_within v mem has))
      · exact .inr (hasString_of_mem_entries rest mem has)

end

/-- The same for all spots of a tree, its root among them. -/
theorem hasString_of_mem_spots {t : Value} {spot : Spot} {s : String} (mem : spot ∈ t.spots)
    (has : spot.Has s) :
    t.HasString s := by
  rcases List.mem_cons.mp mem with rfl | mem
  · obtain rfl := bareText?_eq_some_iff.mp (has.resolve_right nofun)
    exact .string s
  · exact hasString_of_mem_within t mem has

/-- In a tree without marks no spot has one. -/
theorem IsUnmarked.isPlain {t : Value} (unmarked : t.IsUnmarked) : ∀ spot ∈ t.spots, spot.IsPlain := by
  intro spot mem
  constructor
  · refine Option.bind_eq_none_iff.mpr fun name key => ?_
    rw [(unmarked name (hasString_of_mem_spots mem (.inr key))).2]
    rfl
  · refine Option.bind_eq_none_iff.mpr fun text here => ?_
    exact (unmarked text (hasString_of_mem_spots mem (.inl here))).1

/-- The marks that are put into a tree without marks are in order. -/
theorem areOrdered_mark {t : Value} (unmarked : t.IsUnmarked) (distinct : t.HasDistinctKeys) :
    AreOrdered (t.mark .empty).1.spots :=
  (marksSpots_mark .empty unmarked distinct).areOrdered unmarked.isPlain

end DeployManifest.Yaml.Value
