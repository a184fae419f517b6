import DeployManifest.Proofs.KeyOrder

/-!
# Canonical forms

Two trees that differ only in the order of mapping entries, at any depth, are sorted into one tree, if
their keys are scalars and no mapping binds a key twice.  Sorting itself only reorders entries and
leaves every mapping in order.  What is printed, and the digest of it, therefore depend on the
entries alone.

`Reordered` is the relation of such trees; `EachMapping` says something of all mappings of a tree.

Main statement: `sorted_canonical_of_reordered`.

- `HasScalarKeys`, `HasDistinctKeys`, `HasOrderedKeys`: what is said of the mappings of a tree.
- `reordered_sorted`, `hasOrderedKeys_sorted`: what sorting does and does not.
- `Reordered.sorted_eq`: trees that differ in the order of entries have one sorted form.
- `sorted_canonical_of_reordered_nested`: a tree with mappings inside of each other.
-/

namespace DeployManifest.Yaml.Value

/-! ## All mappings of a tree -/

mutual

/-- Whether `P` holds of the entries of every mapping in a tree.  Keys are not looked into. -/
def EachMapping (P : Entries → Prop) : Value → Prop
  | .seq items => EachMappingOfItems P items
  | .map entries => P entries ∧ EachMappingOfEntries P entries
  | .tagged _ content => EachMapping P content
  | _ => True

/-- The same for all items of a sequence. -/
def EachMappingOfItems (P : Entries → Prop) : List Value → Prop
  | [] => True
  | v :: rest => EachMapping P v ∧ EachMappingOfItems P rest

/-- The same for all values of a mapping; mappings inside of keys do not count. -/
def EachMappingOfEntries (P : Entries → Prop) : List (Value × Value) → Prop
  | [] => True
  | (_, v) :: rest => EachMapping P v ∧ EachMappingOfEntries P rest

end

/-- The keys of all mappings are nulls, booleans, numbers and strings. -/
def HasScalarKeys (v : Value) : Prop := EachMapping (fun entries => ∀ e ∈ entries, e.1.IsScalar) v

/-- No mapping has a key twice, as is the case for every tree that was built up by insertion. -/
def HasDistinctKeys (v : Value) : Prop :=
  EachMapping (fun entries => entries.Pairwise fun a b => a.1.same b.1 = false) v

/-- The entries of all mappings are in the order of their keys. -/
def HasOrderedKeys (v : Value) : Prop := EachMapping (fun entries => entries.Pairwise MayPrecede) v

/-- What is said of all mappings in the values is said value by value. -/
theorem eachMappingOfEntries_iff {P : Entries → Prop} {entries : Entries} :
    EachMappingOfEntries P entries ↔ ∀ e ∈ entries, EachMapping P e.2 := by
  induction entries with
  | nil => simp [EachMappingOfEntries]
  | cons first rest ih => simp [EachMappingOfEntries, ih]

mutual

/-- A tree whose keys are scalars, none of them twice, is keyed at every mapping. -/
theorem eachMapping_areKeyed : ∀ v : Value, v.HasScalarKeys → v.HasDistinctKeys →
    EachMapping AreKeyed v
  | .seq items, scalar, distinct => eachMappingOfItems_areKeyed items scalar distinct
  | .map entries, scalar, distinct =>
    ⟨⟨scalar.1, distinct.1⟩, eachMappingOfEntries_areKeyed entries scalar.2 distinct.2⟩
  | .tagged _ content, scalar, distinct => eachMapping_areKeyed content scalar distinct
  | .null, _, _ | .bool _, _, _ | .int _, _, _ | .float _, _, _ | .string _, _, _ => trivial

/-- The same for the items of a sequence. -/
theorem eachMappingOfItems_areKeyed : ∀ items : List Value,
    EachMappingOfItems (fun entries => ∀ e ∈ entries, e.1.IsScalar) items →
    EachMappingOfItems (fun entries => entries.Pairwise fun a b => a.1.same b.1 = false) items →
    EachMappingOfItems AreKeyed items
  | [], _, _ => trivial
  | v :: rest, scalar, distinct =>
    ⟨eachMapping_areKeyed v scalar.1 distinct.1,
      eachMappingOfItems_areKeyed rest scalar.2 distinct.2⟩

/-- The same for the values of a mapping. -/
theorem eachMappingOfEntries_areKeyed : ∀ entries : List (Value × Value),
    EachMappingOfEntries (fun entries => ∀ e ∈ entries, e.1.IsScalar) entries →
    EachMappingOfEntries (fun entries => entries.Pairwise fun a b => a.1.same b.1 = false) entries →
    EachMappingOfEntries AreKeyed entries
  | [], _, _ => trivial
  | (_, v) :: rest, scalar, distinct =>
    ⟨eachMapping_areKeyed v scalar.1 distinct.1,
      eachMappingOfEntries_areKeyed rest scalar.2 distinct.2⟩

end

/-! ## Trees with reordered entries -/

mutual

/-- Two trees that differ only in the order in which the entries of mappings are listed, at any
    depth. -/
inductive Reordered : Value → Value → Prop where
  | refl (v : Value) : Reordered v v
  | seq {items others : List Value} (each : ReorderedItems items others) :
    Reordered (.seq items) (.seq others)
  | map {entries values listed : Entries} (each : ReorderedEntries entries values)
    (perm : values.Perm listed) : Reordered (.map entries) (.map listed)
  | tagged (tag : String) {v w : Value} (content : Reordered v w) :
    Reordered (.tagged tag v) (.tagged tag w)

/-- Items that are the same one by one. -/
inductive ReorderedItems : List Value → List Value → Prop where
  | nil : ReorderedItems [] []
  | cons {v w : Value} {items others : List Value} (first : Reordered v w)
    (rest : ReorderedItems items others) : ReorderedItems (v :: items) (w :: others)

/-- Entries with the same keys in the same order, whose values are the same one by one. -/
inductive ReorderedEntries : List (Value × Value) → List (Value × Value) → Prop where
  | nil : ReorderedEntries [] []
  | cons (key : Value) {v w : Value} {entries others : List (Value × Value)} (first : Reordered v w)
    (rest : ReorderedEntries entries others) :
    ReorderedEntries ((key, v) :: entries) ((key, w) :: others)

end

/-- Sorting the values of entries changes neither their keys nor their order. -/
theorem sortedEntries_eq_map (entries : Entries) :
    sortedEntries entries = entries.map fun e => (e.1, e.2.sorted) := by
  induction entries with
  | nil => rfl
  | cons first rest ih =>
    rw [List.map_cons, ← ih]
    rfl

/-- So the keys stay scalars, none of them twice. -/
theorem AreKeyed.sortedEntries {entries : Entries} (keyed : AreKeyed entries) :
    AreKeyed (sortedEntries entries) := by
  rw [sortedEntries_eq_map]
  constructor
  · intro e he
    obtain ⟨origin, mem, rfl⟩ := List.mem_map.mp he
    exact keyed.scalar origin mem
  · rw [List.pairwise_map]
    exact keyed.distinct

/-- The entries of a sorted mapping: putting them in again drops nothing. -/
theorem sorted_map {entries : Entries} (keyed : AreKeyed entries) :
    sorted (.map entries) = .map (sortEntries (sortedEntries entries)) := by
  have arranged := keyed.sortedEntries.perm (perm_sortEntries (sortedEntries entries)).symm
  unfold sorted
  rw [insertAll_eq_self arranged.distinct]

mutual

/-- A tree and its sorted form have the same entries. -/
theorem reordered_sorted : ∀ v : Value, EachMapping AreKeyed v → Reordered v v.sorted
  | .seq items, keyed => .seq (reorderedItems_sorted items keyed)
  | .map entries, keyed => by
    rw [sorted_map keyed.1]
    exact .map (reorderedEntries_sorted entries keyed.2)
      (perm_sortEntries (sortedEntries entries)).symm
  | .tagged tag content, keyed => .tagged tag (reordered_sorted content keyed)
  | .null, _ | .bool _, _ | .int _, _ | .float _, _ | .string _, _ => .refl _

/-- The same for the items of a sequence. -/
theorem reorderedItems_sorted : ∀ items : List Value, EachMappingOfItems AreKeyed items →
    ReorderedItems items (sortedItems items)
  | [], _ => .nil
  | v :: rest, keyed => .cons (reordered_sorted v keyed.1) (reorderedItems_sorted rest keyed.2)

/-- The same for the values of a mapping. -/
theorem reorderedEntries_sorted : ∀ entries : List (Value × Value),
    EachMappingOfEntries AreKeyed entries → ReorderedEntries entries (sortedEntries entries)
  | [], _ => .nil
  | (key, v) :: rest, keyed =>
    .cons key (reordered_sorted v keyed.1) (reorderedEntries_sorted rest keyed.2)

end

mutual

/-- In a sorted tree every mapping is in order. -/
theorem hasOrderedKeys_sorted : ∀ v : Value, EachMapping AreKeyed v → v.sorted.HasOrderedKeys
  | .seq items, keyed => hasOrderedKeys_sortedItems items keyed
  | .map entries, keyed => by
    have perm := perm_sortEntries (sortedEntries entries)
    have each := eachMappingOfEntries_iff.mp (hasOrderedKeys_sortedEntries entries keyed.2)
    rw [sorted_map keyed.1]
    refine ⟨pairwise_sortEntries _, eachMappingOfEntries_iff.mpr fun e he => ?_⟩
    exact each e (perm.mem_iff.mp he)
  | .tagged _ content, keyed => hasOrderedKeys_sorted content keyed
  | .null, _ | .bool _, _ | .int _, _ | .float _, _ | .string _, _ => trivial

/-- The same for the items of a sequence. -/
theorem hasOrderedKeys_sortedItems : ∀ items : List Value, EachMappingOfItems AreKeyed items →
    EachMappingOfItems (fun entries => entries.Pairwise MayPrecede) (sortedItems items)
  | [], _ => trivial
  | v :: rest, keyed =>
    ⟨hasOrderedKeys_sorted v keyed.1, hasOrderedKeys_sortedItems rest keyed.2⟩

/-- The same for the values of a mapping. -/
theorem hasOrderedKeys_sortedEntries : ∀ entries : List (Value × Value),
    EachMappingOfEntries AreKeyed entries →
    EachMappingOfEntries (fun entries => entries.Pairwise MayPrecede) (sortedEntries entries)
  | [], _ => trivial
  | (_, v) :: rest, keyed =>
    ⟨hasOrderedKeys_sorted v keyed.1, hasOrderedKeys_sortedEntries rest keyed.2⟩

end

mutual

/-- In a sorted tree no mapping has a key twice, for its entries have been put in again. -/
theorem hasDistinctKeys_sorted : ∀ v : Value, v.sorted.HasDistinctKeys
  | .seq items => hasDistinctKeys_sortedItems items
  | .map entries => by
    have each := eachMappingOfEntries_iff.mp (hasDistinctKeys_sortedEntries entries)
    refine ⟨pairwise_insertAll _, eachMappingOfEntries_iff.mpr fun e mem => ?_⟩
    obtain ⟨-, f, mem, same⟩ := key_and_value_of_mem_insertAll mem
    rw [← same]
    exact each f ((perm_sortEntries _).mem_iff.mp mem)
  | .tagged _ content => hasDistinctKeys_sorted content
  | .null | .bool _ | .int _ | .float _ | .string _ => trivial

theorem hasDistinctKeys_sortedItems : ∀ items : List Value,
    EachMappingOfItems (fun entries => entries.Pairwise fun a b => a.1.same b.1 = false) (sortedItems items)
  | [] => trivial
  | v :: rest => ⟨hasDistinctKeys_sorted v, hasDistinctKeys_sortedItems rest⟩

theorem hasDistinctKeys_sortedEntries : ∀ entries : List (Value × Value),
    EachMappingOfEntries (fun entries => entries.Pairwise fun a b => a.1.same b.1 = false) (sortedEntries entries)
  | [] => trivial
  | (_, v) :: rest => ⟨hasDistinctKeys_sorted v, hasDistinctKeys_sortedEntries rest⟩

end

/-! ## One canonical form -/

/-- Entries with other values have the same keys. -/
theorem ReorderedEntries.keyed {entries others : Entries} (each : ReorderedEntries entries others)
    (keyed : AreKeyed entries) : AreKeyed others := by
  -- only values are reordered, so all that is said about keys stays
  have keys : ∀ {entries others : Entries}, ReorderedEntries entries others →
      others.map (·.1) = entries.map (·.1) := by
    intro entries others each
    induction entries generalizing others with
    | nil => cases each; rfl
    | cons first rest ih =>
      cases each with
      | cons key _ others => rw [List.map_cons, List.map_cons, ih others]
  have same := keys each
  constructor
  · intro e he
    have mem : e.1 ∈ entries.map (·.1) := same ▸ List.mem_map_of_mem he
    obtain ⟨origin, origin_mem, key⟩ := List.mem_map.mp mem
    exact key ▸ keyed.scalar origin origin_mem
  · have distinct : (entries.map (·.1)).Pairwise fun a b => a.same b = false :=
      List.pairwise_map.mpr keyed.distinct
    rw [← same] at distinct
    exact List.pairwise_map.mp distinct

mutual

/-- Trees that differ in the order of entries are sorted into one tree. -/
theorem Reordered.sorted_eq : ∀ {v w : Value}, Reordered v w → EachMapping AreKeyed v →
    v.sorted = w.sorted
  | _, _, .refl _, _ => rfl
  | _, _, .seq each, keyed => congrArg Value.seq (each.sorted_eq keyed)
  | _, _, .tagged tag content, keyed => congrArg (Value.tagged tag) (content.sorted_eq keyed)
  | _, _, @Reordered.map entries values listed each perm, keyed => by
    have values_keyed := each.keyed keyed.1
    have listed_keyed := values_keyed.perm perm
    have sorted_perm : (sortedEntries values).Perm (sortedEntries listed) := by
      rw [sortedEntries_eq_map, sortedEntries_eq_map]
      exact perm.map _
    rw [sorted_map keyed.1, sorted_map listed_keyed, each.sorted_eq keyed.2,
      sortEntries_eq_of_perm values_keyed.sortedEntries sorted_perm]

/-- The same for the items of a sequence. -/
theorem ReorderedItems.sorted_eq : ∀ {items others : List Value}, ReorderedItems items others →
    EachMappingOfItems AreKeyed items → sortedItems items = sortedItems others
  | _, _, .nil, _ => rfl
  | _, _, .cons first rest, keyed =>
    congrArg₂ List.cons (first.sorted_eq keyed.1) (rest.sorted_eq keyed.2)

/-- The same for the values of a mapping. -/
theorem ReorderedEntries.sorted_eq : ∀ {entries others : List (Value × Value)},
    ReorderedEntries entries others → EachMappingOfEntries AreKeyed entries →
    sortedEntries entries = sortedEntries others
  | _, _, .nil, _ => rfl
  | _, _, .cons key first rest, keyed =>
    congrArg₂ List.cons (congrArg (Prod.mk key) (first.sorted_eq keyed.1)) (rest.sorted_eq keyed.2)

end

/-- Trees with scalar keys that differ only in the order of entries are sorted into the same tree,
    which holds the same entries in the order of their keys.  So they have one canonical text, or
    none, and one digest. -/
theorem sorted_canonical_of_reordered {v w : Value} (scalar : v.HasScalarKeys)
    (distinct : v.HasDistinctKeys) (reordered : Reordered v w) :
    v.sorted = w.sorted ∧ Reordered v v.sorted ∧ v.sorted.HasOrderedKeys ∧
    v.canonical? = w.canonical? ∧ v.contentHash? = w.contentHash? := by
  have keyed := eachMapping_areKeyed v scalar distinct
  have sorted := reordered.sorted_eq keyed
  have canonical : v.canonical? = w.canonical? := by
    unfold canonical?
    rw [sorted]
  have hash : v.contentHash? = w.contentHash? := by
    unfold contentHash?
    rw [canonical]
  exact ⟨sorted, reordered_sorted v keyed, hasOrderedKeys_sorted v keyed, canonical, hash⟩

/-- A tagged mapping within a sequence, with its entries in two orders. -/
theorem sorted_canonical_of_reordered_nested :
    let v : Value := .seq [.tagged "t" (.map [(.string "b", .null), (.int 1, .bool true)])]
    let w : Value := .seq [.tagged "t" (.map [(.int 1, .bool true), (.string "b", .null)])]
    (v.HasScalarKeys ∧ v.HasDistinctKeys ∧ Reordered v w) ∧
    v.sorted = w.sorted ∧ Reordered v v.sorted ∧ v.sorted.HasOrderedKeys ∧
    v.canonical? = w.canonical? ∧ v.contentHash? = w.contentHash? := by
  intro v w
  have scalar : v.HasScalarKeys := by
    refine ⟨⟨?_, trivial, trivial, trivial⟩, trivial⟩
    intro e he
    rcases List.mem_cons.mp he with rfl | he
    · exact .string "b"
    · obtain rfl := List.mem_singleton.mp he
      exact .int 1
  have distinct : v.HasDistinctKeys :=
    ⟨⟨by simp [same], trivial, trivial, trivial⟩, trivial⟩
  have reordered : Reordered v w := by
    have values : ReorderedEntries [(.string "b", .null), (.int 1, .bool true)]
        [(.string "b", .null), (.int 1, .bool true)] :=
      .cons _ (.refl _) (.cons _ (.refl _) .nil)
    exact .seq (.cons (.tagged "t" (.map values (List.Perm.swap _ _ []))) .nil)
  exact ⟨⟨scalar, distinct, reordered⟩, sorted_canonical_of_reordered scalar distinct reordered⟩

end DeployManifest.Yaml.Value
