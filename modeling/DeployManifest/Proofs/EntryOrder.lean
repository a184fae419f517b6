import DeployManifest.Proofs.Addresses
import DeployManifest.Proofs.CanonicalForm

/-!
# Writing twice to one node

Two writes to one branch of a node leave the second one (`putChild_putChild`).  Writes to two branches may
be exchanged: in a sequence that makes no difference, and in a mapping it is only the order of new entries
that differs (`perm_insert_insert`, `reordered_putChild_comm`).  Writing two children that are the same up to
the order of entries gives two nodes of this kind (`reordered_putChild`).

- `perm_insert_insert`: two names bound in either order.
- `insert_middle`, `lookup?_middle`: a mapping taken apart at a name.
- `IsOpen.putChild`: a branch stays open when something is put to another one.
-/

namespace DeployManifest

/-! ## Entries -/

namespace Yaml.Value

variable {name other : String} {key old value another : Value} {before behind entries others : Entries}

theorem ReorderedItems.refl (items : List Value) : ReorderedItems items items := by
  induction items with
  | nil => exact .nil
  | cons v rest ih => exact .cons (.refl v) ih

theorem ReorderedEntries.refl : ∀ entries : Entries, ReorderedEntries entries entries
  | [] => .nil
  | (key, v) :: rest => .cons key (.refl v) (ReorderedEntries.refl rest)

/-- Mappings with the same entries. -/
theorem Reordered.of_perm (perm : entries.Perm others) : Reordered (.map entries) (.map others) :=
  .map (ReorderedEntries.refl entries) perm

/-- Two values that are the same may stand in for each other in the place of an item. -/
theorem ReorderedItems.set {items : List Value} {n : Nat} (same : Reordered value another) :
    ReorderedItems (items.set n value) (items.set n another) := by
  induction items generalizing n with
  | nil => exact .nil
  | cons first rest ih =>
    cases n with
    | zero => exact .cons same (.refl rest)
    | succ n => exact .cons (.refl first) ih

/-- They may stand in for each other behind the last item. -/
theorem ReorderedItems.concat {items : List Value} (same : Reordered value another) :
    ReorderedItems (items ++ [value]) (items ++ [another]) := by
  induction items with
  | nil => exact .cons same .nil
  | cons first rest ih => exact .cons (.refl first) ih

/-- They may stand in for each other at a key. -/
theorem ReorderedEntries.insert (same : Reordered value another) :
    ReorderedEntries (insert key value entries) (insert key another entries) := by
  induction entries with
  | nil => exact .cons key same .nil
  | cons first rest ih =>
    obtain ⟨k, v⟩ := first
    unfold Value.insert
    split
    · exact .cons k same (.refl rest)
    · exact .cons k (.refl v) ih

theorem same_string_eq_false (differs : key ≠ .string name) : key.same (.string name) = false :=
  Bool.eq_false_iff.mpr fun found => differs (same_string_iff.mp found)

/-- Of two values that a name is bound to one after the other, only the second one is left. -/
theorem insert_insert_self :
    insert (.string name) value (insert (.string name) old entries) = insert (.string name) value entries := by
  induction entries with
  | nil => simp [insert, same]
  | cons first rest ih =>
    obtain ⟨k, v⟩ := first
    by_cases same : k.same (.string name) = true
    · simp [insert, same]
    · simp [insert, same, ih]

/-- New entries stand in the order in which they were bound; others keep their places. -/
theorem perm_insert_insert (ne : name ≠ other) :
    (insert (.string name) value (insert (.string other) another entries)).Perm
      (insert (.string other) another (insert (.string name) value entries)) := by
  induction entries with
  | nil =>
    simp only [insert, same, beq_iff_eq, ne, ne.symm, if_false]
    exact List.Perm.swap _ _ []
  | cons first rest ih =>
    obtain ⟨k, v⟩ := first
    -- the insertions meet different keys, or both are appended
    by_cases is_name : k = .string name
    · subst is_name
      simp [insert, same, ne]
    · by_cases is_other : k = .string other
      · subst is_other
        simp [insert, same, ne.symm]
      · simp only [insert, same_string_eq_false is_name, same_string_eq_false is_other, Bool.false_eq_true, if_false]
        exact ih.cons (k, v)

/-- The first entry with a name is the one that is bound anew. -/
theorem insert_middle (first : ∀ e ∈ before, e.1 ≠ .string name) :
    insert (.string name) value (before ++ (.string name, old) :: behind) =
      before ++ (.string name, value) :: behind := by
  induction before with
  | nil => simp [insert, same]
  | cons e rest ih =>
    obtain ⟨not_here, not_there⟩ := List.forall_mem_cons.mp first
    simp [insert, same_string_eq_false not_here, ih not_there]

/-- What a name is bound to, if no entry in front has it. -/
theorem lookup?_middle (first : ∀ e ∈ before, e.1 ≠ .string name) :
    lookup? (.string name) (before ++ (.string name, value) :: behind) = some value := by
  have bound : lookup? (.string name)
      (insert (.string name) value (before ++ (.string name, value) :: behind)) = some value :=
    Patch.lookup?_insert_self
  rwa [insert_middle first] at bound

/-- A name that no entry has is not bound. -/
theorem lookup?_eq_none (absent : ∀ e ∈ entries, e.1 ≠ .string name) :
    lookup? (.string name) entries = none := by
  induction entries with
  | nil => rfl
  | cons e rest ih =>
    obtain ⟨not_here, not_there⟩ := List.forall_mem_cons.mp absent
    simp [lookup?, same_string_eq_false not_here, ih not_there]

end Yaml.Value

/-! ## Nodes -/

namespace Patch

open Yaml (Value Entries)
open Yaml.Value

variable {node child another content inner : Value} {branch other : Branch} {step : Step} {entries : Entries}
  {items : List Value}

/-- What stands within the tags may be written twice, if it has no tags itself. -/
theorem withContent_withContent (bare : ∀ content, withContent content inner = content) :
    withContent content (withContent inner node) = withContent content node := by
  induction node using withContent.induct with
  | case1 tag inside ih => exact congrArg (Value.tagged tag) ih
  | case2 other not_tagged => rw [withContent.eq_2 inner _ not_tagged, withContent.eq_2 content _ not_tagged, bare]

/-- Nodes with the same tags are the same if their contents are. -/
theorem reordered_withContent (same : Reordered content inner) :
    Reordered (withContent content node) (withContent inner node) := by
  induction node using withContent.induct with
  | case1 tag inner ih => exact .tagged tag ih
  | case2 other not_tagged => rwa [withContent.eq_2 _ _ not_tagged, withContent.eq_2 _ _ not_tagged]

/-- Writing to a branch closes none. -/
theorem IsOpen.putChild (also : IsOpen node other) (opened : IsOpen node branch) :
    IsOpen (putChild node branch child) other := by
  cases opened with
  | key map =>
    rw [putChild_key map]
    cases also with
    | key _ => exact .key entries?_withContent_map
    | index seq => nomatch (items?_eq_none_of_map map).symm.trans seq
  | @index items n seq le =>
    cases also with
    | key map => nomatch (entries?_eq_none_of_seq seq).symm.trans map
    | index seq_too le_too =>
      obtain rfl := Option.some.inj (seq.symm.trans seq_too)
      -- the child takes the place of an item, or is appended
      rcases Nat.lt_or_eq_of_le le with lt | rfl
      · rw [putChild_set seq lt]
        exact .index items?_withContent_seq (by simpa using le_too)
      · rw [putChild_append seq]
        exact .index items?_withContent_seq (by simp; omega)

/-- Of two children put to one branch, only the second one is left. -/
theorem putChild_putChild (opened : IsOpen node branch) :
    putChild (putChild node branch child) branch another = putChild node branch another := by
  cases opened with
  | key map =>
    rw [putChild_key map, putChild_key map, putChild_key entries?_withContent_map, insert_insert_self,
      withContent_withContent fun _ => rfl]
  | @index items n seq le =>
    rcases Nat.lt_or_eq_of_le le with lt | rfl
    · rw [putChild_set seq lt, putChild_set seq lt, putChild_set items?_withContent_seq (by simpa using lt),
        List.set_set, withContent_withContent fun _ => rfl]
    · rw [putChild_append seq, putChild_append seq, putChild_set items?_withContent_seq (by simp),
        withContent_withContent fun _ => rfl]
      simp

/-- Children that are the same make nodes that are the same. -/
theorem reordered_putChild (opened : IsOpen node branch) (same : Reordered child another) :
    Reordered (putChild node branch child) (putChild node branch another) := by
  cases opened with
  | key map =>
    rw [putChild_key map, putChild_key map]
    exact reordered_withContent (.map (.insert same) (.refl _))
  | @index items n seq le =>
    rcases Nat.lt_or_eq_of_le le with lt | rfl
    · rw [putChild_set seq lt, putChild_set seq lt]
      exact reordered_withContent (.seq (.set same))
    · rw [putChild_append seq, putChild_append seq]
      exact reordered_withContent (.seq (.concat same))

/-- Two writes may be exchanged unless one of them makes a sequence longer. -/
theorem reordered_putChild_comm (opened : IsOpen node branch) (also : IsOpen node other) (ne : branch ≠ other)
    (there : ∀ n, branch = .index n → (child? node branch).isSome)
    (there_too : ∀ n, other = .index n → (child? node other).isSome) :
    Reordered (putChild (putChild node branch child) other another)
      (putChild (putChild node other another) branch child) := by
  cases opened with
  | @key entries name map =>
    cases also with
    | @key _ other map_too =>
      obtain rfl := Option.some.inj (map.symm.trans map_too)
      have apart : other ≠ name := by
        intro same
        exact ne (by rw [same])
      rw [putChild_key map, putChild_key map, putChild_key entries?_withContent_map,
        putChild_key entries?_withContent_map, withContent_withContent fun _ => rfl,
        withContent_withContent fun _ => rfl]
      exact reordered_withContent (.of_perm (perm_insert_insert apart))
    -- no node is a mapping and a sequence
    | index seq => nomatch (items?_eq_none_of_map map).symm.trans seq
  | @index items m seq =>
    cases also with
    | key map => nomatch (entries?_eq_none_of_seq seq).symm.trans map
    | @index _ n seq_too =>
      obtain rfl := Option.some.inj (seq.symm.trans seq_too)
      have apart : m ≠ n := by
        intro same
        exact ne (by rw [same])
      have lt : m < items.length := by simpa [child?_index seq] using there m rfl
      have lt_too : n < items.length := by simpa [child?_index seq] using there_too n rfl
      rw [putChild_set seq lt, putChild_set seq lt_too, putChild_set items?_withContent_seq (by simpa using lt_too),
        putChild_set items?_withContent_seq (by simpa using lt), withContent_withContent fun _ => rfl,
        withContent_withContent fun _ => rfl, List.set_comm _ _ apart]
      exact .refl _

end Patch
end DeployManifest
