import DeployManifest.Yaml.View

/-!
# Documents without aliases are never refused

Where no alias is followed in reading all of a node, none is followed in reading what an outline shows of
it (`Outline.jumps_eq_zero`): what an outline shows is a part of the node.  So a document without aliases
is explosive for no outline (`Document.isExplosive_of_jumps_eq_zero`).

- `jumpsItems_eq_zero_iff`, `jumpsEntries_eq_zero_iff`: nothing is followed in a collection if nothing is in
  its parts.
- `follow?_of_jumps_eq_zero`: a node in which nothing is followed stands for itself.
- `View.ofSourceWithin?_eq_some_iff`: what a source shows within an outline.
-/

namespace DeployManifest.Yaml

variable {anchors : List (Nat × Node)} {table : List (Nat × Nat)}

namespace Document

/-- No alias is followed in items if none is followed in any of them. -/
theorem jumpsItems_eq_zero_iff {items : List Node} :
    jumpsItems table items = 0 ↔ ∀ item ∈ items, jumps table item = 0 := by
  induction items with
  | nil => simp [jumpsItems]
  | cons first rest ih => rw [jumpsItems, Nat.add_eq_zero_iff, ih, List.forall_mem_cons]

/-- No alias is followed in entries if none is followed in any key or value. -/
theorem jumpsEntries_eq_zero_iff {entries : List (Node × Node)} :
    jumpsEntries table entries = 0 ↔
      ∀ e ∈ entries, jumps table e.1 = 0 ∧ jumps table e.2 = 0 := by
  induction entries with
  | nil => simp [jumpsEntries]
  | cons first rest ih =>
    rw [jumpsEntries, Nat.add_eq_zero_iff, Nat.add_eq_zero_iff, ih, List.forall_mem_cons, and_assoc]

/-- A node in which no alias is followed is none, so it stands for itself. -/
theorem follow?_of_jumps_eq_zero (anchors : List (Nat × Node)) {node : Node}
    (none_followed : jumps table node = 0) :
    Outline.hops node = 0 ∧ node.follow? anchors = some node := by
  match node with
  | .alias n =>
    rw [jumps] at none_followed
    omega
  | .scalar _ _ _ | .seq _ _ | .map _ _ => exact ⟨rfl, rfl⟩

end Document

namespace Outline

-- The recursion is that of the outline; the node gets smaller along with it.
mutual

/-- An outline shows no alias of a node in which there is none. -/
theorem jumps_eq_zero : ∀ (outline : Outline) {node : Node}, Document.jumps table node = 0 →
    outline.jumps anchors table node = 0
  | .whole, node, none_followed => none_followed
  | .items each, node, none_followed => by
    obtain ⟨no_hops, itself⟩ := Document.follow?_of_jumps_eq_zero anchors none_followed
    rw [jumps, no_hops, itself]
    match node with
    | .alias _ | .scalar _ _ _ | .map _ _ => rfl
    | .seq props found =>
      have inside := Document.jumpsItems_eq_zero_iff.mp none_followed
      rw [Nat.zero_add]
      show found.foldr (fun item n => jumps anchors table each item + n) 0 = 0
      refine List.foldrRecOn (motive := (· = 0)) found _ rfl fun n none_behind item mem => ?_
      rw [none_behind, jumps_eq_zero each (inside item mem)]
  | .record plain nested, node, none_followed => by
    obtain ⟨no_hops, itself⟩ := Document.follow?_of_jumps_eq_zero anchors none_followed
    rw [jumps, no_hops, itself]
    match node with
    | .alias _ | .scalar _ _ _ | .seq _ _ => rfl
    | .map props entries =>
      have inside := Document.jumpsEntries_eq_zero_iff.mp none_followed
      rw [Nat.zero_add]
      show entries.foldr _ 0 = 0
      refine List.foldrRecOn (motive := (· = 0)) entries _ rfl fun n none_behind e mem => ?_
      obtain ⟨key, value⟩ := inside e mem
      rw [none_behind, Nat.add_zero, key, Nat.zero_add]
      -- a field that is read is read as a whole or within an outline of its own; the others are not looked at
      cases fieldName? anchors e.1 with
      | none => rfl
      | some name =>
        rw [Option.elim_some]
        split
        · exact value
        · exact jumpsNested_eq_zero name nested value

/-- So it is with the fields of a record that have outlines of their own. -/
theorem jumpsNested_eq_zero (name : String) : ∀ (nested : List (String × Outline)) {node : Node},
    Document.jumps table node = 0 → jumpsNested anchors table name nested node = 0
  | [], node, none_followed => rfl
  | (known, outline) :: rest, node, none_followed => by
    rw [jumpsNested]
    split
    · exact jumps_eq_zero outline none_followed
    · exact jumpsNested_eq_zero name rest none_followed

end

end Outline

/-- A document without aliases is explosive for no outline. -/
theorem Document.isExplosive_of_jumps_eq_zero {document : Document}
    (none_followed : ∀ table, jumps table document.root = 0) (outline : Outline) :
    document.isExplosive outline = false := by
  unfold isExplosive
  dsimp only
  rw [Outline.jumps_eq_zero outline (none_followed _)]
  simp

/-- A source can be read within an outline if there is a document in it that is not explosive for it. -/
theorem View.ofSourceWithin?_eq_some_iff {outline : Outline} {source : Source} {view : View} :
    ofSourceWithin? outline source = some view ↔
      ∃ document, Document.ofSource? source = some document ∧ document.isExplosive outline = false ∧
        ofDocument document = view := by
  simp [ofSourceWithin?, Option.filter_eq_some_iff, and_assoc]

end DeployManifest.Yaml
