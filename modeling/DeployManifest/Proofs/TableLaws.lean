import DeployManifest.Table

/-!
# Laws of tables

A table is determined by its bindings: building it again from them, in their order, gives the same
table.  It is determined by what is looked up in it, too, and after insertions that is what was put in, or
what was there before (`get?_insertAll_eq_some_iff`).  The names of a table are those that were put into it,
and so are those of a set.

- `get?_insert`, `get?_insertAll_eq_some_iff`: what is found after insertions.
- `mem_entries_iff`, `mem_keys_insertAll`: entries and names.
- `ext_get?`, `keys_eq_of_mem_iff`: when tables are the same, or have the same names.
- `NameSet.mem_add`, `NameSet.mem_ofNames`: the same for sets.
-/

namespace DeployManifest

namespace Table

variable {α : Type}

/-- A name above all others goes to the end. -/
theorem insertEntry_of_above {name : String} {value : α} {entries : List (String × α)}
    (above : ∀ e ∈ entries, e.1 < name) :
    insertEntry name value entries = entries ++ [(name, value)] := by
  induction entries with
  | nil => rfl
  | cons first rest ih =>
    obtain ⟨k, v⟩ := first
    have less : k < name := above (k, v) List.mem_cons_self
    have not_less : ¬ name < k := String.lt_asymm less
    have not_same : name ≠ k := fun same => String.lt_irrefl k (same ▸ less)
    rw [insertEntry, if_neg not_less, if_neg not_same, List.cons_append,
      ih fun e he => above e (List.mem_cons_of_mem _ he)]

/-- Entries that come in order behind those of a table are put behind them. -/
theorem entries_insertAll_of_rising {t : Table α} {entries : List (String × α)}
    (rising : Rising (t.entries ++ entries)) :
    (t.insertAll entries).entries = t.entries ++ entries := by
  induction entries generalizing t with
  | nil => simp [insertAll]
  | cons first rest ih =>
    obtain ⟨name, value⟩ := first
    have above : ∀ e ∈ t.entries, e.1 < name := fun e he =>
      (List.pairwise_append.mp rising).2.2 e he (name, value) List.mem_cons_self
    have inserted : (t.insert name value).entries = t.entries ++ [(name, value)] :=
      insertEntry_of_above above
    have rest_rising : Rising ((t.insert name value).entries ++ rest) := by
      rw [inserted, List.append_assoc]
      exact rising
    have done := ih rest_rising
    rw [inserted, List.append_assoc] at done
    exact done

@[simp] theorem ofList_entries (t : Table α) : ofList t.entries = t := by
  apply ext
  have rising : Rising ((empty : Table α).entries ++ t.entries) := t.rising
  exact entries_insertAll_of_rising rising

theorem eq_empty_of_isEmpty {t : Table α} (blank : t.isEmpty) : t = empty :=
  ext (List.isEmpty_iff.mp blank)

/-- A name that is bound to nothing occurs in no binding. -/
theorem ne_of_get?_eq_none {t : Table α} {name : String} (free : t.get? name = none)
    {e : String × α} (he : e ∈ t.entries) : e.1 ≠ name := by
  intro same
  have found := List.lookup_eq_none_iff.mp free e he
  simp [same] at found

theorem get?_eq_none_of_ne {t : Table α} {name : String} (other : ∀ e ∈ t.entries, e.1 ≠ name) :
    t.get? name = none :=
  List.lookup_eq_none_iff.mpr fun e he => by simpa using (other e he).symm

/-- What a name is bound to stands among the entries, with that name. -/
theorem mem_entries_of_get? {t : Table α} {name : String} {value : α} (bound : t.get? name = some value) :
    (name, value) ∈ t.entries := by
  obtain ⟨before, behind, split, -⟩ := List.lookup_eq_some_iff.mp bound
  rw [split]
  exact List.mem_append_right _ List.mem_cons_self

theorem exists_get?_of_mem_keys {t : Table α} {name : String} (mem : name ∈ t.keys) :
    ∃ value, t.get? name = some value := by
  obtain ⟨e, he, rfl⟩ := List.mem_map.mp mem
  exact Option.isSome_iff_exists.mp (List.lookup_isSome_iff.mpr ⟨e, he, beq_self_eq_true e.1⟩)

/-- A name that is not bound needs no removing. -/
theorem entries_remove_of_free {t : Table α} {name : String} (free : t.get? name = none) :
    (t.remove name).entries = t.entries :=
  List.filter_eq_self.mpr fun _ he => bne_iff_ne.mpr (ne_of_get?_eq_none free he)

/-- A binding is the only one of its name. -/
theorem perm_remove_of_get? {t : Table α} {name : String} {value : α} (bound : t.get? name = some value) :
    t.entries.Perm ((name, value) :: (t.remove name).entries) := by
  obtain ⟨before, behind, split, others⟩ := List.lookup_eq_some_iff.mp bound
  have rising := t.rising
  rw [split] at rising
  have above : ∀ e ∈ behind, name < e.1 := (List.pairwise_cons.mp (List.pairwise_append.mp rising).2.1).1
  have kept : (t.remove name).entries = before ++ behind := by
    simp only [remove, split, List.filter_append, List.filter_cons, bne_self_eq_false,
      Bool.false_eq_true, if_false]
    rw [List.filter_eq_self.mpr fun e he => ?_, List.filter_eq_self.mpr fun e he => ?_]
    · exact bne_iff_ne.mpr fun same => String.lt_irrefl name (same ▸ above e he)
    · exact bne_comm.trans (others e he)
  rw [kept, split]
  exact List.perm_middle

/-- Each entry is the binding of its name, since no name occurs twice. -/
theorem get?_of_mem {t : Table α} {name : String} {value : α} (mem : (name, value) ∈ t.entries) :
    t.get? name = some value := by
  obtain ⟨other, bound⟩ := exists_get?_of_mem_keys (List.mem_map_of_mem (f := (·.1)) mem)
  rcases List.mem_cons.mp ((perm_remove_of_get? bound).mem_iff.mp mem) with same | removed
  · obtain ⟨-, rfl⟩ := Prod.mk.inj same
    exact bound
  · simp [remove] at removed

theorem mem_entries_iff {t : Table α} {name : String} {value : α} :
    (name, value) ∈ t.entries ↔ t.get? name = some value := ⟨get?_of_mem, mem_entries_of_get?⟩

/-- Inserting a binding is, but for the order, putting it in the place of those of the same name. -/
theorem perm_insert {t : Table α} {name : String} {value : α} :
    (t.insert name value).entries.Perm ((name, value) :: (t.remove name).entries) := by
  obtain ⟨entries, rising⟩ := t
  simp only [insert, remove]
  induction entries with
  | nil => exact .refl _
  | cons first rest ih =>
    obtain ⟨k, v⟩ := first
    have ⟨above, rest_rising⟩ := List.pairwise_cons.mp rising
    have kept : ∀ {other : String}, (∀ e ∈ rest, other < e.1) →
        rest.filter (fun e => e.1 != other) = rest := fun larger =>
      List.filter_eq_self.mpr fun e he =>
        bne_iff_ne.mpr fun same => String.lt_irrefl e.1 (by simpa [same] using larger e he)
    -- the entry goes in front of the first larger name, or takes the place of an entry of its own name
    simp only [insertEntry]
    split
    · next less =>
      have other : (k != name) = true := bne_iff_ne.mpr fun same => String.lt_irrefl k (same ▸ less)
      rw [List.filter_cons, if_pos other, kept fun e he => String.lt_trans less (above e he)]
    · split
      · next same =>
        subst same
        rw [List.filter_cons_of_neg (by simp), kept above]
      · next other =>
        rw [List.filter_cons, if_pos (bne_iff_ne.mpr (Ne.symm other))]
        exact ((ih rest_rising).cons _).trans (.swap _ _ _)

/-- A table built from a list holds nothing that is not in the list. -/
theorem mem_of_mem_insertAll {t : Table α} {entries : List (String × α)} {e : String × α}
    (he : e ∈ (t.insertAll entries).entries) : e ∈ t.entries ∨ e ∈ entries := by
  induction entries generalizing t with
  | nil => exact .inl he
  | cons first rest ih =>
    rcases ih he with inserted | later
    · rcases mem_insertEntry inserted with rfl | before
      · exact .inr List.mem_cons_self
      · exact .inl before
    · exact .inr (List.mem_cons_of_mem _ later)

/-- A table that is built from a list has no other entries than those of the list. -/
theorem mem_of_mem_ofList {entries : List (String × α)} {e : String × α}
    (he : e ∈ (ofList entries).entries) : e ∈ entries := by
  rcases mem_of_mem_insertAll he with nothing | found
  · nomatch nothing
  · exact found

/-- Binding a name adds it to the names, and no other. -/
theorem mem_keys_insert {t : Table α} {name other : String} {value : α} :
    other ∈ (t.insert name value).keys ↔ other = name ∨ other ∈ t.keys := by
  obtain ⟨entries, rising⟩ := t
  unfold keys insert
  dsimp only
  clear rising
  induction entries with
  | nil => exact List.mem_cons
  | cons first rest ih =>
    obtain ⟨k, v⟩ := first
    unfold insertEntry
    split
    · exact List.mem_cons
    · split
      · next same =>
        subst same
        exact ⟨fun mem => .inr mem, fun mem => mem.elim (fun same => same ▸ List.mem_cons_self) id⟩
      · simp only [List.map_cons, List.mem_cons, ih]
        exact or_left_comm

/-- After insertions the names are those from before and those put in. -/
theorem mem_keys_insertAll {t : Table α} {entries : List (String × α)} {name : String} :
    name ∈ (t.insertAll entries).keys ↔ name ∈ t.keys ∨ name ∈ entries.map (·.1) := by
  induction entries generalizing t with
  | nil => exact ⟨.inl, fun mem => mem.elim id nofun⟩
  | cons first rest ih =>
    have step : (t.insertAll (first :: rest)) = (t.insert first.1 first.2).insertAll rest := rfl
    rw [step, ih, mem_keys_insert, List.map_cons, List.mem_cons, or_assoc]
    exact or_left_comm

/-- A name is bound just if it is one of the names. -/
theorem contains_iff_mem_keys {t : Table α} {name : String} : t.contains name = true ↔ name ∈ t.keys := by
  constructor
  · intro bound
    obtain ⟨value, bound⟩ := Option.isSome_iff_exists.mp bound
    exact List.mem_map_of_mem (f := (·.1)) (mem_entries_of_get? bound)
  · intro mem
    obtain ⟨value, bound⟩ := exists_get?_of_mem_keys mem
    exact Option.isSome_iff_exists.mpr ⟨value, bound⟩

/-- The names of sorted entries are determined by which they are. -/
theorem keys_eq_of_mem_iff {β : Type} {entries : List (String × α)} {others : List (String × β)}
    (rising : Rising entries) (rising' : Rising others)
    (same : ∀ name, name ∈ entries.map (·.1) ↔ name ∈ others.map (·.1)) :
    entries.map (·.1) = others.map (·.1) := by
  have sorted : (entries.map (·.1)).Pairwise (· < ·) := List.pairwise_map.mpr rising
  have sorted' : (others.map (·.1)).Pairwise (· < ·) := List.pairwise_map.mpr rising'
  have distinct : ∀ {names : List String}, names.Pairwise (· < ·) → names.Nodup := by
    intro names ordered
    refine ordered.imp ?_
    rintro a b less rfl
    exact String.lt_irrefl a less
  refine List.Perm.eq_of_pairwise ?_ sorted sorted'
    ((List.perm_ext_iff_of_nodup (distinct sorted) (distinct sorted')).mpr same)
  exact fun a b _ _ less more => absurd more (String.lt_asymm less)

/-- The search in a list of entries, with the equality of names instead of its test. -/
theorem lookup_cons_eq_ite {name k : String} {v : α} {entries : List (String × α)} :
    ((k, v) :: entries).lookup name = if name = k then some v else entries.lookup name := by
  rw [List.lookup_cons]
  by_cases here : name = k
  · simp [here]
  · rw [beq_false_of_ne here, if_neg here]

/-- What is found after an insertion into a list in order: the new value under its name, and anything else
    as before. -/
theorem lookup_insertEntry {name other : String} {value : α} {entries : List (String × α)} :
    (insertEntry name value entries).lookup other =
      if other = name then some value else entries.lookup other := by
  induction entries with
  | nil => exact lookup_cons_eq_ite
  | cons first rest ih =>
    obtain ⟨k, v⟩ := first
    unfold insertEntry
    split
    · exact lookup_cons_eq_ite
    · split
      · next same =>
        subst same
        rw [lookup_cons_eq_ite, lookup_cons_eq_ite]
        split <;> rfl
      · next different =>
        rw [lookup_cons_eq_ite, lookup_cons_eq_ite, ih]
        by_cases here : other = k
        · rw [if_pos here, if_pos here, if_neg fun same => different (same.symm.trans here)]
        · rw [if_neg here, if_neg here]

theorem get?_insert {t : Table α} {name other : String} {value : α} :
    (t.insert name value).get? other = if other = name then some value else t.get? other :=
  lookup_insertEntry

/-- Of several bindings of a name the last one counts. -/
theorem get?_insertAll {t : Table α} {entries : List (String × α)} {name : String} :
    (t.insertAll entries).get? name = (entries.reverse.lookup name).or (t.get? name) := by
  induction entries generalizing t with
  | nil => rfl
  | cons first rest ih =>
    obtain ⟨k, v⟩ := first
    have step : t.insertAll ((k, v) :: rest) = (t.insert k v).insertAll rest := rfl
    rw [step, ih, get?_insert, List.reverse_cons, List.lookup_append, Option.or_assoc, lookup_cons_eq_ite]
    split <;> rfl

/-- Where no two bindings of a name differ, it does not matter which of them comes last. -/
theorem get?_insertAll_eq_some_iff {t : Table α} {entries : List (String × α)} {name : String} {value : α}
    (agree : ∀ e ∈ entries, ∀ f ∈ entries, e.1 = f.1 → e.2 = f.2) :
    (t.insertAll entries).get? name = some value ↔
      (name, value) ∈ entries ∨ (∀ e ∈ entries, name ≠ e.1) ∧ t.get? name = some value := by
  rw [get?_insertAll]
  -- the last of the entries with the name is found, but all of them agree
  cases found : entries.reverse.lookup name with
  | none =>
    have absent : ∀ e ∈ entries, name ≠ e.1 := by
      intro e mem
      simpa using List.lookup_eq_none_iff.mp found e (List.mem_reverse.mpr mem)
    have not_listed : (name, value) ∉ entries := fun mem => absent _ mem rfl
    rw [Option.none_or, or_iff_right not_listed, and_iff_right absent]
  | some last =>
    obtain ⟨before, behind, split, -⟩ := List.lookup_eq_some_iff.mp found
    have listed : (name, last) ∈ entries := by
      rw [← List.mem_reverse, split]
      exact List.mem_append_right _ List.mem_cons_self
    rw [Option.some_or, Option.some.injEq]
    constructor
    · rintro rfl
      exact .inl listed
    · rintro (mem | ⟨absent, -⟩)
      · exact agree _ listed _ mem rfl
      · exact absurd rfl (absent _ listed)

/-- A table is what it binds names to. -/
theorem ext_get? {s t : Table α} (same : ∀ name, s.get? name = t.get? name) : s = t := by
  have distinct : ∀ u : Table α, u.entries.Nodup := by
    intro u
    refine u.rising.imp ?_
    rintro a b less rfl
    exact String.lt_irrefl _ less
  have mem_iff : ∀ e, e ∈ s.entries ↔ e ∈ t.entries := by
    rintro ⟨name, value⟩
    rw [mem_entries_iff, mem_entries_iff, same]
  apply ext
  refine List.Perm.eq_of_pairwise ?_ s.rising t.rising
    ((List.perm_ext_iff_of_nodup (distinct s) (distinct t)).mpr mem_iff)
  exact fun a b _ _ less more => absurd more (String.lt_asymm less)

theorem isEmpty_iff_keys {t : Table α} : t.isEmpty = true ↔ ∀ name, name ∉ t.keys := by
  unfold isEmpty keys
  rw [List.isEmpty_iff, ← List.map_eq_nil_iff (f := (·.1)), List.eq_nil_iff_forall_not_mem]

end Table

namespace NameSet

theorem mem_add {set : NameSet} {name other : String} :
    other ∈ (set.add name).toList ↔ other = name ∨ other ∈ set.toList := Table.mem_keys_insert

/-- A set of names from a list has the names of the list. -/
theorem mem_ofNames {names : List String} {name : String} :
    name ∈ (ofNames names).toList ↔ name ∈ names := by
  unfold ofNames toList Table.ofList
  rw [Table.mem_keys_insertAll, List.map_map]
  simp [Table.empty, Table.keys]

/-- Removing a name from a set removes it and no other. -/
theorem mem_remove {set : NameSet} {name other : String} :
    other ∈ toList (set.remove name) ↔ other ∈ set.toList ∧ other ≠ name := by
  unfold toList Table.keys Table.remove
  simp only [List.mem_map, List.mem_filter, bne_iff_ne]
  constructor
  · rintro ⟨e, ⟨mem, differs⟩, rfl⟩
    exact ⟨⟨e, mem, rfl⟩, differs⟩
  · rintro ⟨⟨e, mem, rfl⟩, differs⟩
    exact ⟨e, ⟨mem, differs⟩, rfl⟩

/-- Sets with the same names are equal. -/
theorem ext_of_mem {set other : NameSet} (same : ∀ name, name ∈ set.toList ↔ name ∈ other.toList) :
    set = other := by
  have keys := Table.keys_eq_of_mem_iff set.rising other.rising same
  have whole : ∀ entries : List (String × Unit), (entries.map (·.1)).map (fun name => (name, ())) = entries := by
    intro entries
    rw [List.map_map]
    exact List.map_id entries
  apply Table.ext
  rw [← whole set.entries, ← whole other.entries, keys]

end NameSet
end DeployManifest
