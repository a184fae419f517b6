/-!
# Tables

A table binds names to values.  Its entries are sorted by name, and each name occurs once, so two
tables with the same bindings are equal.  Names are compared character by character.

Main operations: `get?`, `insert`, `remove`, `ofList`, in which later bindings win, `keys`, `map`.
-/

namespace DeployManifest

/-- Entries with strictly rising names. -/
def Rising {α : Type} (entries : List (String × α)) : Prop :=
  entries.Pairwise fun a b => a.1 < b.1

/-- Values bound to names. -/
structure Table (α : Type) where
  entries : List (String × α)
  rising : Rising entries

namespace Table

variable {α β : Type}

/-- The table without bindings. -/
def empty : Table α := ⟨[], List.Pairwise.nil⟩

instance : Inhabited (Table α) := ⟨empty⟩

theorem ext {s t : Table α} (h : s.entries = t.entries) : s = t := by
  cases s; cases t; cases h; rfl

instance [DecidableEq α] : DecidableEq (Table α) := fun s t =>
  if h : s.entries = t.entries then .isTrue (ext h)
  else .isFalse fun e => h (e ▸ rfl)

/-- Whether no name is bound. -/
def isEmpty (t : Table α) : Bool := t.entries.isEmpty

/-- The value bound to `name`. -/
def get? (t : Table α) (name : String) : Option α := t.entries.lookup name

/-- Whether a name is bound. -/
def contains (t : Table α) (name : String) : Bool := (t.get? name).isSome

/-- The bound names, in order. -/
def keys (t : Table α) : List String := t.entries.map (·.1)

/-- The bound values, in the order of their names. -/
def values (t : Table α) : List α := t.entries.map (·.2)

/-- Puts a binding in its place among sorted entries. -/
def insertEntry (name : String) (value : α) : List (String × α) → List (String × α)
  | [] => [(name, value)]
  | (k, v) :: rest =>
    if name < k then (name, value) :: (k, v) :: rest
    else if name = k then (name, value) :: rest
    else (k, v) :: insertEntry name value rest

/-- Inserting brings in nothing but the new entry. -/
theorem mem_insertEntry {name : String} {value : α} {entries : List (String × α)}
    {e : String × α} (h : e ∈ insertEntry name value entries) :
    e = (name, value) ∨ e ∈ entries := by
  induction entries with
  | nil => simpa [insertEntry] using h
  | cons first rest ih =>
    simp only [insertEntry] at h
    split at h
    · simpa using h
    · split at h <;> simp only [List.mem_cons] at h ⊢
      · exact h.imp_right Or.inr
      · rcases h with h | h
        · exact .inr (.inl h)
        · exact (ih h).imp_right Or.inr

/-- Inserting keeps the entries in order, so a table stays one. -/
theorem rising_insertEntry {name : String} {value : α} {entries : List (String × α)}
    (h : Rising entries) : Rising (insertEntry name value entries) := by
  induction entries with
  | nil => simp [insertEntry, Rising]
  | cons first rest ih =>
    obtain ⟨k, v⟩ := first
    have ⟨above, rising⟩ := List.pairwise_cons.1 h
    -- in front of the first larger name, in the place of its own, or further behind
    simp only [insertEntry]
    split
    · next less =>
      refine List.pairwise_cons.2 ⟨fun e he => ?_, h⟩
      rcases List.mem_cons.1 he with rfl | he
      · exact less
      · exact String.lt_trans less (above e he)
    · split
      · next same => exact List.pairwise_cons.2 ⟨fun e he => same ▸ above e he, rising⟩
      · next notLess notSame =>
        refine List.pairwise_cons.2 ⟨fun e he => ?_, ih rising⟩
        rcases mem_insertEntry he with rfl | he
        · exact Decidable.byContradiction fun notMore =>
            notSame (String.le_antisymm (String.not_lt.1 notMore) (String.not_lt.1 notLess))
        · exact above e he

/-- The table with `name` bound to `value`, whatever it was bound to before. -/
def insert (t : Table α) (name : String) (value : α) : Table α :=
  ⟨insertEntry name value t.entries, rising_insertEntry t.rising⟩

/-- The table without a binding for `name`. -/
def remove (t : Table α) (name : String) : Table α :=
  ⟨t.entries.filter fun (k, _) => k != name, t.rising.filter _⟩

/-- `t` with the bindings of a list inserted one after another. -/
def insertAll (t : Table α) (entries : List (String × α)) : Table α :=
  entries.foldl (fun t (name, value) => t.insert name value) t

/-- The table of a list of bindings; of several bindings of a name the last one counts. -/
def ofList (entries : List (String × α)) : Table α := empty.insertAll entries

/-- The table with a single binding. -/
def single (name : String) (value : α) : Table α := empty.insert name value

/-- Applies `f` to all values. -/
def map (f : α → β) (t : Table α) : Table β where
  entries := t.entries.map fun (k, v) => (k, f v)
  rising := by
    have rising := t.rising
    unfold Rising at rising ⊢
    exact List.pairwise_map.2 rising

end Table

/-- A set of names, sorted and without repeats. -/
abbrev NameSet := Table Unit

namespace NameSet

/-- The set of the names in a list, which may repeat some. -/
def ofNames (names : List String) : NameSet := Table.ofList (names.map fun name => (name, ()))

/-- The set with one more name. -/
def add (s : NameSet) (name : String) : NameSet := s.insert name ()

/-- The names, in order. -/
def toList (s : NameSet) : List String := s.keys

end NameSet
end DeployManifest
