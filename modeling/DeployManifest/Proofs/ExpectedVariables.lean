import DeployManifest.Proofs.Missing

/-!
# What is expected of the variables

Options that expect something of the variables do nothing but check.  Where values cannot be put in at
all, they cannot be with any options.  Otherwise two sets of names decide: those of the placeholders
that stand for nothing, and those that are bound although no placeholder reads them.  A placeholder reads
the variable of its name or, if there is none, the one of the part before its first dot, and it reads that
one even if it has no such field.

Both sets are determined by the tree and the tables alone, without a walk through the tree, and are
reported in order.

Main statement: `interpolateChecked_by_options`.

- `Lists`: a list of names in order, each of them once.
- `Interpolation.Reads`, `Interpolation.IsReadIn`: which variables the placeholders of a tree read.
- `Interpolation.IsUnusedIn`: those that are bound and not read.
-/

namespace DeployManifest

open Yaml (Value)
open Bindings (Binds)

/-- Whether a list has just the wanted names, in order and each of them once. -/
structure Lists (names : List String) (wanted : String → Prop) : Prop where
  ordered : names.Pairwise (· < ·)
  mem_iff : ∀ name, name ∈ names ↔ wanted name

/-- The names of a set are listed in order. -/
theorem NameSet.lists {set : NameSet} {wanted : String → Prop}
    (mem_iff : ∀ name, name ∈ set.toList ↔ wanted name) : Lists set.toList wanted :=
  ⟨List.pairwise_map.mpr set.rising, mem_iff⟩

theorem NameSet.isEmpty_toList {set : NameSet} : set.toList.isEmpty = set.isEmpty := List.isEmpty_map

/-- Names are reported if they are asked about and there are any. -/
theorem isReported_iff {asked : Bool} {names : List String} :
    (asked && !names.isEmpty) = true ↔ asked ∧ names ≠ [] := by
  rw [Bool.and_eq_true, Bool.not_eq_true', Bool.eq_false_iff, ne_eq, List.isEmpty_iff]

namespace Interpolation

variable {b : Bindings} {text : List Char} {name : String} {usage : Usage}

/-- Which variable is read when a name is looked up. -/
inductive Reads (b : Bindings) : List Char → String → Prop where
  | whole {text : List Char} {v : Value} (bound : b.Binds (String.ofList text) v) :
    Reads b text (String.ofList text)
  -- the field behind the dot need not be there
  | first {first rest : List Char} {v : Value}
    (free : ∀ w, ¬ b.Binds (String.ofList (first ++ '.' :: rest)) w) (clean : '.' ∉ first)
    (bound : b.Binds (String.ofList first) v) : Reads b (first ++ '.' :: rest) (String.ofList first)

/-- Whether a variable is read for a placeholder that stands anywhere in the strings of a tree. -/
def IsReadIn (b : Bindings) (t : Value) (name : String) : Prop :=
  ∃ s, t.HasString s ∧ ∃ p : Placeholder, p.StandsIn s.toList ∧ Reads b p.name name

/-- Whether a variable has a value in some table and is read for no placeholder of a tree. -/
def IsUnusedIn (b : Bindings) (t : Value) (name : String) : Prop :=
  (∃ table ∈ b, name ∈ table.keys) ∧ ¬ IsReadIn b t name

/-- A name that is bound reads the variable of that name and no other. -/
theorem reads_of_bound {v : Value} (bound : b.Binds (String.ofList text) v) :
    Reads b text name ↔ name = String.ofList text := by
  constructor
  · intro reads
    cases reads with
    | whole => rfl
    | first free => exact absurd bound (free v)
  · rintro rfl
    exact .whole bound

/-- A name that is not bound reads what the search for a field starts from, found or not. -/
theorem reads_of_free (free : ∀ v, ¬ b.Binds (String.ofList text) v) :
    Reads b text name ↔ ∃ found, fieldOf? b text = some (found, name) := by
  unfold fieldOf?
  constructor
  · intro reads
    -- the whole name is not bound, so only its first part can be
    cases reads with
    | whole bound => exact absurd bound (free _)
    | first _ clean bound =>
      rw [Text.splitOnce?_eq_some_iff.mpr ⟨rfl, clean⟩]
      dsimp only
      rw [Bindings.get?_eq_some_iff.mpr bound]
      exact ⟨_, rfl⟩
  · rintro ⟨found, search⟩
    split at search
    · next first rest split =>
      obtain ⟨rfl, clean⟩ := Text.splitOnce?_eq_some_iff.mp split
      obtain ⟨v, bound, same⟩ := Option.map_eq_some_iff.mp search
      obtain ⟨-, rfl⟩ := Prod.mk.inj same
      exact .first free clean (Bindings.get?_eq_some_iff.mp bound)
    · nomatch search

/-- A variable is noted as used once it is found, whether or not it has the field that is asked for. -/
theorem resolve_used :
    (resolve b usage text).2.used =
      match b.get? (String.ofList text), fieldOf? b text with
      | some _, _ => usage.used.add (String.ofList text)
      | none, some (_, base) => usage.used.add base
      | none, none => usage.used := by
  unfold resolve
  dsimp only
  cases b.get? (String.ofList text) with
  | some value => rfl
  | none =>
    match fieldOf? b text with
    | some (some value, base) => rfl
    | some (none, base) => rfl
    | none => rfl

/-- A variable is noted as used when it is read, and no other is. -/
theorem notes_used : Notes b Usage.used (Reads b) := by
  intro usage text name
  rw [resolve_used]
  cases whole : b.get? (String.ofList text) with
  | some v =>
    rw [NameSet.mem_add, reads_of_bound (Bindings.get?_eq_some_iff.mp whole), or_comm]
  | none =>
    rw [reads_of_free (Bindings.get?_eq_none_iff.mp whole)]
    cases fieldOf? b text with
    | none => simp
    | some field =>
      rw [NameSet.mem_add, or_comm]
      simp [Prod.ext_iff, eq_comm]

/-- The names noted as used are those of the variables that are read. -/
theorem mem_used_iff {t last : Value} (put : interpolate b t = .ok (last, usage)) :
    name ∈ usage.used.toList ↔ IsReadIn b t name :=
  mem_kept_iff notes_used rfl put

/-- The names that count as unused are those that are bound and not read. -/
theorem mem_unusedNames_iff {t last : Value} (put : interpolate b t = .ok (last, usage)) :
    name ∈ unusedNames b usage ↔ IsUnusedIn b t name := by
  have unused : (!usage.used.contains name) = true ↔ ¬ IsReadIn b t name := by
    rw [← mem_used_iff put, Bool.not_eq_true', Bool.eq_false_iff, ne_eq, Table.contains_iff_mem_keys]
    rfl
  unfold unusedNames IsUnusedIn Bindings.names
  rw [NameSet.mem_ofNames, List.mem_filter, List.mem_flatMap, unused]

end Interpolation

open Interpolation (IsMissingIn IsUnusedIn)

variable (b : Bindings) (t : Value)

/-- Where nothing is expected, values are put in unless the walk fails. -/
theorem interpolateChecked_unexpecting :
    interpolateChecked b ⟨false, false⟩ t = (interpolate b t).map (·.1) := by
  unfold interpolateChecked
  cases interpolate b t <;> rfl

/-- Expectations change nothing but whether the result is reported: a failure without them is the
    failure with them, and otherwise the missing names come first, if they are asked about and there
    are any, and then the unused ones. -/
theorem interpolateChecked_by_options :
    match interpolateChecked b ⟨false, false⟩ t with
    | .error e => ∀ options, interpolateChecked b options t = .error e
    | .ok last =>
      ∃ missing unused, Lists missing (IsMissingIn b t) ∧ Lists unused (IsUnusedIn b t) ∧
        ∀ options, interpolateChecked b options t =
          if options.expectAllKeys ∧ missing ≠ [] then .error (.missingVariables missing)
          else if options.expectAllVarsUsed ∧ unused ≠ [] then .error (.unusedVariables unused)
          else .ok last := by
  rw [interpolateChecked_unexpecting]
  unfold interpolateChecked
  cases put : interpolate b t with
  | error e => exact fun _ => rfl
  | ok found =>
    obtain ⟨last, usage⟩ := found
    refine ⟨usage.missing.toList, unusedNames b usage,
      NameSet.lists fun name => Interpolation.mem_missing_iff put,
      NameSet.lists fun name => Interpolation.mem_unusedNames_iff put, ?_⟩
    intro options
    simp only [← NameSet.isEmpty_toList, isReported_iff]

-- the first table hides the field that the second one has: the name with the field is missing, but the
-- variable is used, and only the other one is not
example :
    let tables : Bindings :=
      [.single "ca" .null, .single "ca" (.map [(.string "key", .string "secret")]), .single "port" (.int 1)]
    interpolateChecked tables ⟨false, false⟩ (.string "((ca.key))") = .ok (.string "((ca.key))") ∧
      interpolateChecked tables ⟨false, true⟩ (.string "((ca.key))") = .error (.unusedVariables ["port"]) ∧
      interpolateChecked tables ⟨true, true⟩ (.string "((ca.key))") = .error (.missingVariables ["ca.key"]) :=
  ⟨rfl, rfl, rfl⟩

end DeployManifest
