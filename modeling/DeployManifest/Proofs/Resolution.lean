import DeployManifest.Evaluation.Interpolation
import DeployManifest.Proofs.TextSearch

/-!
# What a name stands for

`Bindings.StandsFor` says which value a name stands for, without the search: either the name is bound
as a whole, or it is not and the part before its first dot is bound to a value in which the parts behind
that dot lead to the value, one field after another.  A name is bound to what the first table that has
it gives.

`resolve_eq_some_iff` states that `resolve` finds just that value, whatever has been used so far.

- `Bindings.Binds`: the value in the first table that has a name.
- `Bindings.Leads`: fields that lead from a value into it.
- `Interpolation.fieldOf?_eq_some_iff`: the search behind the first dot.
- `Interpolation.standsFor_unique`, `Interpolation.resolve_cases`: a name stands for one value, or for none.
-/

namespace DeployManifest

open Yaml (Value)

namespace Bindings

variable {b : Bindings} {name : String} {v : Value}

/-- Whether the first table that has the name binds it to the value. -/
def Binds (b : Bindings) (name : String) (v : Value) : Prop :=
  ∃ front table back, b = front ++ table :: back ∧ table.get? name = some v ∧
    ∀ earlier ∈ front, earlier.get? name = none

theorem get?_eq_some_iff : b.get? name = some v ↔ b.Binds name v := List.findSome?_eq_some_iff

theorem get?_eq_none_iff : b.get? name = none ↔ ∀ v, ¬ b.Binds name v := by
  simp only [← get?_eq_some_iff, Option.eq_none_iff_forall_ne_some, ne_eq]

/-- A single table binds a name to what is found in it. -/
theorem binds_singleton_iff {table : Table Value} :
    Binds [table] name v ↔ table.get? name = some v := by
  rw [← get?_eq_some_iff]
  unfold get?
  rw [List.findSome?_cons]
  cases table.get? name <;> simp

/-- Whether fields lead from a value to another one. -/
inductive Leads : Value → List (List Char) → Value → Prop where
  | here {v : Value} : Leads v [] v
  | field {v inner last : Value} {name : List Char} {path : List (List Char)}
    (entry : v.field? (String.ofList name) = some inner) (rest : Leads inner path last) :
    Leads v (name :: path) last

/-- Fields lead to a value just if following them one after another gives it. -/
theorem leads_iff {path : List (List Char)} {last : Value} :
    Leads v path last ↔ Interpolation.fieldAt? v path = some last := by
  unfold Interpolation.fieldAt?
  constructor
  · intro leads
    induction leads with
    | here => rfl
    | field entry _ ih => rw [List.foldlM_cons, entry]; exact ih
  · intro found
    induction path generalizing v with
    | nil => exact Option.some.inj found ▸ .here
    | cons name path ih =>
      rw [List.foldlM_cons] at found
      obtain ⟨inner, entry, behind⟩ := Option.bind_eq_some_iff.mp found
      exact .field entry (ih behind)

/-- Whether a name stands for a value: as a whole, or as the fields of what its first part is bound
    to. -/
inductive StandsFor (b : Bindings) : List Char → Value → Prop where
  | whole {name : List Char} {v : Value} (bound : b.Binds (String.ofList name) v) : StandsFor b name v
  -- a binding of the whole name hides the fields
  | field {base field : List Char} {path : List (List Char)} {v last : Value}
    (free : ∀ w, ¬ b.Binds (String.ofList (base ++ (field :: path).flatMap ('.' :: ·))) w)
    (parts : ∀ part ∈ base :: field :: path, '.' ∉ part)
    (bound : b.Binds (String.ofList base) v) (leads : Leads v (field :: path) last) :
    StandsFor b (base ++ (field :: path).flatMap ('.' :: ·)) last

end Bindings

namespace Interpolation

open Bindings (Binds Leads StandsFor)

variable {b : Bindings} {usage : Usage} {name : List Char} {v : Value}

/-- The search finds a value for the first part of a name and the fields behind it. -/
theorem fieldOf?_eq_some_iff {found : Option Value} {base : String} :
    fieldOf? b name = some (found, base) ↔
      ∃ first field path value, name = first ++ (field :: path).flatMap ('.' :: ·) ∧
        (∀ part ∈ first :: field :: path, '.' ∉ part) ∧ base = String.ofList first ∧
        b.Binds base value ∧ fieldAt? value (field :: path) = found := by
  unfold fieldOf?
  constructor
  · intro search
    split at search
    · next first behind split =>
      obtain ⟨value, bound, same⟩ := Option.map_eq_some_iff.mp search
      obtain ⟨found_eq, base_eq⟩ := Prod.mk.inj same
      obtain ⟨name_eq, clean⟩ := Text.splitOnce?_eq_some_iff.mp split
      obtain ⟨field, path, parts⟩ := List.exists_cons_of_ne_nil (Text.splitAt_ne_nil '.' behind)
      obtain ⟨behind_eq, parts_clean⟩ := Text.splitAt_eq_cons_iff.mp parts
      refine ⟨first, field, path, value, ?_, List.forall_mem_cons.mpr ⟨clean, parts_clean⟩,
        base_eq.symm, ?_, ?_⟩
      · rw [name_eq, behind_eq, List.flatMap_cons, List.cons_append]
      · exact base_eq ▸ Bindings.get?_eq_some_iff.mp bound
      · rw [← parts, found_eq]
    · nomatch search
  · rintro ⟨first, field, path, value, rfl, parts, rfl, bound, rfl⟩
    have ⟨clean, parts_clean⟩ := List.forall_mem_cons.mp parts
    -- the first dot ends the first part; the parts behind it are those of the path
    have split : Text.splitOnce? '.' (first ++ (field :: path).flatMap ('.' :: ·)) =
        some (first, field ++ path.flatMap ('.' :: ·)) :=
      Text.splitOnce?_eq_some_iff.mpr ⟨by rw [List.flatMap_cons, List.cons_append], clean⟩
    have behind : Text.splitAt '.' (field ++ path.flatMap ('.' :: ·)) = field :: path :=
      Text.splitAt_eq_cons_iff.mpr ⟨rfl, parts_clean⟩
    rw [split]
    dsimp only
    rw [behind, Bindings.get?_eq_some_iff.mpr bound]
    rfl

/-- A name is resolved to the value it stands for. -/
theorem resolve_eq_some_iff : (resolve b usage name).1 = some v ↔ b.StandsFor name v := by
  unfold resolve
  dsimp only
  constructor
  · intro resolved
    split at resolved
    · next value bound =>
      obtain rfl := Option.some.inj resolved
      exact .whole (Bindings.get?_eq_some_iff.mp bound)
    · next free =>
      have free := Bindings.get?_eq_none_iff.mp free
      split at resolved
      · next value base search =>
        obtain rfl := Option.some.inj resolved
        obtain ⟨first, field, path, start, rfl, parts, rfl, bound, leads⟩ :=
          fieldOf?_eq_some_iff.mp search
        exact .field free parts bound (Bindings.leads_iff.mpr leads)
      · nomatch resolved
      · nomatch resolved
  · intro stands
    -- the whole name takes precedence, so for a field it must not be bound
    cases stands with
    | whole bound => rw [Bindings.get?_eq_some_iff.mpr bound]
    | field free parts bound leads =>
      have search := fieldOf?_eq_some_iff.mpr
        ⟨_, _, _, _, rfl, parts, rfl, bound, Bindings.leads_iff.mp leads⟩
      rw [Bindings.get?_eq_none_iff.mpr free, search]

theorem resolve_eq_none_iff : (resolve b usage name).1 = none ↔ ∀ v, ¬ b.StandsFor name v := by
  simp only [← @resolve_eq_some_iff b usage name, Option.eq_none_iff_forall_ne_some, ne_eq]

/-- A name stands for one value at most. -/
theorem standsFor_unique {w : Value} (first : b.StandsFor name v) (second : b.StandsFor name w) : v = w := by
  have found := (@resolve_eq_some_iff b .none name v).mpr first
  rw [resolve_eq_some_iff.mpr second] at found
  exact (Option.some.inj found).symm

/-- Either a name stands for a value and is resolved to it, or it stands for nothing. -/
theorem resolve_cases (b : Bindings) (usage : Usage) (name : List Char) :
    (∃ v after, resolve b usage name = (some v, after) ∧ b.StandsFor name v) ∨
      ∃ after, resolve b usage name = (none, after) ∧ ∀ v, ¬ b.StandsFor name v := by
  rcases resolved : resolve b usage name with ⟨_ | v, after⟩
  · exact .inr ⟨after, rfl, (@resolve_eq_none_iff b usage name).mp (by rw [resolved])⟩
  · exact .inl ⟨v, after, rfl, (@resolve_eq_some_iff b usage name v).mp (by rw [resolved])⟩

/-- Just the names that stand for nothing are noted as missing. -/
theorem resolve_missing :
    (resolve b usage name).2.missing =
      match (resolve b usage name).1 with
      | some _ => usage.missing
      | none => usage.missing.add (String.ofList name) := by
  unfold resolve
  dsimp only
  cases b.get? (String.ofList name) with
  | some value => rfl
  | none =>
    match fieldOf? b name with
    | some (some value, base) => rfl
    | some (none, base) => rfl
    | none => rfl

end Interpolation
end DeployManifest
