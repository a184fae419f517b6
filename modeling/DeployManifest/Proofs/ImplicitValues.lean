import DeployManifest.Deployment.Resolver
import DeployManifest.Proofs.Outcome
import DeployManifest.Proofs.Resolution
import DeployManifest.Proofs.TableLaws

/-!
# The values of implicit variables

An implicit variable is read from one key of one secret, which its name gives unless it has two slashes
or more (`SecretKey.exists_error_iff`).  `SecretRefs.ofVariables` groups variables by their secrets, and
`Resolver.implicitBindings` reads one secret after another.

`SecretRefs.Collects` says that groups hold some variables and nothing else, each of them in the group
of its secret.  `World.Backs` says what value the secrets give to a variable, without groups.

Main statement: `implicitBindings_spec`.

- `SecretKey.ofVariable`, `ofVariable_of_slash`: the key that a name gives.
- `SecretRefs.Collects`, `collects_ofVariables`: groups of variables.
- `StoredSecret.Gives`, `World.Backs`: what the secrets give.
- `mem_bindings_iff`, `get?_implicitBindings`: what is bound in the end.
-/

namespace DeployManifest

open Yaml (Value)

/-! ## The key of a variable -/

namespace SecretKey

/-- A name with a slash gives the secret in front of it and the key behind it, unless there is another
    slash. -/
theorem ofVariable_of_slash {name : String} {before after : List Char}
    (split : name.toList = before ++ '/' :: after) (clean : '/' ∉ before) :
    ofVariable name =
      if after.contains '/' then .error (.tooManySeparators name (name.toList.count '/'))
      else .ok ⟨SecretName.ofVariable (String.ofList before), String.ofList after⟩ := by
  have found := Text.splitOnce?_eq_some_iff.mpr ⟨split, clean⟩
  simp only [ofVariable, found]

/-- A name without a slash gives the secret of this name and the default key. -/
theorem ofVariable_of_no_slash {name : String} (clean : '/' ∉ name.toList) :
    ofVariable name = .ok ⟨SecretName.ofVariable name, defaultKey⟩ := by
  unfold ofVariable
  split
  · next before after found =>
    obtain ⟨split, -⟩ := Text.splitOnce?_eq_some_iff.mp found
    exact absurd (by simp [split]) clean
  · rfl

/-- Only names with two slashes or more have no key. -/
theorem exists_error_iff {name : String} :
    (∃ e, ofVariable name = .error e) ↔ 2 ≤ name.toList.count '/' := by
  by_cases slash : '/' ∈ name.toList
  -- the name is split at the first slash, so another one is left behind it
  · obtain ⟨before, after, split, clean⟩ := List.eq_append_cons_of_mem slash
    have count : name.toList.count '/' = 1 + after.count '/' := by
      rw [split, List.count_append, List.count_eq_zero_of_not_mem clean, List.count_cons_self]
      omega
    have later : after.contains '/' = true ↔ 0 < after.count '/' := by simp
    rw [ofVariable_of_slash split clean, count]
    split
    · next more => exact ⟨fun _ => by have := later.mp more; omega, fun _ => ⟨_, rfl⟩⟩
    · next none_later =>
      refine ⟨nofun, fun two => absurd (later.mpr (by omega)) none_later⟩
  · rw [ofVariable_of_no_slash slash, List.count_eq_zero_of_not_mem slash]
    exact ⟨nofun, nofun⟩

end SecretKey

/-! ## Variables by their secrets -/

namespace SecretRefs

variable {refs last : SecretRefs} {names before : List String}

/-- All variables, each with the secret that it is read from. -/
def all (refs : SecretRefs) : List (String × SecretRef) :=
  refs.entries.flatMap fun group => group.2.map fun ref => (group.1, ref)

/-- Adding a variable keeps all the others. -/
theorem perm_all_add {secret : String} {ref : SecretRef} :
    (refs.add secret ref).all.Perm ((secret, ref) :: refs.all) := by
  unfold all add
  have inserted := fun found : List SecretRef =>
    (@Table.perm_insert _ refs secret found).flatMap_right fun group => group.2.map fun ref => (group.1, ref)
  -- the reference is the first of its secret, or joins the others
  cases bound : refs.get? secret with
  | none =>
    refine (inserted _).trans ?_
    rw [Table.entries_remove_of_free bound]
    exact .refl _
  | some found =>
    have there := (Table.perm_remove_of_get? bound).flatMap_right
      fun group => group.2.map fun ref => (group.1, ref)
    refine (inserted _).trans ((List.Perm.trans ?_ (there.symm.cons _)))
    simp only [List.flatMap_cons, Option.getD_some, List.map_append, List.map_cons, List.map_nil,
      List.append_assoc, List.singleton_append]
    exact List.perm_middle

/-- Whether groups hold the given variables, each of them once in the group of its secret, and nothing
    else. -/
structure Collects (refs : SecretRefs) (names : List String) : Prop where
  whole : (refs.all.map fun p => p.2.name).Perm names
  keyed : ∀ p ∈ refs.all, SecretKey.ofVariable p.2.name = .ok ⟨p.1, p.2.key⟩
  nonempty : ∀ group ∈ refs.entries, group.2 ≠ []

theorem collects_empty : Collects .empty [] := ⟨.refl _, nofun, nofun⟩

/-- One more variable goes into the group of its secret. -/
theorem Collects.add {name : String} {found : SecretKey} (collects : refs.Collects before)
    (key : SecretKey.ofVariable name = .ok found) :
    (refs.add found.secret ⟨found.key, name⟩).Collects (name :: before) where
  whole := (perm_all_add.map _).trans (collects.whole.cons name)
  keyed := by
    intro p mem
    rcases List.mem_cons.mp (perm_all_add.mem_iff.mp mem) with rfl | there
    · exact key
    · exact collects.keyed p there
  nonempty := by
    intro group mem
    rcases Table.mem_insertEntry mem with rfl | there
    · exact List.append_ne_nil_of_right_ne_nil _ (List.cons_ne_nil _ _)
    · exact collects.nonempty group there

/-- Variables cannot be grouped just if one of them has no key. -/
theorem exists_addVariables_error_iff :
    (∃ e, addVariables refs names = .error e) ↔
      ∃ name ∈ names, ∃ e, SecretKey.ofVariable name = .error e := by
  induction names generalizing refs with
  | nil => simp [addVariables]
  | cons name rest ih =>
    simp only [addVariables, List.exists_mem_cons_iff]
    cases key : SecretKey.ofVariable name with
    | error e => simp
    | ok found => simp [ih]

/-- More variables go into the groups of their secrets. -/
theorem Collects.addVariables (collects : refs.Collects before)
    (added : addVariables refs names = .ok last) : last.Collects (names ++ before) := by
  induction names generalizing refs before with
  | nil =>
    obtain rfl := Except.ok.inj added
    exact collects
  | cons name rest ih =>
    simp only [SecretRefs.addVariables] at added
    split at added
    · nomatch added
    · next found key =>
      have := ih (collects.add key) added
      exact ⟨this.whole.trans List.perm_middle, this.keyed, this.nonempty⟩

/-- Grouping fails just if one of the names has no key. -/
theorem exists_ofVariables_error_iff :
    (∃ e, ofVariables names = .error e) ↔ ∃ name ∈ names, 2 ≤ name.toList.count '/' := by
  simp only [ofVariables, exists_addVariables_error_iff, SecretKey.exists_error_iff]

theorem collects_ofVariables (grouped : ofVariables names = .ok refs) : refs.Collects names := by
  simpa using collects_empty.addVariables grouped

/-- A variable is in the groups just if it is in one of them. -/
theorem mem_all {secret : String} {ref : SecretRef} :
    (secret, ref) ∈ refs.all ↔ ∃ found, (secret, found) ∈ refs.entries ∧ ref ∈ found := by
  simp only [all, List.mem_flatMap, List.mem_map, Prod.exists, Prod.mk.injEq]
  constructor
  · rintro ⟨_, found, group, _, mem, rfl, rfl⟩
    exact ⟨found, group, mem⟩
  · rintro ⟨found, group, mem⟩
    exact ⟨secret, found, group, ref, mem, rfl, rfl⟩

/-- The variables of a group are among the given ones, and have their keys in its secret. -/
theorem Collects.of_mem (collects : refs.Collects names) {group : String × List SecretRef}
    {ref : SecretRef} (there : group ∈ refs.entries) (mem : ref ∈ group.2) :
    ref.name ∈ names ∧ SecretKey.ofVariable ref.name = .ok ⟨group.1, ref.key⟩ := by
  have here : (group.1, ref) ∈ refs.all := mem_all.mpr ⟨group.2, there, mem⟩
  exact ⟨collects.whole.mem_iff.mp (List.mem_map_of_mem here), collects.keyed _ here⟩

/-- Each of the given variables is in some group. -/
theorem Collects.exists_mem (collects : refs.Collects names) {name : String} (mem : name ∈ names) :
    ∃ group ∈ refs.entries, ∃ ref ∈ group.2, ref.name = name := by
  obtain ⟨⟨secret, ref⟩, here, rfl⟩ := List.mem_map.mp (collects.whole.mem_iff.mpr mem)
  obtain ⟨found, there, in_group⟩ := mem_all.mp here
  exact ⟨(secret, found), there, ref, in_group, rfl⟩

end SecretRefs

/-- The keys of a manifest are those of its implicit variables. -/
theorem Manifest.secretRefs_eq_ok_iff {m : Manifest} {refs : SecretRefs} :
    m.secretRefs = .ok refs ↔
      ∃ names, m.implicitVariables = .ok names ∧ SecretRefs.ofVariables names.toList = .ok refs := by
  unfold secretRefs
  cases m.implicitVariables <;> simp

/-! ## The values that secrets give -/

/-- Whether a secret holds a value under a key, as a JSON text or, unless it is annotated so, as plain
    text. -/
def StoredSecret.Gives (s : StoredSecret) (key : String) (value : Value) : Prop :=
  ∃ bytes, s.data.get? key = some bytes ∧
    if s.isJsonValued then Json.read? bytes = some value
    else value = .string (Text.ofBytesLossy bytes)

/-- Whether the secrets of a namespace give a value to a variable: the one that its own key has in its
    own secret. -/
def World.Backs (world : World) (space name : String) (value : Value) : Prop :=
  ∃ found s, SecretKey.ofVariable name = .ok found ∧ world.secret space found.secret = .found s ∧
    s.Gives found.key value

/-- A secret gives one value to a key. -/
theorem StoredSecret.Gives.unique {s : StoredSecret} {key : String} {value other : Value}
    (gives : s.Gives key value) (gives' : s.Gives key other) : value = other := by
  obtain ⟨bytes, there, value_eq⟩ := gives
  obtain ⟨bytes', there', other_eq⟩ := gives'
  obtain rfl := Option.some.inj (there.symm.trans there')
  split at value_eq
  · next json =>
    rw [if_pos json] at other_eq
    exact Option.some.inj (value_eq.symm.trans other_eq)
  · next plain =>
    rw [if_neg plain] at other_eq
    exact value_eq.trans other_eq.symm

/-- The secrets give one value to a variable. -/
theorem World.Backs.unique {world : World} {space name : String} {value other : Value}
    (backs : world.Backs space name value) (backs' : world.Backs space name other) : value = other := by
  obtain ⟨found, s, key, stored, gives⟩ := backs
  obtain ⟨found', s', key', stored', gives'⟩ := backs'
  obtain rfl := Except.ok.inj (key.symm.trans key')
  obtain rfl := Lookup.found.inj (stored.symm.trans stored')
  exact gives.unique gives'

namespace Resolver

variable {r : Resolver} {space : String} {refs : SecretRefs} {names : List String}
  {group : String × List SecretRef} {table : Table Value}

theorem readSecret_eq_ok_iff {name : String} {s : StoredSecret} :
    r.readSecret space name = .ok s ↔ r.world.secret space name = .found s := by
  unfold readSecret World.readSecret
  cases r.world.secret space name <;> simp

/-- A value is read just if the secret gives it to the key. -/
theorem implicitValue_eq_ok_iff {secret : String} {s : StoredSecret} {ref : SecretRef} {value : Value} :
    implicitValue secret s ref = .ok value ↔ s.Gives ref.key value := by
  unfold implicitValue StoredSecret.Gives
  cases s.data.get? ref.key with
  | none => simp
  | some bytes =>
    by_cases json : s.isJsonValued = true
    · cases read : Json.read? bytes <;> simp [json, read]
    · simp [json, eq_comm]

/-- The bindings of a group are those that its secret gives to each of its variables. -/
theorem secretBindings_eq_ok_iff {pairs : List (String × Value)} :
    r.secretBindings space group = .ok pairs ↔
      ∃ s, r.world.secret space group.1 = .found s ∧
        List.Forall₂ (fun ref pair => ∃ value, s.Gives ref.key value ∧ (ref.name, value) = pair)
          group.2 pairs := by
  simp only [secretBindings, bind_eq_ok, readSecret_eq_ok_iff, mapM_eq_ok_iff, map_eq_ok,
    implicitValue_eq_ok_iff]

/-- A group can be read just if its secret is there and gives a value to each of its keys. -/
theorem exists_secretBindings_iff :
    (∃ pairs, r.secretBindings space group = .ok pairs) ↔
      ∃ s, r.world.secret space group.1 = .found s ∧
        ∀ ref ∈ group.2, ∃ value, s.Gives ref.key value := by
  simp only [secretBindings, bind_eq_ok, readSecret_eq_ok_iff]
  rw [exists_comm]
  simp only [exists_mapM_eq_ok_iff, map_eq_ok, implicitValue_eq_ok_iff,
    exists_comm (α := String × Value), exists_and_left, exists_eq', and_true]

/-- All bindings can be read if every variable has a value.  A group holds at least one variable, whose
    value says that the secret of the group is there. -/
theorem exists_implicitBindings_iff (collects : refs.Collects names) :
    (∃ table, r.implicitBindings space refs = .ok table) ↔
      ∀ name ∈ names, ∃ value, r.world.Backs space name value := by
  have read : (∃ table, r.implicitBindings space refs = .ok table) ↔
      ∀ group ∈ refs.entries, ∃ pairs, r.secretBindings space group = .ok pairs := by
    simp only [implicitBindings, map_eq_ok, ← exists_mapM_eq_ok_iff]
    exact ⟨fun ⟨_, found, all, _⟩ => ⟨found, all⟩, fun ⟨found, all⟩ => ⟨_, found, all, rfl⟩⟩
  simp only [read, exists_secretBindings_iff]
  constructor
  · intro all name mem
    obtain ⟨group, there, ref, in_group, rfl⟩ := collects.exists_mem mem
    obtain ⟨-, key⟩ := collects.of_mem there in_group
    obtain ⟨s, found, gives⟩ := all group there
    obtain ⟨value, gives⟩ := gives ref in_group
    exact ⟨value, _, s, key, found, gives⟩
  · intro all group there
    have backed : ∀ ref ∈ group.2, ∃ s, r.world.secret space group.1 = .found s ∧
        ∃ value, s.Gives ref.key value := by
      intro ref in_group
      obtain ⟨mem, key⟩ := collects.of_mem there in_group
      obtain ⟨value, found, s, key', stored, gives⟩ := all ref.name mem
      obtain rfl := Except.ok.inj (key.symm.trans key')
      exact ⟨s, stored, value, gives⟩
    -- no group is empty, so there is a variable that shows the secret to be there
    obtain ⟨first, in_group⟩ := List.exists_mem_of_ne_nil _ (collects.nonempty group there)
    obtain ⟨s, stored, -⟩ := backed first in_group
    refine ⟨s, stored, fun ref mem => ?_⟩
    obtain ⟨s', stored', gives⟩ := backed ref mem
    obtain rfl := Lookup.found.inj (stored.symm.trans stored')
    exact gives

/-- What is read for a list of groups are bindings of the variables, each to its value. -/
theorem mem_bindings_iff (collects : refs.Collects names) {found : List (List (String × Value))}
    (all : List.Forall₂ (fun group pairs => r.secretBindings space group = .ok pairs) refs.entries found) :
    (∀ pair ∈ found.flatten, pair.1 ∈ names ∧ r.world.Backs space pair.1 pair.2) ∧
      ∀ name ∈ names, name ∈ found.flatten.map (·.1) := by
  constructor
  · intro pair mem
    obtain ⟨pairs, read, in_pairs⟩ := List.mem_flatten.mp mem
    obtain ⟨group, there, bindings⟩ := exists_of_mem_right all read
    obtain ⟨s, stored, values⟩ := secretBindings_eq_ok_iff.mp bindings
    obtain ⟨ref, in_group, value, gives, rfl⟩ := exists_of_mem_right values in_pairs
    obtain ⟨mem, key⟩ := collects.of_mem there in_group
    exact ⟨mem, _, s, key, stored, gives⟩
  · intro name mem
    obtain ⟨group, there, ref, in_group, rfl⟩ := collects.exists_mem mem
    obtain ⟨pairs, read, bindings⟩ := exists_of_mem_left all there
    obtain ⟨s, stored, values⟩ := secretBindings_eq_ok_iff.mp bindings
    -- each reference of a group is read, in order
    obtain ⟨_, in_pairs, value, gives, rfl⟩ := exists_of_mem_left values in_group
    exact List.mem_map_of_mem (f := (·.1)) (List.mem_flatten.mpr ⟨pairs, read, in_pairs⟩)

/-- The table that is read binds a name to a value if it is that of the variable of this name. -/
theorem get?_implicitBindings (collects : refs.Collects names)
    (read : r.implicitBindings space refs = .ok table) (name : String) (value : Value) :
    table.get? name = some value ↔ name ∈ names ∧ r.world.Backs space name value := by
  obtain ⟨found, all, rfl⟩ := map_eq_ok.mp read
  obtain ⟨only, every⟩ := mem_bindings_iff collects (mapM_eq_ok_iff.mp all)
  have bound : ∀ {value}, (Table.ofList found.flatten).get? name = some value →
      name ∈ names ∧ r.world.Backs space name value := fun bound =>
    only _ (Table.mem_of_mem_ofList (Table.mem_entries_of_get? bound))
  refine ⟨bound, fun ⟨mem, backs⟩ => ?_⟩
  -- a name may be bound more than once on the way, but always to the same value
  obtain ⟨other, other_bound⟩ : ∃ other, (Table.ofList found.flatten).get? name = some other :=
    Table.exists_get?_of_mem_keys (Table.mem_keys_insertAll.mpr (.inr (every name mem)))
  rw [other_bound, (bound other_bound).2.unique backs]

/-- Variables can be grouped by their secrets unless one of them has two slashes or more, and then the
    groups divide them up.  Their values can be read if each of them has one, and then the table binds
    just these variables, each to the value of its own key in its own secret, whatever other variables
    are read from that secret. -/
theorem implicitBindings_spec (r : Resolver) (space : String) (names : NameSet) :
    ((∃ e, SecretRefs.ofVariables names.toList = .error e) ↔
      ∃ name ∈ names.toList, 2 ≤ name.toList.count '/') ∧
    ∀ refs, SecretRefs.ofVariables names.toList = .ok refs →
      refs.Collects names.toList ∧
      ((∃ table, r.implicitBindings space refs = .ok table) ↔
        ∀ name ∈ names.toList, ∃ value, r.world.Backs space name value) ∧
      ∀ table, r.implicitBindings space refs = .ok table → ∀ name value,
        table.get? name = some value ↔ name ∈ names.toList ∧ r.world.Backs space name value := by
  refine ⟨SecretRefs.exists_ofVariables_error_iff, fun refs grouped => ?_⟩
  have collects : refs.Collects names.toList := SecretRefs.collects_ofVariables grouped
  exact ⟨collects, exists_implicitBindings_iff collects, fun table => get?_implicitBindings collects⟩

/-- Two variables of the secret `var-ca`, and two that are the same key of a secret of JSON texts. -/
def sharingNames : NameSet := .ofNames ["ca/certificate", "ca/private_key", "port", "port/value"]

/-- A resolver in a world with two secrets, one of which holds JSON. -/
def sharingResolver : Resolver where
  world := {
    configMap := fun _ _ => .absent
    secret := fun _ name =>
      if name == "var-ca" then
        .found ⟨.ofList [("certificate", [0x63]), ("private_key", [0x37])], .empty⟩
      else if name == "var-port" then
        .found ⟨.single "value" [0x38, 0x30], .single StoredSecret.jsonAnnotation "true"⟩
      else .absent
    page := fun _ => none }
  detailedOpsEvaluation := false
  expectAllExplicitKeys := false

/-- Groups in which two variables share a secret, and two others a key. -/
def sharingRefs : SecretRefs := .ofList [
  ("var-ca", [⟨"certificate", "ca/certificate"⟩, ⟨"private_key", "ca/private_key"⟩]),
  ("var-port", [⟨"value", "port"⟩, ⟨"value", "port/value"⟩])]

/-- The values of the first secret stay texts, those of the second one are numbers. -/
def sharingTable : Table Value := .ofList [
  ("ca/certificate", .string "c"), ("ca/private_key", .string "7"),
  ("port", .int 80), ("port/value", .int 80)]

/-- Each of the four variables has the value that its secret gives to it. -/
theorem implicitBindings_spec_sharing :
    SecretRefs.ofVariables sharingNames.toList = .ok sharingRefs ∧
      sharingResolver.implicitBindings "cf" sharingRefs = .ok sharingTable ∧
      sharingRefs.Collects sharingNames.toList ∧
      (∀ name ∈ sharingNames.toList, ∃ value, sharingResolver.world.Backs "cf" name value) ∧
      sharingResolver.world.Backs "cf" "ca/private_key" (.string "7") ∧
      sharingResolver.world.Backs "cf" "port/value" (.int 80) := by
  have grouped : SecretRefs.ofVariables sharingNames.toList = .ok sharingRefs := rfl
  have read : sharingResolver.implicitBindings "cf" sharingRefs = .ok sharingTable := rfl
  obtain ⟨collects, readable, bound⟩ :=
    (implicitBindings_spec sharingResolver "cf" sharingNames).2 sharingRefs grouped
  exact ⟨grouped, read, collects, readable.mp ⟨_, read⟩, ((bound _ read _ _).mp rfl).2,
    ((bound _ read _ _).mp rfl).2⟩

end Resolver
end DeployManifest
