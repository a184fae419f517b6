import DeployManifest.Proofs.ImplicitValues
import DeployManifest.Proofs.SecretNames

/-!
# Keys of secrets and how they are listed

A key of a secret is listed under the name of the secret, with the key behind it unless it is the default
one.  The name of a secret has no slash, so what is listed says which key is meant (`SecretKey.listed_inj`).

The keys are listed variable by variable.  Several variables may be read from the same key, for which there
are many ways: `a` and `a/value` choose the default key with and without saying so, and `a_b` and `a-b`
stand for the same secret.  Such a key is listed once for each of its variables
(`not_forall_nodup_secretKeys`).

Main statement: `secretKeys_perm_listed`.

- `SecretRefs.readKeys`: the keys that groups stand for, one for each variable.
- `SecretKey.listed_inj`: what is listed says which key is meant.
- `nodup_keys_iff`: when no key is listed twice.
-/

namespace DeployManifest

/-! ## Keys as they are listed -/

namespace SecretKey

/-- The name of a secret has no slash. -/
theorem slash_not_mem_of_ofVariable {name : String} {k : SecretKey} (found : ofVariable name = .ok k) :
    '/' ∉ k.secret.toList := by
  unfold ofVariable at found
  split at found
  · split at found
    · nomatch found
    · obtain rfl := Except.ok.inj found
      exact SecretName.slash_not_mem_ofVariable _
  · obtain rfl := Except.ok.inj found
    exact SecretName.slash_not_mem_ofVariable _

/-- A listed key can be told from all others. -/
theorem listed_inj {a b : SecretKey} (clean : '/' ∉ a.secret.toList) (clean' : '/' ∉ b.secret.toList)
    (same : a.listed = b.listed) : a = b := by
  obtain ⟨secret, key⟩ := a
  obtain ⟨secret', key'⟩ := b
  have lists : (listed ⟨secret, key⟩).toList = (listed ⟨secret', key'⟩).toList := by rw [same]
  unfold listed at lists
  dsimp only at lists clean clean'
  -- there is a slash just if the key is not the default one, and the secret has none of its own
  by_cases default : key = defaultKey <;> by_cases default' : key' = defaultKey
  · rw [if_pos (by simp [default]), if_pos (by simp [default'])] at lists
    rw [String.toList_inj.mp lists, default, default']
  · rw [if_pos (by simp [default]), if_neg (by simp [default'])] at lists
    exact absurd (by simp [lists]) clean
  · rw [if_neg (by simp [default]), if_pos (by simp [default'])] at lists
    exact absurd (by simp [← lists]) clean'
  · rw [if_neg (by simp [default]), if_neg (by simp [default'])] at lists
    have whole : secret.toList ++ '/' :: key.toList = secret'.toList ++ '/' :: key'.toList := by
      simpa using lists
    have split : Text.splitOnce? '/' (secret.toList ++ '/' :: key.toList) =
        some (secret.toList, key.toList) := Text.splitOnce?_eq_some_iff.mpr ⟨rfl, clean⟩
    have split' : Text.splitOnce? '/' (secret'.toList ++ '/' :: key'.toList) =
        some (secret'.toList, key'.toList) := Text.splitOnce?_eq_some_iff.mpr ⟨rfl, clean'⟩
    rw [whole, split'] at split
    obtain ⟨rfl, rfl⟩ : secret' = secret ∧ key' = key := by
      simpa [String.toList_inj] using split
    rfl

end SecretKey

/-! ## Keys that are read -/

namespace SecretRefs

variable {refs : SecretRefs} {names : List String} {keys : List SecretKey}

/-- The keys that variables are read from, in the order in which they are read. -/
def readKeys (refs : SecretRefs) : List SecretKey := refs.all.map fun (secret, ref) => ⟨secret, ref.key⟩

/-- The keys are listed in the order in which they are read. -/
theorem secretKeys_eq (refs : SecretRefs) :
    refs.secretKeys = refs.readKeys.map SecretKey.listed := by
  unfold secretKeys readKeys all
  simp only [List.map_flatMap, List.map_map]
  rfl

theorem mem_readKeys {group : String × List SecretRef} {ref : SecretRef}
    (there : group ∈ refs.entries) (mem : ref ∈ group.2) : ⟨group.1, ref.key⟩ ∈ refs.readKeys :=
  List.mem_map.mpr ⟨(group.1, ref), mem_all.mpr ⟨group.2, there, mem⟩, rfl⟩

theorem Collects.slash_not_mem (collects : refs.Collects names) {k : SecretKey} (mem : k ∈ refs.readKeys) :
    '/' ∉ k.secret.toList := by
  obtain ⟨p, there, rfl⟩ := List.mem_map.mp mem
  exact SecretKey.slash_not_mem_of_ofVariable (collects.keyed p there)

/-- All variables have keys. -/
theorem Collects.exists_keys (collects : refs.Collects names) :
    ∃ keys, names.mapM SecretKey.ofVariable = .ok keys := by
  refine exists_mapM_eq_ok_iff.mpr fun name mem => ?_
  obtain ⟨group, there, ref, in_group, rfl⟩ := collects.exists_mem mem
  exact ⟨_, (collects.of_mem there in_group).2⟩

/-- What is read are the keys of the variables, each as often as it is the key of one. -/
theorem Collects.perm_readKeys (collects : refs.Collects names)
    (classified : names.mapM SecretKey.ofVariable = .ok keys) : refs.readKeys.Perm keys := by
  have here : List.Forall₂ (fun name k => SecretKey.ofVariable name = .ok k)
      (refs.all.map fun p => p.2.name) refs.readKeys := by
    unfold readKeys
    rw [List.forall₂_map_left_iff, List.forall₂_map_right_iff, List.forall₂_same]
    exact collects.keyed
  -- the groups hold the variables in another order, and the keys change places with them
  obtain ⟨others, there, perm⟩ := List.perm_comp_forall₂ collects.whole (mapM_eq_ok_iff.mp classified)
  obtain rfl : others = refs.readKeys :=
    Except.ok.inj ((mapM_eq_ok_iff.mpr there).symm.trans (mapM_eq_ok_iff.mpr here))
  exact perm

/-! ## Keys that are listed more than once -/

/-- The keys differ just if no two variables have the same one. -/
theorem nodup_keys_iff (distinct : names.Nodup) (classified : names.mapM SecretKey.ofVariable = .ok keys) :
    keys.Nodup ↔ ∀ a ∈ names, ∀ b ∈ names, SecretKey.ofVariable a = SecretKey.ofVariable b → a = b := by
  have same : names.map SecretKey.ofVariable = keys.map .ok := by
    rw [← List.forall₂_eq_eq_eq, List.forall₂_map_left_iff, List.forall₂_map_right_iff]
    exact mapM_eq_ok_iff.mp classified
  rw [← List.nodup_map_iff_inj_on distinct, same]
  exact (List.nodup_map_iff fun _ _ => Except.ok.inj).symm

/-- There is one entry for each variable, which says which key the variable is read from.  So a key is
    listed as often as there are variables with this key, and no entry is there twice just if no two of the
    variables have the same key. -/
theorem secretKeys_perm_listed (grouped : ofVariables names = .ok refs) :
    ∃ keys, names.mapM SecretKey.ofVariable = .ok keys ∧
      refs.secretKeys.Perm (keys.map SecretKey.listed) ∧
      (∀ a ∈ keys, ∀ b ∈ keys, a.listed = b.listed → a = b) ∧
      (∀ k ∈ keys, refs.secretKeys.count k.listed = keys.count k) ∧
      (names.Nodup → (refs.secretKeys.Nodup ↔
        ∀ a ∈ names, ∀ b ∈ names, SecretKey.ofVariable a = SecretKey.ofVariable b → a = b)) := by
  have collects := collects_ofVariables grouped
  obtain ⟨keys, classified⟩ := collects.exists_keys
  have read := collects.perm_readKeys classified
  have perm : refs.secretKeys.Perm (keys.map SecretKey.listed) := by
    rw [secretKeys_eq]
    exact read.map _
  -- a text that is listed tells the key, as names of secrets have no slashes
  have told : ∀ a ∈ keys, ∀ b ∈ keys, a.listed = b.listed → a = b := by
    intro a mem_a b mem_b same
    have clean := collects.slash_not_mem (read.mem_iff.mpr mem_a)
    have clean' := collects.slash_not_mem (read.mem_iff.mpr mem_b)
    exact SecretKey.listed_inj clean clean' same
  refine ⟨keys, classified, perm, told, fun k mem => ?_, fun distinct => ?_⟩
  · rw [perm.count_eq, List.count, List.countP_map, List.count]
    refine List.countP_congr fun a mem_a => ?_
    show (a.listed == k.listed) = true ↔ (a == k) = true
    rw [beq_iff_eq, beq_iff_eq]
    exact ⟨told a mem_a k mem, congrArg SecretKey.listed⟩
  · rw [perm.nodup_iff, ← nodup_keys_iff distinct classified]
    exact ⟨List.Nodup.of_map _, List.Nodup.map_on told⟩

/-- Two variables with one key, and one with another key. -/
def coincidingNames : List String := ["a", "a/value", "b/cert"]

/-- What the names are grouped into: two of them share a key. -/
def coincidingRefs : SecretRefs := .ofList [
  ("var-a", [⟨"value", "a"⟩, ⟨"value", "a/value"⟩]), ("var-b", [⟨"cert", "b/cert"⟩])]

theorem ofVariables_coinciding : ofVariables coincidingNames = .ok coincidingRefs := by decide +kernel

/-- The shared key is listed twice, though the names are different. -/
theorem secretKeys_perm_listed_coinciding :
    ofVariables coincidingNames = .ok coincidingRefs ∧
      coincidingRefs.secretKeys = ["var-a", "var-a", "var-b/cert"] ∧
      coincidingNames.Nodup ∧ SecretKey.ofVariable "a" = SecretKey.ofVariable "a/value" ∧
      ¬ coincidingRefs.secretKeys.Nodup := by
  have distinct : coincidingNames.Nodup := by decide
  have same : SecretKey.ofVariable "a" = SecretKey.ofVariable "a/value" := by decide +kernel
  obtain ⟨keys, -, -, -, -, once⟩ := secretKeys_perm_listed ofVariables_coinciding
  refine ⟨ofVariables_coinciding, by decide +kernel, distinct, same, fun nodup => ?_⟩
  exact absurd ((once distinct).mp nodup "a" (by decide) "a/value" (by decide) same) (by decide)

/-- A key may be listed twice. -/
theorem not_forall_nodup_secretKeys :
    ¬ ∀ (names : NameSet) (refs : SecretRefs), ofVariables names.toList = .ok refs →
      refs.secretKeys.Nodup := by
  intro all
  have nodup := all (.ofNames coincidingNames) coincidingRefs (by decide +kernel)
  exact absurd nodup (by decide +kernel)

end SecretRefs
end DeployManifest
