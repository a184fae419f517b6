import DeployManifest.Manifest.Basic
import DeployManifest.Proofs.SchedulingRoundTrip

/-!
# Manifests read back

What is written of a manifest reads back as the same manifest, provided that it was read from some
document.  The proviso matters for the properties of jobs only: they are written among fields with a
meaning of their own, so they must not be called like those, nor hold tags.  Reading sees to both
(`JobProperties.areFlat_of_ofView?`), and with that every record reads back from the inside outwards.

Main statement: `Manifest.ofView?_toValue_of_parse`.

- `JobProperties.AreFlat`, `Manifest.JobsAreFlat`: properties that can stand beside the block for the
  operator.
- `Job.recovers`, `InstanceGroup.recovers`, `Addon.recovers`, `Manifest.recovers`: the records with jobs in
  them.
-/

namespace DeployManifest

open Yaml

attribute [local simp] Fields.withDefault?_eq_sole? Fields.required?_eq_sole?
  Fields.optional?_eq_sole? Fields.all_written Written.places_always Written.places_whenPresent
  Written.places_whenSet Written.places_unlessBlank Written.places_unlessEmpty
  Written.places_unlessEmptyTable Written.places_unlessEmptyRecord Written.sole?_always
  Written.sole?_whenPresent Written.sole?_whenSet Written.sole?_unlessBlank
  Written.sole?_unlessEmpty Written.sole?_texts Written.sole?_values Written.whenPresent_eq_none
  Written.whenSet_eq_none Written.unlessEmpty_eq_none Written.unlessEmptyTable_eq_none
  Written.unlessEmptyRecord_eq_none Written.inlined_eq_none
  recovers_string recovers_bool recovers_int32 recovers_int64 recovers_list recovers_texts

/-! ## Jobs -/

/-- The properties of a job are kept apart from the fields with a meaning of their own. -/
structure JobProperties.AreFlat (p : JobProperties) : Prop where
  settings : IsFlat "is_addon" p.operator.settings
  properties : IsFlat "quarks" p.properties

theorem JobProperties.areFlat_empty : AreFlat .empty := ⟨.empty _, .empty _⟩

/-- What was read as settings for the operator is flat. -/
theorem OperatorProperties.isFlat_of_ofView? {view : View} {p : OperatorProperties}
    (read : ofView? view = some p) : IsFlat "is_addon" p.settings := by
  simp only [ofView?, Option.bind_eq_bind, Option.bind_eq_some_iff, Option.pure_def,
    Option.some.injEq] at read
  obtain ⟨fields, -, isAddon, -, settings, others, rfl⟩ := read
  exact isFlat_of_others? others

/-- What was read as properties is flat. -/
theorem JobProperties.areFlat_of_ofView? {view : View} {p : JobProperties}
    (read : ofView? view = some p) : p.AreFlat := by
  simp only [ofView?, Option.bind_eq_bind, Option.bind_eq_some_iff, Option.pure_def,
    Option.some.injEq] at read
  obtain ⟨fields, -, operator, operator_found, properties, others, rfl⟩ := read
  refine ⟨?_, isFlat_of_others? others⟩
  rcases exists_of_withDefault? operator_found with rfl | ⟨view, operator_read⟩
  · exact .empty _
  · exact OperatorProperties.isFlat_of_ofView? operator_read

/-- Whoever reads a job keeps its properties apart. -/
theorem Job.areFlat_of_ofView? {view : View} {j : Job} (read : ofView? view = some j) :
    j.properties.AreFlat := by
  simp only [ofView?, Option.bind_eq_bind, Option.bind_eq_some_iff, Option.pure_def,
    Option.some.injEq] at read
  obtain ⟨fields, -, name, -, release, -, consumes, -, provides, -, properties, found, rfl⟩ := read
  rcases exists_of_withDefault? found with rfl | ⟨view, properties_read⟩
  · exact JobProperties.areFlat_empty
  · exact JobProperties.areFlat_of_ofView? properties_read

theorem OperatorProperties.recovers {p : OperatorProperties} (flat : IsFlat "is_addon" p.settings) :
    Recovers ofView? (fun p => .record p.fields) p := by
  have others := flat.others?_written (@Written.isCalled_whenSet "is_addon" p.isAddon)
  exact recovers_record (by simp [OperatorProperties.fields, others, flat.flatMap_places])

/-- A block that is left out holds nothing. -/
theorem OperatorProperties.eq_empty {p : OperatorProperties} (absent : ∀ w ∈ p.fields, w = none) :
    .empty = p := by
  obtain ⟨isAddon, settings⟩ := p
  have ⟨unset, none_inlined⟩ :
      isAddon = false ∧ ∀ w ∈ Written.inlined id settings, w = none := by
    simpa [OperatorProperties.fields] using absent
  rw [unset, Written.inlined_eq_none.mp none_inlined]
  rfl

/-- Properties read back. -/
theorem JobProperties.recovers {p : JobProperties} (flat : p.AreFlat) :
    Recovers ofView? (fun p => .record p.fields) p := by
  have block := OperatorProperties.recovers flat.settings
  have others := flat.properties.others?_written
    (@Written.isCalled_unlessEmptyRecord "quarks" p.operator.fields)
  exact recovers_record (by
    simp [JobProperties.fields, others, flat.properties.flatMap_places,
      Written.sole?_unlessEmptyRecord block OperatorProperties.eq_empty])

/-- Properties of which nothing is written are none. -/
theorem JobProperties.eq_empty {p : JobProperties} (absent : ∀ w ∈ p.fields, w = none) :
    .empty = p := by
  obtain ⟨operator, properties⟩ := p
  have ⟨no_block, none_inlined⟩ :
      (∀ w ∈ operator.fields, w = none) ∧ ∀ w ∈ Written.inlined id properties, w = none := by
    simpa [JobProperties.fields] using absent
  rw [← OperatorProperties.eq_empty no_block, Written.inlined_eq_none.mp none_inlined]
  rfl

theorem Job.recovers {j : Job} (flat : j.properties.AreFlat) : Recovers ofView? toValue j := by
  have properties := JobProperties.recovers flat
  exact recovers_record (by
    simp [Written.sole?_unlessEmptyRecord properties JobProperties.eq_empty])

/-! ## The surroundings of instances -/

theorem PodSettings.recovers (s : PodSettings) : Recovers ofView? (fun s => .record s.fields) s :=
  recovers_record (by
    simp [fields, Affinity.recovers, ObjectReference.recovers, Toleration.recovers])

theorem PodSettings.eq_empty {s : PodSettings} (absent : ∀ w ∈ s.fields, w = none) :
    .empty = s := by
  cases s
  simp_all [fields, empty]

theorem Agent.recovers (a : Agent) : Recovers ofView? (fun a => .record a.fields) a :=
  recovers_record (by
    simp [fields, Written.sole?_unlessEmptyRecord a.settings.recovers PodSettings.eq_empty])

theorem Agent.eq_empty {a : Agent} (absent : ∀ w ∈ a.fields, w = none) : .empty = a := by
  have same := PodSettings.eq_empty (by simpa [fields] using absent)
  exact congrArg Agent.mk same

theorem JobDir.recovers (d : JobDir) : Recovers ofView? toValue d :=
  recovers_record (by simp)

theorem Ipv6.recovers (i : Ipv6) : Recovers ofView? (fun i => .record i.fields) i :=
  recovers_record (by simp [fields])

theorem Ipv6.eq_disabled {i : Ipv6} (absent : ∀ w ∈ i.fields, w = none) : ⟨false⟩ = i := by
  cases i
  simpa [fields] using absent

/-- Machines read back. -/
theorem Machine.recovers (m : Machine) : Recovers ofView? (fun m => .record m.fields) m :=
  recovers_record (by
    simp [fields, JobDir.recovers,
      Written.sole?_unlessEmptyRecord m.ipv6.recovers Ipv6.eq_disabled,
      Written.sole?_unlessEmptyRecord m.agent.recovers Agent.eq_empty])

/-- A machine of which nothing is written is empty. -/
theorem Machine.eq_empty {m : Machine} (absent : ∀ w ∈ m.fields, w = none) : .empty = m := by
  have no_ipv6 : Written.unlessEmptyRecord "ipv6" m.ipv6.fields = none :=
    absent _ (by simp [fields])
  have no_agent : Written.unlessEmptyRecord "agent" m.agent.fields = none :=
    absent _ (by simp [fields])
  have ipv6 := Ipv6.eq_disabled (Written.unlessEmptyRecord_eq_none.mp no_ipv6)
  have agent := Agent.eq_empty (Written.unlessEmptyRecord_eq_none.mp no_agent)
  cases m
  simp_all [fields, empty]

theorem Env.recovers (e : Env) : Recovers ofView? (fun e => .record e.fields) e :=
  recovers_record (by
    simp [fields, Written.sole?_unlessEmptyRecord e.machine.recovers Machine.eq_empty])

/-- Surroundings of which nothing is written are empty. -/
theorem Env.eq_empty {e : Env} (absent : ∀ w ∈ e.fields, w = none) : .empty = e := by
  have no_machine : Written.unlessEmptyRecord "bosh" e.machine.fields = none :=
    absent _ (by simp [fields])
  have machine := Machine.eq_empty (Written.unlessEmptyRecord_eq_none.mp no_machine)
  cases e
  simp_all [fields, empty]

/-! ## Instance groups -/

/-- A number reads back as a number and a text as a text. -/
theorem IntOrText.recovers (x : IntOrText) : Recovers ofView? toValue x := by
  cases x with
  | text s => exact ⟨nofun, rfl⟩
  | int n =>
    have above := n.minValue_le_toInt
    have below := n.toInt_le
    refine ⟨nofun, ?_⟩
    simp only [ofView?, toValue, Value.int32, View.value?_tree, above, below, decide_true,
      Bool.and_self, if_true, Int32.ofInt_toInt]

theorem Lifecycle.recovers (l : Lifecycle) : Recovers ofView? toValue l := by
  cases l <;> exact ⟨nofun, rfl⟩

theorem Update.recovers (u : Update) : Recovers ofView? toValue u :=
  recovers_record (by simp [IntOrText.recovers])

theorem Resources.recovers (r : Resources) : Recovers ofView? toValue r :=
  recovers_record (by simp)

theorem Network.recovers (n : Network) : Recovers ofView? toValue n :=
  recovers_record (by simp)

theorem Migration.recovers (m : Migration) : Recovers ofView? toValue m :=
  recovers_record (by simp)

/-- The lifecycle of a group is the one field that is left out by a rule of its own. -/
theorem Lifecycle.places_field {l : Lifecycle} {name : String} :
    Written.places name (if l = .unspecified then none else .always "lifecycle" l.toValue) =
      if "lifecycle" = name then
        Written.here (if l = .unspecified then none else .always "lifecycle" l.toValue)
      else [] := by
  apply Written.places_of_isCalled
  unfold Written.IsCalled
  split <;> simp [Written.always]

/-- The lifecycle of a group reads back, be it written or not. -/
theorem Lifecycle.sole?_field {l : Lifecycle} :
    Fields.sole? ofView? (some .unspecified)
      (Written.here (if l = .unspecified then none else .always "lifecycle" l.toValue)) =
        some l := by
  cases l <;> rfl

/-- Groups read back. -/
theorem InstanceGroup.recovers {g : InstanceGroup} (flat : ∀ j ∈ g.jobs, j.properties.AreFlat) :
    Recovers ofView? toValue g := by
  have jobs := (recovers_list fun j hj => Job.recovers (flat j hj)).reads
  exact recovers_record (by
    simp [jobs, Resources.recovers, Network.recovers, Update.recovers, Migration.recovers,
      Lifecycle.places_field, Lifecycle.sole?_field,
      Written.sole?_unlessEmptyRecord g.env.recovers Env.eq_empty])

/-- What was read as a group has jobs with flat properties. -/
theorem InstanceGroup.areFlat_of_ofView? {view : View} {g : InstanceGroup}
    (read : ofView? view = some g) : ∀ j ∈ g.jobs, j.properties.AreFlat := by
  obtain ⟨fields, -, read⟩ := Option.bind_eq_some_iff.mp read
  iterate 3 obtain ⟨_, -, read⟩ := Option.bind_eq_some_iff.mp read
  obtain ⟨jobs, jobs_read, read⟩ := Option.bind_eq_some_iff.mp read
  iterate 12 obtain ⟨_, -, read⟩ := Option.bind_eq_some_iff.mp read
  obtain rfl := Option.some.inj read
  intro j hj
  obtain ⟨view, job_read⟩ := exists_of_withDefault?_list jobs_read hj
  exact Job.areFlat_of_ofView? job_read

/-! ## Addons -/

theorem JobName.recovers (n : JobName) : Recovers ofView? toValue n :=
  recovers_record (by simp)

theorem StemcellOs.recovers (s : StemcellOs) : Recovers ofView? toValue s :=
  recovers_record (by simp)

/-- Written rules do not use the other name of the jobs. -/
theorem PlacementRules.recovers (r : PlacementRules) : Recovers ofView? toValue r :=
  recovers_record (by
    simp [Fields.renamed_of_all_eq_nil, StemcellOs.recovers, JobName.recovers, Lifecycle.recovers])

theorem Addon.recovers {a : Addon} (flat : ∀ j ∈ a.jobs, j.properties.AreFlat) :
    Recovers ofView? toValue a := by
  have jobs := (recovers_list fun j hj => Job.recovers (flat j hj)).reads
  exact recovers_record (by simp [jobs, PlacementRules.recovers])

/-- What was read as an addon has jobs with flat properties. -/
theorem Addon.areFlat_of_ofView? {view : View} {a : Addon} (read : ofView? view = some a) :
    ∀ j ∈ a.jobs, j.properties.AreFlat := by
  simp only [ofView?, Option.bind_eq_bind, Option.bind_eq_some_iff, Option.pure_def,
    Option.some.injEq] at read
  obtain ⟨fields, -, name, -, jobs, jobs_read, included, -, excluded, -, rfl⟩ := read
  intro j hj
  obtain ⟨view, job_read⟩ := exists_of_withDefault?_list jobs_read hj
  exact Job.areFlat_of_ofView? job_read

/-! ## Variables, releases and stemcells -/

theorem KeyUsage.recovers (u : KeyUsage) : Recovers ofView? toValue u := by
  cases u <;> exact ⟨nofun, rfl⟩

theorem ServiceReference.recovers (r : ServiceReference) : Recovers ofView? toValue r :=
  recovers_record (by simp)

theorem SecretCopy.recovers (c : SecretCopy) : Recovers ofView? toValue c :=
  recovers_record (by simp)

theorem VariableOptions.recovers (o : VariableOptions) : Recovers ofView? toValue o :=
  recovers_record (by simp [KeyUsage.recovers, ServiceReference.recovers, SecretCopy.recovers])

theorem Variable.recovers (v : Variable) : Recovers ofView? toValue v :=
  recovers_record (by simp [VariableOptions.recovers])

theorem Features.recovers (f : Features) : Recovers ofView? toValue f :=
  recovers_record (by simp)

theorem PinnedStemcell.recovers (s : PinnedStemcell) : Recovers ofView? toValue s :=
  recovers_record (by simp)

theorem Release.recovers (r : Release) : Recovers ofView? toValue r :=
  recovers_record (by simp [PinnedStemcell.recovers])

theorem Stemcell.recovers (s : Stemcell) : Recovers ofView? toValue s :=
  recovers_record (by simp)

/-! ## Manifests -/

/-- The properties of all jobs, of instance groups and of addons, are kept apart from the fields with
    a meaning of their own. -/
structure Manifest.JobsAreFlat (m : Manifest) : Prop where
  groups : ∀ g ∈ m.instanceGroups, ∀ j ∈ g.jobs, j.properties.AreFlat
  addons : ∀ a ∈ m.addons, ∀ j ∈ a.jobs, j.properties.AreFlat

/-- What was read as a manifest has jobs with flat properties only. -/
theorem Manifest.jobsAreFlat_of_ofView? {view : View} {m : Manifest}
    (read : ofView? view = some m) : m.JobsAreFlat := by
  obtain ⟨fields, -, read⟩ := Option.bind_eq_some_iff.mp read
  iterate 2 obtain ⟨_, -, read⟩ := Option.bind_eq_some_iff.mp read
  obtain ⟨groups, groups_read, read⟩ := Option.bind_eq_some_iff.mp read
  iterate 4 obtain ⟨_, -, read⟩ := Option.bind_eq_some_iff.mp read
  obtain ⟨addons, addons_read, read⟩ := Option.bind_eq_some_iff.mp read
  iterate 4 obtain ⟨_, -, read⟩ := Option.bind_eq_some_iff.mp read
  obtain rfl := Option.some.inj read
  constructor
  · intro g hg
    obtain ⟨view, group_read⟩ := exists_of_withDefault?_list groups_read hg
    exact InstanceGroup.areFlat_of_ofView? group_read
  · intro a ha
    obtain ⟨view, addon_read⟩ := exists_of_withDefault?_list addons_read ha
    exact Addon.areFlat_of_ofView? addon_read

/-- Manifests read back. -/
theorem Manifest.recovers {m : Manifest} (flat : m.JobsAreFlat) : Recovers ofView? toValue m := by
  have groups : ∀ g ∈ m.instanceGroups, Recovers InstanceGroup.ofView? InstanceGroup.toValue g :=
    fun g hg => InstanceGroup.recovers (flat.groups g hg)
  have addons : ∀ a ∈ m.addons, Recovers Addon.ofView? Addon.toValue a :=
    fun a ha => Addon.recovers (flat.addons a ha)
  exact recovers_record (by
    simp [Written.sole?_unlessEmpty groups, Written.sole?_unlessEmpty addons, Features.recovers,
      Release.recovers, Stemcell.recovers, Variable.recovers, Update.recovers])

/-- A manifest that was parsed was read from a view. -/
theorem Manifest.exists_of_parse {source : Source} {m : Manifest}
    (read : Manifest.parse source = .ok m) : ∃ view, ofView? view = some m := by
  unfold Manifest.parse readOr at read
  split at read
  · next found viewed =>
    obtain rfl := Except.ok.inj read
    obtain ⟨view, -, here⟩ := Option.bind_eq_some_iff.mp viewed
    exact ⟨view, here⟩
  · nomatch read

/-- A manifest that was read from a document is written as a tree that reads back as the same
    manifest. -/
theorem Manifest.ofView?_toValue_of_parse {source : Source} {m : Manifest}
    (read : Manifest.parse source = .ok m) : Manifest.ofView? (.tree m.toValue) = some m := by
  obtain ⟨view, viewed⟩ := Manifest.exists_of_parse read
  have flat := Manifest.jobsAreFlat_of_ofView? viewed
  exact (Manifest.recovers flat).reads

/-- A manifest whose only job has properties of both kinds. -/
def propertiesDocument : Source := .ofString ("\n".intercalate [
  "name: a",
  "instance_groups:",
  "- name: w",
  "  jobs:",
  "  - name: n",
  "    release: r",
  "    properties:",
  "      port: 80",
  "      quarks:",
  "        run: ~",
  "update:",
  "  max_in_flight: 9%"])

/-- A job with a property beside the block for the operator. -/
theorem Manifest.ofView?_toValue_of_parse_properties :
    ∃ m, Manifest.parse propertiesDocument = .ok m ∧ Manifest.ofView? (.tree m.toValue) = some m := by
  have is_read : (Manifest.parse propertiesDocument).isOk = true := by decide +kernel
  obtain ⟨m, read⟩ : ∃ m, Manifest.parse propertiesDocument = .ok m := by
    cases outcome : Manifest.parse propertiesDocument with
    | error e => rw [outcome] at is_read; nomatch is_read
    | ok m => exact ⟨m, rfl⟩
  exact ⟨m, read, Manifest.ofView?_toValue_of_parse read⟩

end DeployManifest
