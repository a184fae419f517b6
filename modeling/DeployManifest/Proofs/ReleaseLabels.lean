import DeployManifest.Manifest.Image
import DeployManifest.Variables.Implicit
import DeployManifest.Proofs.Outcome
import DeployManifest.Proofs.RecordReading
import DeployManifest.Proofs.ExtendedTexts

/-!
# Release labels and implicit variables

The labels that instance groups get for the releases of their jobs are entries that come into the tree of
a manifest (`extends_addReleaseLabels`).  Such an entry lies deep inside of records that may have been
left out as they were empty, and then come in with it.  So a record is extended if one of its fields is,
or comes in (`extends_record_set`, `extends_unlessEmptyRecord`).

The version of a release may be a variable, and becomes part of a label.  This changes nothing about the
implicit variables of the manifest, unless a variable is named in no other place (`Manifest.LabelsFit`).

Main statement: `Manifest.implicitVariables_of_addReleaseLabels`.

- `IsPlainName`, `isQuietKey_of_isPlainName`: names of fields in which no variable can stand.
- `LabelFits`: a label whose text adds nothing to the variables that are known.
- `extends_labels`, `extends_settings`, `extends_group`, `extends_addReleaseLabels`: a label comes into the
  table of labels, into the settings of the agent, into its group and into the manifest.
- `implicitVariables_of_addReleaseLabels`: so labels that fit change nothing about the implicit variables.
-/

namespace DeployManifest

open Yaml (Value Written)
open Yaml.Value (Extends ExtendsItems ExtendsEntries IsQuiet IsQuietKey IsQuietBesides isKept)

variable {known : Placeholder → Prop}

/-! ## Records -/

namespace Yaml.Written

/-- Whether a field is extended: its value is, or a quiet field comes in. -/
inductive Extends (known : Placeholder → Prop) (name : String) : Written → Written → Prop where
  | refl (w : Written) : Extends known name w w
  | value {v w : Value} (extended : Value.Extends known v w) :
    Extends known name (some (name, v)) (some (name, w))
  | put {v : Value} (quiet : IsQuiet known v) : Extends known name none (some (name, v))

end Yaml.Written

/-- Whether the name of a field can be that of a quiet entry. -/
def IsPlainName (name : String) : Prop := '=' ∉ name.toList ∧ '(' ∉ name.toList

instance (name : String) : Decidable (IsPlainName name) := inferInstanceAs (Decidable (_ ∧ _))

theorem isQuietKey_of_isPlainName {name : String} (plain : IsPlainName name) :
    IsQuietKey known (.string name) :=
  ⟨name, rfl, fun _ stands => absurd stands (Placeholder.not_standsIn plain.2)⟩

/-- The entries of a record. -/
def recordEntries (ws : List Written) : Yaml.Entries :=
  (ws.filterMap id).map fun field => (.string field.1, field.2)

/-- An entry of a record is one of the fields that are written. -/
theorem mem_recordEntries {ws : List Written} {e : Value × Value} (mem : e ∈ recordEntries ws) :
    ∃ name v, some (name, v) ∈ ws ∧ e = (.string name, v) := by
  obtain ⟨field, there, rfl⟩ := List.mem_map.mp mem
  obtain ⟨w, mem_ws, rfl⟩ := List.mem_filterMap.mp there
  exact ⟨field.1, field.2, mem_ws, rfl⟩

/-- Picking among the entries of a record keeps them all, if it keeps each field. -/
theorem filter_recordEntries {kept : String → Bool} {ws : List Written}
    (all : ∀ w ∈ ws, ∀ f ∈ w, kept f.1 = true) :
    (recordEntries ws).filter (isKept kept) = recordEntries ws := by
  refine List.filter_eq_self.mpr fun e mem => ?_
  obtain ⟨name, v, mem_ws, rfl⟩ := mem_recordEntries mem
  exact all _ mem_ws (name, v) rfl

/-- A record is quiet outside of some fields if the other ones are. -/
theorem isQuietBesides_recordEntries {kept : String → Bool} {ws : List Written}
    (quiet : ∀ w ∈ ws, ∀ f ∈ w, kept f.1 = false → IsQuietKey known (.string f.1) ∧ IsQuiet known f.2) :
    IsQuietBesides kept known (recordEntries ws) := by
  refine ⟨fun e mem => ?_, fun e mem left => ?_, fun e mem left => ?_⟩
  all_goals obtain ⟨name, v, mem_ws, rfl⟩ := mem_recordEntries mem
  · exact ⟨name, rfl⟩
  · exact (quiet _ mem_ws (name, v) rfl left).1
  · exact (quiet _ mem_ws (name, v) rfl left).2

/-- A field that is written elsewhere has another name. -/
theorem ne_of_places_eq_nil {name : String} {w : Written} (unused : w.places name = []) {f : String × Value}
    (there : f ∈ w) : f.1 ≠ name := by
  obtain rfl := Option.mem_def.mp there
  intro same
  simp [Written.places, Written.here, same] at unused

/-- A record is extended if one of its fields is, and no other field has the same name. -/
theorem extends_record {name : String} (plain : IsPlainName name) {before after : List Written}
    {w w' : Written} (extended : Written.Extends known name w w')
    (unused : ∀ u ∈ before ++ after, u.places name = []) :
    Extends known (.record (before ++ w :: after)) (.record (before ++ w' :: after)) := by
  have around : ∀ v : Value, recordEntries (before ++ some (name, v) :: after) =
      recordEntries before ++ (.string name, v) :: recordEntries after := fun v => by simp [recordEntries]
  change Extends known (.map (recordEntries _)) (.map (recordEntries _))
  -- the field stays, is extended where it is, or comes in
  cases extended with
  | refl => exact .refl _
  | @value v w extended =>
    refine .map (fun _ => true) (fun _ _ => rfl) (isQuietBesides_recordEntries fun _ _ _ _ => nofun) ?_
    rw [filter_recordEntries fun _ _ _ _ => rfl, around, around]
    exact (ExtendsEntries.refl _).append (.cons (.string name) extended (.refl _))
  | @put v quiet =>
    have others : ∀ u ∈ before ++ after, ∀ f ∈ u, (f.1 != name) = true := fun u mem f there =>
      bne_iff_ne.mpr (ne_of_places_eq_nil (unused u mem) there)
    have marks : ∀ s : String, '=' ∈ s.toList → (s != name) = true := fun s mark =>
      bne_iff_ne.mpr fun same => plain.1 (same ▸ mark)
    have quiet_key : IsQuietKey known (.string name) := isQuietKey_of_isPlainName plain
    refine .map (fun s => s != name) marks (isQuietBesides_recordEntries fun u mem f there left => ?_) ?_
    · rcases List.mem_append.mp mem with mem | mem
      · simp [others u (List.mem_append_left _ mem) f there] at left
      · rcases List.mem_cons.mp mem with rfl | mem
        · obtain rfl := Option.some.inj there
          exact ⟨quiet_key, quiet⟩
        · simp [others u (List.mem_append_right _ mem) f there] at left
    · have left_out : recordEntries (before ++ none :: after) =
          recordEntries before ++ recordEntries after := by simp [recordEntries]
      have not_kept : ¬ isKept (fun s => s != name) (.string name, v) = true := by simp [isKept]
      rw [around, List.filter_append, List.filter_cons_of_neg not_kept,
        filter_recordEntries fun u mem => others u (List.mem_append_left _ mem),
        filter_recordEntries fun u mem => others u (List.mem_append_right _ mem), left_out]
      exact .refl _

/-- A record is extended where one of its fields is, if no other field has the same name. -/
theorem extends_record_set {name : String} (plain : IsPlainName name) {ws : List Written} (i : Nat)
    {w w' : Written} (here : ws[i]? = some w) (extended : Written.Extends known name w w')
    (unused : ∀ u ∈ ws.eraseIdx i, u.places name = []) :
    Extends known (.record ws) (.record (ws.set i w')) := by
  obtain ⟨lt, rfl⟩ := List.getElem?_eq_some_iff.mp here
  have whole : ws.take i ++ ws[i] :: ws.drop (i + 1) = ws := by simp
  have changed : ws.set i w' = ws.take i ++ w' :: ws.drop (i + 1) := by
    rw [List.set_eq_take_append_cons_drop, if_pos lt]
  rw [List.eraseIdx_eq_take_drop_succ] at unused
  have extended := extends_record plain extended unused
  rwa [whole, ← changed] at extended

/-- A record in which a field is written is written itself. -/
theorem unlessEmptyRecord_of_some {name : String} {ws : List Written} {f : String × Value}
    (filled : some f ∈ ws) : Written.unlessEmptyRecord name ws = some (name, .record ws) := by
  unfold Written.unlessEmptyRecord
  rw [if_neg]
  intro blank
  exact nomatch List.filterMap_eq_nil_iff.mp (List.isEmpty_iff.mp blank) _ filled

/-- A record among the fields of another one is extended, or comes in, if one of its own fields is or
    does. -/
theorem extends_unlessEmptyRecord {outer name : String} (plain : IsPlainName name) {ws : List Written}
    (i : Nat) {w w' : Written} (here : ws[i]? = some w) (extended : Written.Extends known name w w')
    (unused : ∀ u ∈ ws.eraseIdx i, u.places name = []) :
    Written.Extends known outer (Written.unlessEmptyRecord outer ws)
      (Written.unlessEmptyRecord outer (ws.set i w')) := by
  have record := extends_record_set plain i here extended unused
  obtain ⟨lt, at_i⟩ := List.getElem?_eq_some_iff.mp here
  have w'_mem : w' ∈ ws.set i w' := List.mem_set lt w'
  cases extended with
  | refl =>
    rw [← at_i, List.set_getElem_self]
    exact .refl _
  | @value v w _ =>
    rw [unlessEmptyRecord_of_some w'_mem, unlessEmptyRecord_of_some (List.mem_of_getElem? here)]
    exact .value record
  | @put v quiet =>
    rw [unlessEmptyRecord_of_some w'_mem]
    -- a record with some other field was there before; one without comes in with the new field
    by_cases filled : ∃ f, some f ∈ ws
    · obtain ⟨f, there⟩ := filled
      rw [unlessEmptyRecord_of_some there]
      exact .value record
    · have absent : ∀ u ∈ ws, u = none := fun u mem =>
        Option.eq_none_iff_forall_ne_some.mpr fun f same => filled ⟨f, same ▸ mem⟩
      have only : ∀ e ∈ recordEntries (ws.set i (some (name, v))), e = (.string name, v) := by
        intro e mem
        obtain ⟨name', v', there, rfl⟩ := mem_recordEntries mem
        rcases List.mem_or_eq_of_mem_set there with there | same
        · exact nomatch absent _ there
        · obtain ⟨rfl, rfl⟩ := Prod.mk.inj (Option.some.inj same)
          rfl
      have quiet_key : IsQuietKey known (.string name) := isQuietKey_of_isPlainName plain
      rw [Written.unlessEmptyRecord_eq_none.mpr absent]
      exact .put (.map (fun e mem => only e mem ▸ quiet_key) fun e mem => only e mem ▸ quiet)

/-! ## Labels -/

/-- Whether a label can be added without bringing in a placeholder that is not known.  It is no mark and
    gets no anchor, and neither did the label that it takes the place of. -/
structure LabelFits (known : Placeholder → Prop) (old : Table String) (label : String × String) : Prop where
  unmarked : '=' ∉ label.1.toList
  key : ∀ p : Placeholder, p.StandsIn label.1.toList → known p
  value : IsQuiet known (.string label.2)
  replaced : ∀ value, old.get? label.1 = some value →
    value.utf8ByteSize ≤ Yaml.Anchors.minSize ∧ '(' ∉ value.toList

/-- Texts bound to the same names are extended one by one. -/
theorem extendsEntries_texts {texts others : List (String × String)}
    (same : texts.map (·.1) = others.map (·.1))
    (each : ∀ x ∈ texts, ∀ y ∈ others, x.1 = y.1 → Extends known (.string x.2) (.string y.2)) :
    ExtendsEntries known (texts.map fun x => (.string x.1, .string x.2))
      (others.map fun y => (.string y.1, .string y.2)) := by
  induction texts generalizing others with
  | nil =>
    obtain rfl := List.map_eq_nil_iff.mp same.symm
    exact .nil
  | cons x rest ih =>
    cases others with
    | nil => nomatch same
    | cons y more =>
      obtain ⟨key, later⟩ := List.cons.inj same
      have key : x.1 = y.1 := key
      rw [List.map_cons, List.map_cons, ← key]
      exact .cons _ (each x List.mem_cons_self y List.mem_cons_self key)
        (ih later fun x memx y memy => each x (List.mem_cons_of_mem _ memx) y (List.mem_cons_of_mem _ memy))

/-- Whether a name is that of an old label, or may be a mark. -/
def staysLabel (old : Table String) (name : String) : Bool := old.contains name || name.toList.contains '='

theorem mem_keys_of_staysLabel {old : Table String} {name : String} (stays : staysLabel old name = true)
    (unmarked : '=' ∉ name.toList) : name ∈ old.keys := by
  refine Table.contains_iff_mem_keys.mp ?_
  simpa [staysLabel, unmarked] using stays

theorem staysLabel_of_mem_keys {old : Table String} {name : String} (mem : name ∈ old.keys) :
    staysLabel old name = true := by
  simp [staysLabel, Table.contains_iff_mem_keys.mpr mem]

section

variable {old : Table String} {added : List (String × String)} {x y : String × String}

theorem mem_added_of_not_staysLabel (mem : y ∈ (old.insertAll added).entries)
    (left : staysLabel old y.1 = false) : y ∈ added := by
  refine (Table.mem_of_mem_insertAll mem).resolve_left fun before => ?_
  simp [staysLabel_of_mem_keys (List.mem_map_of_mem before)] at left

/-- The names of the old labels are still there. -/
theorem keys_filter_staysLabel (unmarked : ∀ label ∈ added, '=' ∉ label.1.toList) :
    old.keys = ((old.insertAll added).entries.filter fun y => staysLabel old y.1).map (·.1) := by
  refine Table.keys_eq_of_mem_iff old.rising ((old.insertAll added).rising.filter _) fun name => ⟨?_, ?_⟩
  · intro mem
    obtain ⟨y, there, rfl⟩ := List.mem_map.mp (Table.mem_keys_insertAll.mpr (.inl mem))
    exact List.mem_map_of_mem (List.mem_filter.mpr ⟨there, staysLabel_of_mem_keys mem⟩)
  · intro mem
    obtain ⟨y, there, rfl⟩ := List.mem_map.mp mem
    obtain ⟨there, stays⟩ := List.mem_filter.mp there
    rcases Table.mem_of_mem_insertAll there with before | label
    · exact List.mem_map_of_mem before
    · exact mem_keys_of_staysLabel stays (unmarked y label)

/-- An old label keeps its value, unless another one that fits takes its place. -/
theorem extends_label (fit : ∀ label ∈ added, LabelFits known old label) (memx : x ∈ old.entries)
    (memy : y ∈ (old.insertAll added).entries) (key : x.1 = y.1) :
    Extends known (.string x.2) (.string y.2) := by
  have bound : old.get? y.1 = some x.2 := Table.get?_of_mem (key ▸ memx)
  rcases Table.mem_of_mem_insertAll memy with before | label
  · have same : x.2 = y.2 := Option.some.inj (bound.symm.trans (Table.get?_of_mem before))
    exact same ▸ .refl _
  · obtain ⟨short, silent⟩ := (fit y label).replaced _ bound
    exact .string short silent (fit y label).value

/-- A table of labels is extended by labels that fit. -/
theorem extends_labels (fit : ∀ label ∈ added, LabelFits known old label) :
    Extends known (.table Value.string old) (.table Value.string (old.insertAll added)) := by
  have marks : ∀ s : String, '=' ∈ s.toList → staysLabel old s = true := fun s mark => by
    simp [staysLabel, mark]
  refine .map (staysLabel old) marks ⟨fun e mem => ?_, fun e mem left => ?_, fun e mem left => ?_⟩ ?_
  · obtain ⟨y, -, rfl⟩ := List.mem_map.mp mem
    exact ⟨y.1, rfl⟩
  · obtain ⟨y, there, rfl⟩ := List.mem_map.mp mem
    exact ⟨y.1, rfl, (fit y (mem_added_of_not_staysLabel there left)).key⟩
  · obtain ⟨y, there, rfl⟩ := List.mem_map.mp mem
    exact (fit y (mem_added_of_not_staysLabel there left)).value
  · rw [List.filter_map]
    exact extendsEntries_texts (keys_filter_staysLabel fun label mem => (fit label mem).unmarked)
      fun x memx y memy key => extends_label fit memx (List.mem_of_mem_filter memy) key

end

/-- Labels that fit bring no variable along. -/
theorem isQuiet_table {t : Table String} {old : Table String}
    (fit : ∀ label ∈ t.entries, LabelFits known old label) : IsQuiet known (.table Value.string t) := by
  refine .map (fun e mem => ?_) fun e mem => ?_
  all_goals obtain ⟨label, there, rfl⟩ := List.mem_map.mp mem
  · exact ⟨label.1, rfl, (fit label there).key⟩
  · exact (fit label there).value

/-- So the field of the labels is extended, or comes in. -/
theorem extends_unlessEmptyTable {old : Table String} {added : List (String × String)}
    (fit : ∀ label ∈ added, LabelFits known old label) :
    Written.Extends known "labels" (Written.unlessEmptyTable "labels" Value.string old)
      (Written.unlessEmptyTable "labels" Value.string (old.insertAll added)) := by
  unfold Written.unlessEmptyTable
  -- the field is there before and after, only after, or not at all
  by_cases blank : (old.insertAll added).isEmpty = true
  · have blank_before : old.isEmpty = true := Table.isEmpty_iff_keys.mpr fun name mem =>
      Table.isEmpty_iff_keys.mp blank name (Table.mem_keys_insertAll.mpr (.inl mem))
    rw [if_pos blank, if_pos blank_before]
    exact .refl _
  · rw [if_neg blank]
    split
    · next blank_before =>
      obtain rfl := Table.eq_empty_of_isEmpty blank_before
      exact .put (isQuiet_table fun label mem => fit label (Table.mem_of_mem_ofList mem))
    · exact .value (extends_labels fit)

/-! ## Instance groups -/

attribute [local simp] Written.places_always Written.places_whenPresent Written.places_whenSet
  Written.places_unlessBlank Written.places_unlessEmpty Written.places_unlessEmptyTable
  Written.places_unlessEmptyRecord

/-- Settings are extended if their labels are. -/
theorem extends_settings {s : PodSettings} {added : List (String × String)}
    (fit : ∀ label ∈ added, LabelFits known s.labels label) :
    Written.Extends known "settings" (Written.unlessEmptyRecord "settings" s.fields)
      (Written.unlessEmptyRecord "settings" { s with labels := s.labels.insertAll added }.fields) :=
  extends_unlessEmptyRecord (by decide) 1 rfl (extends_unlessEmptyTable fit) (by simp [PodSettings.fields])

/-- A group is extended if its labels are. -/
theorem extends_group {g : InstanceGroup} {added : List (String × String)}
    (fit : ∀ label ∈ added, LabelFits known g.labels label) :
    Extends known g.toValue (g.withLabels (g.labels.insertAll added)).toValue := by
  have agent : Written.Extends known "agent" (Written.unlessEmptyRecord "agent" g.env.machine.agent.fields) _ :=
    extends_unlessEmptyRecord (by decide) 0 rfl (extends_settings fit) (by simp [Agent.fields])
  have machine : Written.Extends known "bosh" (Written.unlessEmptyRecord "bosh" g.env.machine.fields) _ :=
    extends_unlessEmptyRecord (by decide) 7 rfl agent (by simp [Machine.fields])
  have env : Written.Extends known "env" (Written.unlessEmptyRecord "env" g.env.fields) _ :=
    extends_unlessEmptyRecord (by decide) 2 rfl machine (by simp [Env.fields])
  have lifecycle : Written.places "env" (if g.lifecycle = .unspecified then none
      else Written.always "lifecycle" g.lifecycle.toValue) = [] := by
    split <;> simp [Written.places, Written.always]
  exact extends_record_set (by decide) 15 rfl env (by simp [lifecycle])

/-! ## Manifests -/

namespace Manifest

/-- Whether the labels for releases leave the implicit variables of a manifest as they are: they name
    variables only that are found or declared anyway, are no marks and get no anchors, and neither did
    the labels that they take the place of.  A cluster takes no label that is a mark or that is long enough
    for an anchor. -/
def LabelsFit (m : Manifest) : Prop :=
  ∀ g ∈ m.instanceGroups, ∀ job ∈ g.jobs, ∀ label, m.releaseLabel g job = .ok label →
    '=' ∉ label.1.toList ∧ label.2.utf8ByteSize ≤ Yaml.Anchors.minSize ∧
    (∀ implicit, m.implicitVariables = .ok implicit →
      ∀ name ∈ (Placeholder.names label.1).toList ++ (Placeholder.names label.2).toList,
        name ∈ implicit.toList ∨ ∃ v ∈ m.declared, v.name = name) ∧
    ∀ old ∈ g.labels.get? label.1, old.utf8ByteSize ≤ Yaml.Anchors.minSize ∧ '(' ∉ old.toList

variable {m labelled : Manifest}

/-- Labelling keeps everything of a manifest but the labels of its instance groups. -/
theorem addReleaseLabels_eq_ok_iff :
    m.addReleaseLabels = .ok labelled ↔
      ∃ groups, List.Forall₂ (fun g g' => ∃ labels, g.jobs.mapM (m.releaseLabel g) = .ok labels ∧
        g.withLabels (g.labels.insertAll labels) = g') m.instanceGroups groups ∧
        { m with instanceGroups := groups } = labelled := by
  unfold addReleaseLabels labelGroup
  simp only [map_eq_ok, mapM_eq_ok_iff]

/-- A labelled manifest is the manifest with further entries. -/
theorem extends_addReleaseLabels
    (fit : ∀ g ∈ m.instanceGroups, ∀ job ∈ g.jobs, ∀ label, m.releaseLabel g job = .ok label →
      LabelFits known g.labels label)
    (done : m.addReleaseLabels = .ok labelled) : Extends known m.toValue labelled.toValue := by
  obtain ⟨groups, each, rfl⟩ := addReleaseLabels_eq_ok_iff.mp done
  -- group by group, along both lists
  have items : ∀ olds news : List InstanceGroup, (∀ g ∈ olds, g ∈ m.instanceGroups) →
      List.Forall₂ (fun g g' => ∃ labels, g.jobs.mapM (m.releaseLabel g) = .ok labels ∧
        g.withLabels (g.labels.insertAll labels) = g') olds news →
      ExtendsItems known (olds.map InstanceGroup.toValue) (news.map InstanceGroup.toValue) := by
    intro olds news sub each
    induction each with
    | nil => exact .nil
    | @cons g g' olds news first _ ih =>
      obtain ⟨labels, made, rfl⟩ := first
      rw [List.forall_mem_cons] at sub
      have fit_here : ∀ label ∈ labels, LabelFits known g.labels label := by
        intro label mem
        obtain ⟨job, there, made⟩ := exists_of_mem_right (mapM_eq_ok_iff.mp made) mem
        exact fit g sub.1 job there label made
      exact .cons (extends_group fit_here) (ih sub.2)
  have written : Written.Extends known "instance_groups"
      (Written.unlessEmpty "instance_groups" InstanceGroup.toValue m.instanceGroups)
      (Written.unlessEmpty "instance_groups" InstanceGroup.toValue groups) := by
    have all := items _ _ (fun _ mem => mem) each
    unfold Written.unlessEmpty
    revert each all
    generalize m.instanceGroups = olds
    intro each all
    -- without groups the field is left out, before and after
    cases each with
    | nil => exact .refl _
    | cons => exact .value (.seq all)
  exact extends_record_set (by decide) 2 rfl written (by simp)

/-- The implicit variables of a manifest are the names in its canonical text that no variable is declared
    under. -/
theorem implicitVariables_eq_ok_iff {implicit : NameSet} :
    m.implicitVariables = .ok implicit ↔ ∃ text, m.toValue.canonical? = some text ∧
      implicit = m.declared.foldl (fun names v => names.remove v.name) (Placeholder.names text) := by
  unfold implicitVariables print Yaml.printOr
  cases m.toValue.canonical? <;> simp [eq_comm]

/-- Without anchors the text of a manifest is its printed tree. -/
theorem canonical?_eq_some_of_mark {marked : Value}
    (mark : m.toValue.sorted.mark .empty = (marked, .empty)) (printable : marked.isPrintable .free = true) :
    m.toValue.canonical? = some (String.ofList (Value.node .start false 0 marked)) := by
  unfold Value.canonical? Value.print? Value.render
  rw [mark]
  simp [printable, Yaml.Anchors.putInAll, Table.empty]

/-- Without anchors the implicit variables of a manifest are those of its printed tree. -/
theorem implicitVariables_eq_ok_of_mark {marked : Value}
    (mark : m.toValue.sorted.mark .empty = (marked, .empty)) (printable : marked.isPrintable .free = true) :
    m.implicitVariables = .ok (m.declared.foldl (fun names v => names.remove v.name)
      (.ofNames ((Placeholder.all (Value.node .start false 0 marked)).filterMap
        fun p => Placeholder.root? p.name))) := by
  refine implicitVariables_eq_ok_iff.mpr ⟨_, canonical?_eq_some_of_mark mark printable, ?_⟩
  unfold Placeholder.names
  rw [String.toList_ofList]

/-- Variables that are declared are left out. -/
theorem mem_undeclared {declared : List Variable} {names : NameSet} {name : String} :
    name ∈ NameSet.toList (declared.foldl (fun names v => names.remove v.name) names) ↔
      name ∈ names.toList ∧ ∀ v ∈ declared, v.name ≠ name := by
  induction declared generalizing names with
  | nil => simp
  | cons v rest ih =>
    rw [List.foldl_cons, ih, NameSet.mem_remove, List.forall_mem_cons, and_assoc, ne_comm]

/-- Whether a manifest needs no further variable for a placeholder. -/
def Knows (m : Manifest) (p : Placeholder) : Prop :=
  ∀ text, m.toValue.canonical? = some text → ∀ name, Placeholder.root? p.name = some name →
    name ∈ (Placeholder.names text).toList ∨ ∃ v ∈ m.declared, v.name = name

/-- If all labels of a manifest fit, then so does each label that is made for a job. -/
theorem LabelsFit.labelFits (fit : m.LabelsFit) {g : InstanceGroup} (mem : g ∈ m.instanceGroups) {job : Job}
    (there : job ∈ g.jobs) {label : String × String} (made : m.releaseLabel g job = .ok label) :
    LabelFits m.Knows g.labels label := by
  obtain ⟨unmarked, short, known, replaced⟩ := fit g mem job there label made
  have knows : ∀ s, (∀ name ∈ (Placeholder.names s).toList, name ∈ (Placeholder.names label.1).toList ++
      (Placeholder.names label.2).toList) → ∀ p : Placeholder, p.StandsIn s.toList → m.Knows p := by
    intro s sub p stands text printed name root
    have implicit := implicitVariables_eq_ok_iff.mpr ⟨text, printed, rfl⟩
    have found := sub name (Placeholder.mem_names_iff.mpr ⟨p, stands, root⟩)
    exact (known _ implicit name found).imp_left fun mem => (mem_undeclared.mp mem).1
  exact ⟨unmarked, knows label.1 fun _ => List.mem_append_left _,
    .string short (knows label.2 fun _ => List.mem_append_right _), replaced⟩

/-- Labels that fit leave the implicit variables of a manifest as they are. -/
theorem implicitVariables_of_addReleaseLabels (fit : m.LabelsFit) (done : m.addReleaseLabels = .ok labelled) :
    labelled.implicitVariables = m.implicitVariables := by
  have extended := extends_addReleaseLabels (fun g mem job there label => fit.labelFits mem there) done
  have declared : labelled.declared = m.declared := by
    obtain ⟨groups, -, rfl⟩ := addReleaseLabels_eq_ok_iff.mp done
    rfl
  cases printed : m.toValue.canonical? with
  | none =>
    have failed := extended.canonical?_eq_none printed
    unfold implicitVariables print
    rw [printed, failed, declared]
  | some text =>
    obtain ⟨text', printed', stands⟩ := extended.canonical?_eq_some printed
    rw [implicitVariables_eq_ok_iff.mpr ⟨text, printed, rfl⟩]
    refine implicitVariables_eq_ok_iff.mpr ⟨text', printed', ?_⟩
    rw [declared]
    -- further placeholders come with labels only, and their variables are known
    refine NameSet.ext_of_mem fun name => ?_
    rw [mem_undeclared, mem_undeclared, and_congr_left_iff]
    intro undeclared
    rw [Placeholder.mem_names_iff, Placeholder.mem_names_iff]
    constructor
    · rintro ⟨p, here, root⟩
      exact ⟨p, (stands p).1 here, root⟩
    · rintro ⟨p, here, root⟩
      rcases (stands p).2 here with here | known
      · exact ⟨p, here, root⟩
      · rcases known text printed name root with found | ⟨v, mem, same⟩
        · exact Placeholder.mem_names_iff.mp found
        · exact absurd same (undeclared v mem)

end Manifest
end DeployManifest
