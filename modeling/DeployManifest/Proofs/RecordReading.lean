import DeployManifest.Yaml.Record
import DeployManifest.Yaml.View
import DeployManifest.Proofs.TableLaws

/-!
# Reading what has been written

A record is written field by field, and most fields are left out when they hold nothing.  Reading it
back gives the same record if every field reads back, a field that was left out as its default.

`Recovers read write x` says that what is written of `x` reads back.  A written record is a list of
fields (`Fields.written`), and a field is looked up in it by name; `Written.places` tells the places
at which one written field is found.  For each way of writing a field there is a lemma that says
what is read at its places (`sole?_unlessEmpty` and the like), so that a record reads back by looking
up one field after another.

- `Recovers`: what reads back.
- `Fields.written`, `Written.places`: the fields of a written record, and where they are found.
- `Fields.sole?`, `Fields.final?`: reading from the only or the last place of a name.
- `IsFlat`: fields that stand among those with a meaning of their own.
-/

namespace DeployManifest.Yaml

/-- What is written of `x` is no null and reads back as `x`. -/
structure Recovers {α : Type} (read : View → Option α) (write : α → Value) (x : α) : Prop where
  not_null : write x ≠ .null
  reads : read (.tree (write x)) = some x

namespace View

variable {α : Type}

@[simp] theorem value?_tree (v : Value) : value? (.tree v) = some v := rfl

@[simp] theorem text?_string (s : String) : text? (.tree (.string s)) = some s := rfl

@[simp] theorem bool?_bool (b : Bool) : bool? (.tree (.bool b)) = some b := rfl

@[simp] theorem variant?_string (s : String) : variant? (.tree (.string s)) = some s := rfl

theorem int?_int {low high n : Int} (above : low ≤ n) (below : n ≤ high) :
    int? low high (.tree (.int n)) = some n := by
  simp [int?, Value.untagged, above, below]

@[simp] theorem int32?_int32 (n : Int32) : int32? (.tree (.int32 n)) = some n := by
  rw [int32?, Value.int32, int?_int n.minValue_le_toInt n.toInt_le, Option.map_some,
    Int32.ofInt_toInt]

@[simp] theorem int64?_int64 (n : Int64) : int64? (.tree (.int64 n)) = some n := by
  rw [int64?, Value.int64, int?_int n.minValue_le_toInt n.toInt_le, Option.map_some,
    Int64.ofInt_toInt]

theorem optional?_of_ne_null {read : View → Option α} {v : Value} (not_null : v ≠ .null) :
    optional? read (.tree v) = (read (.tree v)).map some := by
  cases v <;> first | rfl | exact absurd rfl not_null

theorem optional?_of_recovers {read : View → Option α} {write : α → Value} {x : α}
    (recovers : Recovers read write x) : optional? read (.tree (write x)) = some (some x) := by
  rw [optional?_of_ne_null recovers.not_null, recovers.reads, Option.map_some]

/-! ## Collections -/

/-- Items that read back one by one read back together. -/
theorem mapM_read_eq_some {read : View → Option α} {write : α → Value} {items : List α}
    (reads : ∀ x ∈ items, read (.tree (write x)) = some x) :
    (items.map fun x => View.tree (write x)).mapM read = some items := by
  induction items with
  | nil => rfl
  | cons x rest ih =>
    have first := reads x List.mem_cons_self
    have others := ih fun y hy => reads y (List.mem_cons_of_mem _ hy)
    simp [first, others]

/-- So does the list of them. -/
theorem list?_list {read : View → Option α} {write : α → Value} {items : List α}
    (recovers : ∀ x ∈ items, Recovers read write x) :
    list? read (.tree (.list write items)) = some items := by
  have := mapM_read_eq_some fun x hx => (recovers x hx).reads
  simpa [list?, items?, Value.list, Value.untagged, Function.comp_def] using this

end View

namespace Fields

/-- A written record, as it is read. -/
def written (ws : List Written) : Fields :=
  ⟨(ws.filterMap id).map fun (name, value) => (name, .tree value)⟩

end Fields

/-- The fields of a mapping whose keys are texts. -/
theorem View.fields?_map {α : Type} (write : α → Value) (entries : List (String × α)) :
    fields? (.tree (.map (entries.map fun (name, x) => (.string name, write x)))) =
      some ⟨entries.map fun (name, x) => (name, .tree (write x))⟩ := by
  have named : (entries.map fun e => (View.tree (.string e.1), View.tree (write e.2))).mapM
      (fun (entry : View × View) => entry.1.text?.map fun name => (name, entry.2)) =
      some (entries.map fun e => (e.1, View.tree (write e.2))) := by
    induction entries with
    | nil => rfl
    | cons first rest ih => simp [ih]
  simpa [fields?, entries?, Value.untagged, Function.comp_def] using congrArg (·.map Fields.mk) named

@[simp] theorem View.fields?_record (ws : List Written) :
    fields? (.tree (.record ws)) = some (.written ws) :=
  View.fields?_map id (ws.filterMap id)

@[simp] theorem Value.record_ne_null (ws : List Written) : Value.record ws ≠ .null := nofun

/-- A table whose values read back reads back. -/
theorem View.table?_table {α : Type} {read : View → Option α} {write : α → Value} {t : Table α}
    (reads : ∀ x, read (.tree (write x)) = some x) :
    table? read (.tree (.table write t)) = some t := by
  have found : ∀ entries : List (String × α),
      (entries.map fun e => (e.1, View.tree (write e.2))).mapM
        (fun (field : String × View) => (read field.2).map fun found => (field.1, found)) =
        some entries := by
    intro entries
    induction entries with
    | nil => rfl
    | cons first rest ih => simp [reads first.2, ih]
  simp [table?, Value.table, View.fields?_map, found t.entries]

/-! ## Looking fields up -/

namespace Written

/-- The place of a written field, if it was not left out. -/
def here (w : Written) : List View := w.toList.map fun field => .tree field.2

/-- Whether a written field is called `name`, unless it was left out. -/
def IsCalled (name : String) (w : Written) : Prop := ∀ field ∈ w, field.1 = name

/-- The places at which a written field is found when `name` is looked up. -/
def places (name : String) (w : Written) : List View :=
  if w.any (·.1 == name) then w.here else []

/-- A written field is found under its own name, and under no other. -/
theorem places_of_isCalled {called name : String} {w : Written} (isCalled : IsCalled called w) :
    w.places name = if called = name then w.here else [] := by
  cases w with
  | none => simp [places, here]
  | some field => simp [places, ← isCalled field rfl]

section

variable {α : Type} {called name : String}

theorem isCalled_whenSet {flag : Bool} : IsCalled called (whenSet called flag) := by
  simp [IsCalled, whenSet]

theorem isCalled_unlessEmptyRecord {ws : List Written} :
    IsCalled called (unlessEmptyRecord called ws) := by
  unfold IsCalled unlessEmptyRecord
  split <;> simp

theorem places_always {v : Value} :
    (always called v).places name = if called = name then (always called v).here else [] :=
  places_of_isCalled (by simp [IsCalled, always])

theorem places_whenPresent {write : α → Value} {x : Option α} :
    (whenPresent called write x).places name =
      if called = name then (whenPresent called write x).here else [] :=
  places_of_isCalled (by simp [IsCalled, whenPresent])

theorem places_whenSet {flag : Bool} :
    (whenSet called flag).places name = if called = name then (whenSet called flag).here else [] :=
  places_of_isCalled isCalled_whenSet

theorem places_unlessBlank {text : String} :
    (unlessBlank called text).places name =
      if called = name then (unlessBlank called text).here else [] :=
  places_of_isCalled (by simp [IsCalled, unlessBlank])

theorem places_unlessEmpty {write : α → Value} {items : List α} :
    (unlessEmpty called write items).places name =
      if called = name then (unlessEmpty called write items).here else [] :=
  places_of_isCalled (by simp [IsCalled, unlessEmpty])

theorem places_unlessEmptyTable {write : α → Value} {t : Table α} :
    (unlessEmptyTable called write t).places name =
      if called = name then (unlessEmptyTable called write t).here else [] :=
  places_of_isCalled (by simp [IsCalled, unlessEmptyTable])

theorem places_unlessEmptyRecord {ws : List Written} :
    (unlessEmptyRecord called ws).places name =
      if called = name then (unlessEmptyRecord called ws).here else [] :=
  places_of_isCalled isCalled_unlessEmptyRecord

end

end Written

namespace Fields

variable {α : Type}

/-- A name is looked up in a written record field by field. -/
theorem all_written (ws : List Written) (name : String) :
    (written ws).all name = ws.flatMap (Written.places name) := by
  induction ws with
  | nil => rfl
  | cons w rest ih =>
    rw [List.flatMap_cons, ← ih]
    cases w with
    | none => simp [written, all, Written.places]
    | some field =>
      by_cases same : field.1 = name <;> simp [written, all, Written.places, Written.here, same]

/-- A name that is not used needs no other one. -/
theorem renamed_of_all_eq_nil {fields : Fields} {old new : String} (unused : fields.all old = []) :
    fields.renamed old new = fields := by
  have differs : ∀ field ∈ fields.entries, field.1 ≠ old := by
    simpa [all] using unused
  have same : ∀ field ∈ fields.entries,
      (if field.1 == old then new else field.1, field.2) = field := by
    intro field hf
    simp [differs field hf]
  unfold renamed
  rw [List.map_congr_left same, List.map_id']

/-- What is read of a field at the places where it was found. -/
def sole? (read : View → Option α) (default? : Option α) : List View → Option α
  | [] => default?
  | [view] => read view
  | _ => none

/-- A field with a default is read from the only place of its name, if there is one. -/
theorem withDefault?_eq_sole? {fields : Fields} {name : String} {read : View → Option α}
    {default : α} :
    fields.withDefault? name read default = sole? read (some default) (fields.all name) := by
  unfold withDefault?
  rcases fields.all name with _ | ⟨view, _ | ⟨other, rest⟩⟩ <;> rfl

theorem required?_eq_sole? {fields : Fields} {name : String} {read : View → Option α} :
    fields.required? name read = sole? read none (fields.all name) := by
  unfold required?
  rcases fields.all name with _ | ⟨view, _ | ⟨other, rest⟩⟩ <;> rfl

theorem optional?_eq_sole? {fields : Fields} {name : String} {read : View → Option α} :
    fields.optional? name read = sole? (View.optional? read) (some none) (fields.all name) :=
  withDefault?_eq_sole?

/-- What is read of a field that may be repeated at the places where it was found. -/
def final? (read : View → Option α) (places : List View) : Option (Option α) :=
  (places.mapM (View.optional? read)).map fun found => found.getLast?.join

theorem last?_eq_final? {fields : Fields} {name : String} {read : View → Option α} :
    fields.last? name read = final? read (fields.all name) := rfl

end Fields

/-! ## What is read of a written field -/

namespace Written

open Fields (sole? final?)

variable {α : Type} {name : String} {read : View → Option α} {write : α → Value}

theorem sole?_always {default? : Option α} {v : Value} :
    sole? read default? (always name v).here = read (.tree v) := rfl

/-- An optional field reads back, be it there or not. -/
theorem sole?_whenPresent {x : Option α} (recovers : ∀ y ∈ x, Recovers read write y) :
    sole? (View.optional? read) (some none) (whenPresent name write x).here = some x := by
  cases x with
  | none => rfl
  | some y => exact View.optional?_of_recovers (recovers y rfl)

theorem sole?_whenSet {flag : Bool} :
    sole? View.bool? (some false) (whenSet name flag).here = some flag := by
  cases flag <;> rfl

/-- A text reads back, be it empty or not. -/
theorem sole?_unlessBlank {text : String} :
    sole? View.text? (some "") (unlessBlank name text).here = some text := by
  unfold unlessBlank
  split
  · next blank => simpa [here, sole?] using blank
  · rfl

/-- A list reads back, be it empty or not. -/
theorem sole?_unlessEmpty {items : List α} (recovers : ∀ x ∈ items, Recovers read write x) :
    sole? (View.list? read) (some []) (unlessEmpty name write items).here = some items := by
  unfold unlessEmpty
  split
  · next blank => simpa [here, sole?] using blank
  · exact View.list?_list recovers

/-- A table reads back, be it empty or not. -/
theorem sole?_unlessEmptyTable {t : Table α} (reads : ∀ x, read (.tree (write x)) = some x) :
    sole? (View.table? read) (some .empty) (unlessEmptyTable name write t).here = some t := by
  unfold unlessEmptyTable
  split
  · next blank => simp [here, sole?, Table.eq_empty_of_isEmpty blank]
  · exact View.table?_table reads

/-- A field that is always written reads back as the last one of its name. -/
theorem final?_always {x : α} (recovers : Recovers read write x) :
    final? read (always name (write x)).here = some (some x) := by
  simp [final?, here, always, View.optional?_of_recovers recovers]

/-- So does an optional field. -/
theorem final?_whenPresent {x : Option α} (recovers : ∀ y ∈ x, Recovers read write y) :
    final? read (whenPresent name write x).here = some x := by
  cases x with
  | none => rfl
  | some y => exact final?_always (recovers y rfl)

theorem sole?_texts {t : Table String} :
    sole? (View.table? View.text?) (some .empty) (unlessEmptyTable name Value.string t).here =
      some t :=
  sole?_unlessEmptyTable View.text?_string

theorem sole?_values {t : Table Value} :
    sole? (View.table? View.value?) (some .empty) (unlessEmptyTable name id t).here = some t :=
  sole?_unlessEmptyTable View.value?_tree

/-- A record is left out if all of its fields are; then it has to be the one that stands in. -/
theorem sole?_unlessEmptyRecord {fields : α → List Written} {x default : α}
    (recovers : Recovers read (fun x => .record (fields x)) x)
    (stands_in : (∀ w ∈ fields x, w = none) → default = x) :
    sole? read (some default) (unlessEmptyRecord name (fields x)).here = some x := by
  unfold unlessEmptyRecord
  split
  · next blank =>
    have absent := List.filterMap_eq_nil_iff.mp (List.isEmpty_iff.mp blank)
    simpa [here, sole?] using stands_in absent
  · exact recovers.reads

end Written

/-! ## Fields that are left out -/

namespace Written

variable {α : Type} {name : String}

theorem whenPresent_eq_none {write : α → Value} {x : Option α} :
    whenPresent name write x = none ↔ x = none := Option.map_eq_none_iff

theorem whenSet_eq_none {flag : Bool} : whenSet name flag = none ↔ flag = false := by
  cases flag <;> simp [whenSet]

theorem unlessEmpty_eq_none {write : α → Value} {items : List α} :
    unlessEmpty name write items = none ↔ items = [] := by
  simp [unlessEmpty]

/-- A table is left out just if it is empty. -/
theorem unlessEmptyTable_eq_none {write : α → Value} {t : Table α} :
    unlessEmptyTable name write t = none ↔ t = .empty := by
  unfold unlessEmptyTable
  split
  · next blank => simp [Table.eq_empty_of_isEmpty blank]
  · next filled => simpa using fun same : t = .empty => filled (by rw [same]; rfl)

/-- An inner record is left out just if all its fields are. -/
theorem unlessEmptyRecord_eq_none {ws : List Written} :
    unlessEmptyRecord name ws = none ↔ ∀ w ∈ ws, w = none := by
  have blank_iff : (ws.filterMap id).isEmpty = true ↔ ∀ w ∈ ws, w = none :=
    List.isEmpty_iff.trans List.filterMap_eq_nil_iff
  unfold unlessEmptyRecord
  split
  · next blank => exact ⟨fun _ => blank_iff.mp blank, fun _ => rfl⟩
  · next filled => exact ⟨nofun, fun absent => absurd (blank_iff.mpr absent) filled⟩

/-- Inlined fields are all left out just if there are none. -/
theorem inlined_eq_none {write : α → Value} {t : Table α} :
    (∀ w ∈ inlined write t, w = none) ↔ t = .empty := by
  constructor
  · intro absent
    apply Table.ext
    cases entries : t.entries with
    | nil => rfl
    | cons first rest =>
      have := absent (some (first.1, write first.2)) (by simp [inlined, entries])
      nomatch this
  · rintro rfl w hw
    nomatch hw

end Written

/-! ## Tables among the fields of a record -/

theorem View.untaggedValue?_tree {v : Value} (untagged : hasTag v = false) :
    untaggedValue? (.tree v) = some v := by
  simp [untaggedValue?, untagged]

/-- A table whose bindings can stand among the fields of a record that has one field of its own,
    called `name`: it does not bind that name, and holds no tags. -/
structure IsFlat (name : String) (t : Table Value) : Prop where
  free : t.get? name = none
  untagged : ∀ e ∈ t.entries, View.hasTag e.2 = false

theorem IsFlat.empty (name : String) : IsFlat name .empty := ⟨rfl, nofun⟩

/-- The name that has a meaning of its own is not looked up among the bindings. -/
theorem IsFlat.flatMap_places {name : String} {t : Table Value} (flat : IsFlat name t) :
    (Written.inlined id t).flatMap (Written.places name) = [] := by
  simp only [Written.inlined, List.flatMap_map, List.flatMap_eq_nil_iff]
  intro e he
  simp [Written.places, Table.ne_of_get?_eq_none flat.free he]

/-- The fields beside a given one read back, if none of them is called like it or holds a tag. -/
theorem IsFlat.others?_written {name : String} {t : Table Value} {w : Written}
    (flat : IsFlat name t) (called : Written.IsCalled name w) :
    (Fields.written (w :: Written.inlined id t)).others? name = some t := by
  have bindings : (Fields.written (w :: Written.inlined id t)).entries.filter (·.1 != name) =
      t.entries.map fun e => (e.1, View.tree e.2) := by
    have others : (t.entries.map fun e => (e.1, View.tree e.2)).filter (·.1 != name) =
        t.entries.map fun e => (e.1, View.tree e.2) := by
      rw [List.filter_eq_self]
      intro field hf
      obtain ⟨e, he, rfl⟩ := List.mem_map.mp hf
      simpa using Table.ne_of_get?_eq_none flat.free he
    cases w with
    | none => simpa [Fields.written, Written.inlined, List.filterMap_map] using others
    | some field =>
      have same : field.1 = name := called field rfl
      simpa [Fields.written, Written.inlined, List.filterMap_map, same] using others
  -- values without tags read back as they are
  have read : ∀ entries : List (String × Value), (∀ e ∈ entries, View.hasTag e.2 = false) →
      (entries.map fun e => (e.1, View.tree e.2)).mapM (fun (field : String × View) =>
        field.2.untaggedValue?.map fun value => (field.1, value)) = some entries := by
    intro entries untagged
    induction entries with
    | nil => rfl
    | cons first rest ih =>
      have here := View.untaggedValue?_tree (untagged first List.mem_cons_self)
      have others := ih fun e he => untagged e (List.mem_cons_of_mem _ he)
      rw [List.map_cons, List.mapM_cons, others, here]
      rfl
  rw [Fields.others?, bindings, read t.entries flat.untagged, Option.map_some, Table.ofList_entries]

/-- Every result of a list of readings comes from one of them. -/
theorem exists_of_mapM_eq_some {α β : Type} {f : α → Option β} {items : List α} {found : List β}
    (all : items.mapM f = some found) {y : β} (hy : y ∈ found) : ∃ x ∈ items, f x = some y := by
  induction items generalizing found with
  | nil =>
    obtain rfl : [] = found := by simpa using all
    nomatch hy
  | cons first rest ih =>
    simp only [List.mapM_cons, Option.bind_eq_bind, Option.bind_eq_some_iff, Option.pure_def,
      Option.some.injEq] at all
    obtain ⟨z, read, others, others_read, rfl⟩ := all
    rcases List.mem_cons.mp hy with rfl | hy
    · exact ⟨first, List.mem_cons_self, read⟩
    · obtain ⟨x, hx, fx⟩ := ih others_read hy
      exact ⟨x, List.mem_cons_of_mem _ hx, fx⟩

/-- Fields that were read beside a given one are flat. -/
theorem isFlat_of_others? {fields : Fields} {name : String} {t : Table Value}
    (others : fields.others? name = some t) : IsFlat name t := by
  obtain ⟨entries, read, rfl⟩ := Option.map_eq_some_iff.mp others
  have origin : ∀ e ∈ (Table.ofList entries).entries, e.1 ≠ name ∧ View.hasTag e.2 = false := by
    intro e he
    obtain ⟨field, hf, untagged⟩ := exists_of_mapM_eq_some read (Table.mem_of_mem_ofList he)
    obtain ⟨value, plain, rfl⟩ := Option.map_eq_some_iff.mp untagged
    have kept := (List.mem_filter.mp hf).2
    have tagless := (Option.filter_eq_some_iff.mp plain).2
    exact ⟨by simpa using kept, by simpa using tagless⟩
  exact ⟨Table.get?_eq_none_of_ne fun e he => (origin e he).1, fun e he => (origin e he).2⟩

/-- A field that may be missing has its default, or was read from somewhere. -/
theorem exists_of_withDefault? {α : Type} {fields : Fields} {name : String}
    {read : View → Option α} {default x : α}
    (found : fields.withDefault? name read default = some x) :
    default = x ∨ ∃ view, read view = some x := by
  unfold Fields.withDefault? at found
  split at found
  · exact .inl (Option.some.inj found)
  · next view _ => exact .inr ⟨view, found⟩
  · nomatch found

/-- Every item of a field that holds a list was read from somewhere. -/
theorem exists_of_withDefault?_list {α : Type} {fields : Fields} {name : String}
    {read : View → Option α} {items : List α}
    (found : fields.withDefault? name (View.list? read) [] = some items) {x : α} (hx : x ∈ items) :
    ∃ view, read view = some x := by
  rcases exists_of_withDefault? found with rfl | ⟨view, listed⟩
  · nomatch hx
  · obtain ⟨views, -, all⟩ := Option.bind_eq_some_iff.mp listed
    obtain ⟨view, -, here⟩ := exists_of_mapM_eq_some all hx
    exact ⟨view, here⟩

/-! ## Values of the simplest kinds -/

section

variable {α : Type}

theorem recovers_string (s : String) : Recovers View.text? Value.string s := ⟨nofun, rfl⟩

theorem recovers_bool (b : Bool) : Recovers View.bool? Value.bool b := ⟨nofun, rfl⟩

theorem recovers_int32 (n : Int32) : Recovers View.int32? Value.int32 n :=
  ⟨nofun, View.int32?_int32 n⟩

theorem recovers_int64 (n : Int64) : Recovers View.int64? Value.int64 n :=
  ⟨nofun, View.int64?_int64 n⟩

theorem recovers_list {read : View → Option α} {write : α → Value} {items : List α}
    (recovers : ∀ x ∈ items, Recovers read write x) :
    Recovers (View.list? read) (Value.list write) items :=
  ⟨nofun, View.list?_list recovers⟩

theorem recovers_texts (t : Table String) :
    Recovers (View.table? View.text?) (Value.table Value.string) t :=
  ⟨nofun, View.table?_table View.text?_string⟩

/-- A record reads back if its fields do. -/
theorem recovers_record {ofFields? : Fields → Option α} {fields : α → List Written} {x : α}
    (reads : ofFields? (.written (fields x)) = some x) :
    Recovers (fun view => view.fields? >>= ofFields?) (fun x => .record (fields x)) x :=
  ⟨nofun, by simpa using reads⟩

end

end DeployManifest.Yaml
