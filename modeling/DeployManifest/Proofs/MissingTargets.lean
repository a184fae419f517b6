import DeployManifest.Proofs.OptionalSteps
import DeployManifest.Proofs.Removing

/-!
# Removing what is not there

The path of a removal may stop on its way: at a node that has no such key, or no item that matches.  If
the step that finds nothing is optional, or stands behind an optional one, there is nothing to be done
(`StopsAt`).

The removal then succeeds, and the tree stays as it is, unless the node where the path stops is a null.
Such a null is entered like one in a replacement, and an empty container stays in its place, without the
tags of the null (`not_forall_remove_stopped`).  Nothing else changes.

Main statement: `remove_stopped`.  It rests on `remove_of_findsNothing`, for the step that finds nothing,
and on `remove_of_takes`, for the steps in front of it.

- `putAt`: a tree with something else at an address.
- `FindsNothing`, `StopsAt`: steps that find nothing, and where a path stops.
- `remove_stopped_jobs`: a match and a null that a path stops at.
-/

namespace DeployManifest.Patch

open Yaml (Value Entries)

variable {node stop child : Value} {branch : Branch} {address : Address} {isOptional : Bool}
  {step last : Step} {steps rest : List Step}

/-! ## Something else at an address -/

/-- A tree with something else at an address where something stands. -/
def putAt (node : Value) : Address → Value → Value
  | [], new => new
  | branch :: rest, new =>
    match child? node branch with
    | some child => putChild node branch (putAt child rest new)
    | none => node

theorem putAt_cons (there : child? node branch = some child) (address : Address) (new : Value) :
    putAt node (branch :: address) new = putChild node branch (putAt child address new) := by
  rw [putAt, there]

/-- What stands at an address already changes nothing. -/
theorem putAt_of_at? (there : at? node address = some stop) : putAt node address stop = node := by
  induction address generalizing node with
  | nil => exact (Option.some.inj there).symm
  | cons branch rest ih =>
    obtain ⟨child, found, there⟩ := Option.bind_eq_some_iff.mp there
    rw [putAt_cons found, ih there, putChild_child found]

/-! ## Where paths stop -/

/-- Whether a key or a match finds nothing at a node: the mapping does not have the key, no item of the
    sequence matches, or there is a null, where there is neither. -/
inductive FindsNothing : Step → Value → Prop where
  | key {node : Value} {entries : Entries} {name : String} {marked : Bool}
    (map : entries? node = some entries) (unbound : Value.lookup? (.string name) entries = none) :
    FindsNothing (.key name marked) node
  | matching {node : Value} {items : List Value} {field value : String} {marked : Bool}
    (seq : items? node = some items) (unmatched : position? field value items = none) :
    FindsNothing (.matching field value marked) node
  | null {node : Value} {step : Step} (markable : step.isMarkable = true) (null : node.untagged = .null) :
    FindsNothing step node

/-- Whether steps lead from a node to another one, at an address below it, where a step finds nothing that
    is optional or stands behind an optional one; `isOptional` tells whether one in front of all these
    steps is. -/
inductive StopsAt : Bool → List Step → Value → Address → Step → Value → Prop where
  | here {isOptional : Bool} {step : Step} {rest : List Step} {node : Value}
    (optional : (isOptional || step.isOptional) = true) (nothing : FindsNothing step node) :
    StopsAt isOptional (step :: rest) node [] step node
  | inside {isOptional : Bool} {step last : Step} {rest : List Step} {node child stop : Value}
    {branch : Branch} {address : Address}
    (takes : Takes (isOptional || step.isOptional) (some node) step branch)
    (there : child? node branch = some child)
    (later : StopsAt (isOptional || step.isOptional) rest child address last stop) :
    StopsAt isOptional (step :: rest) node (branch :: address) last stop

/-- Where a path stops, the node stands at which it does. -/
theorem StopsAt.at? (stops : StopsAt isOptional steps node address last stop) :
    at? node address = some stop := by
  induction stops with
  | here => rfl
  | inside _ there _ ih => rw [at?_cons, there, Option.bind_some, ih]

theorem FindsNothing.isMarkable (nothing : FindsNothing step node) : step.isMarkable = true := by
  cases nothing with
  | key | matching => rfl
  | null markable => exact markable

theorem StopsAt.ne_nil (stops : StopsAt isOptional steps node address last stop) : steps ≠ [] := by
  cases stops <;> simp

/-! ## The removal -/

/-- A step with a mark that finds nothing enters the node, and leaves it at that. -/
theorem remove_of_findsNothing (optional : step.isOptional = true) (nothing : FindsNothing step node)
    (isOptional : Bool) (rest : List Step) :
    remove isOptional (step :: rest) node = (step.enter node, none) := by
  -- no entry, no item, or a null that becomes a container
  cases nothing with
  | @key node entries name marked map unbound =>
    have entered : (Step.key name marked).enter node = node :=
      enter_of_ne_null (by simp [entries?_eq_some_iff.mp map])
    unfold remove
    simp [entered, map, unbound, optional]
  | @matching node items field value marked seq unmatched =>
    have entered : (Step.matching field value marked).enter node = node :=
      enter_of_ne_null (by simp [items?_eq_some_iff.mp seq])
    unfold remove
    simp [entered, seq, unmatched, optional]
  | null markable null =>
    have entered := enter_of_null optional null
    unfold remove
    cases step with
    | key name marked =>
      simp [entered, Step.container, entries?, Value.untagged, Value.lookup?, optional]
    | matching field value marked =>
      simp [entered, Step.container, items?, Value.untagged, position?, optional]
    | index | afterLast => cases markable

/-- A step that leads to a child goes on inside it, unless it is the last one. -/
theorem remove_of_takes (takes : Takes (isOptional || step.isOptional) (some node) step branch)
    (there : child? node branch = some child) (more : rest ≠ []) :
    remove isOptional (step :: rest) node =
      (putChild node branch (remove (isOptional || step.isOptional) rest child).1,
        (remove (isOptional || step.isOptional) rest child).2) := by
  have removal := remove_cons isOptional rest step node
  generalize remove isOptional (step :: rest) node = outcome at removal ⊢
  cases removal with
  | failed nowhere | unneeded nowhere => nomatch there.symm.trans (nowhere branch takes)
  | taken _ _ _ last => exact absurd last more
  | inside takes_too _ there_too =>
    obtain rfl := takes.unique takes_too
    obtain rfl := Option.some.inj (there.symm.trans there_too)
    rfl

/-- A removal whose path stops enters the node where it stops and changes nothing else.  The induction is
    on the way there; the marks on it are carried on to the step that finds nothing. -/
theorem remove_of_stopsAt (stops : StopsAt isOptional steps node address last stop)
    (carries : CarriesOn isOptional steps) :
    last.isOptional = true ∧ remove isOptional steps node = (putAt node address (last.enter stop), none) := by
  induction stops with
  | here optional nothing =>
    have marked := carries.isOptional_of_markable nothing.isMarkable optional
    exact ⟨marked, remove_of_findsNothing marked nothing _ _⟩
  | inside takes there later ih =>
    obtain ⟨marked, removed⟩ := ih carries.2
    rw [remove_of_takes takes there later.ne_nil, removed, putAt_cons there]
    exact ⟨marked, rfl⟩

/-- A removal whose path stops at an optional step succeeds.  It leaves the tree as it is unless the path
    stops at a null, and in that case puts an empty container of the kind that the step asks for in the
    place of the null. -/
theorem remove_stopped {path : Path} {tree : Value} (read : Path.parse path.text = .ok path)
    (stops : StopsAt false path.steps tree address last stop) :
    (stop.untagged ≠ .null → (Operation.mk .remove path).apply tree = (tree, none)) ∧
    (stop.untagged = .null →
      (Operation.mk .remove path).apply tree = (putAt tree address last.container, none)) := by
  obtain ⟨marked, removed⟩ := remove_of_stopsAt stops (carriesOn_of_parse read)
  show (_ → remove false path.steps tree = _) ∧ (_ → remove false path.steps tree = _)
  rw [removed]
  constructor
  · intro not_null
    rw [enter_of_ne_null not_null, putAt_of_at? stops.at?]
  · intro null
    rw [enter_of_null marked null]

/-- A job whose tags are a null with a tag. -/
def webWithTags : Value :=
  .map [(.string "name", .string "web"), (.string "tags", .tagged "none" .null)]

/-- A document with this job only. -/
def onlyWebWithTags : Value := .map [(.string "jobs", .seq [webWithTags])]

/-- A path to a job that is not there. -/
def zoneOfDb : Path :=
  ⟨"/jobs/name=db?/0/zone", [.key "jobs" false, .matching "name" "db" true, .index 0, .key "zone" true]⟩

/-- A path through the null. -/
def zoneOfWeb : Path :=
  ⟨"/jobs/name=web?/tags/zone", [.key "jobs" false, .matching "name" "web" true, .key "tags" true,
    .key "zone" true]⟩

/-- A path that stops at a match which finds nothing, and one that stops at a null behind an optional
    step. -/
theorem remove_stopped_jobs :
    Path.parse "/jobs/name=db?/0/zone" = .ok zoneOfDb ∧ Path.parse "/jobs/name=web?/tags/zone" = .ok zoneOfWeb ∧
    (Operation.mk .remove zoneOfDb).apply onlyWebWithTags = (onlyWebWithTags, none) ∧
    (Operation.mk .remove zoneOfWeb).apply onlyWebWithTags =
      (.map [(.string "jobs", .seq [.map [(.string "name", .string "web"), (.string "tags", .map [])]])], none) := by
  have read_db : Path.parse "/jobs/name=db?/0/zone" = .ok zoneOfDb := by decide +kernel
  have read_web : Path.parse "/jobs/name=web?/tags/zone" = .ok zoneOfWeb := by decide +kernel
  have jobs : child? onlyWebWithTags (.key (.string "jobs")) = some (.seq [webWithTags]) := by decide +kernel
  have web : child? (.seq [webWithTags]) (.index 0) = some webWithTags := by decide +kernel
  have tags : child? webWithTags (.key (.string "tags")) = some (.tagged "none" .null) := by decide +kernel
  have stops_db : StopsAt false zoneOfDb.steps onlyWebWithTags [.key (.string "jobs")]
      (.matching "name" "db" true) (.seq [webWithTags]) :=
    .inside (.key "jobs" false) jobs (.here rfl (.matching rfl (by decide +kernel)))
  have first : position? "name" "web" [webWithTags] = some 0 := by decide +kernel
  have stops_web : StopsAt false zoneOfWeb.steps onlyWebWithTags
      [.key (.string "jobs"), .index 0, .key (.string "tags")] (.key "zone" true) (.tagged "none" .null) :=
    .inside (.key "jobs" false) jobs <| .inside (.first (itemsAt?_of_items? rfl) first) web <|
      .inside (.key "tags" true) tags (.here rfl (.null rfl rfl))
  have removed_web := (remove_stopped read_web stops_web).2 rfl
  have left : putAt onlyWebWithTags [.key (.string "jobs"), .index 0, .key (.string "tags")] (.map []) =
      .map [(.string "jobs", .seq [.map [(.string "name", .string "web"), (.string "tags", .map [])]])] := by
    decide +kernel
  exact ⟨read_db, read_web, (remove_stopped read_db stops_db).1 nofun, removed_web.trans (congrArg (·, none) left)⟩

/-! ## Nulls -/

/-- A document whose properties are a null. -/
def noProperties : Value := .map [(.string "properties", .null)]

/-- The path to a port among them, which is optional. -/
def portProperty : Path := ⟨"/properties/port?", [.key "properties" false, .key "port" true]⟩

/-- A removal may change a tree that does not have what it removes: a null becomes an empty mapping. -/
theorem not_forall_remove_stopped :
    ¬ ∀ (path : Path) (tree stop : Value) (address : Address) (step : Step),
      Path.parse path.text = .ok path → StopsAt false path.steps tree address step stop →
      (Operation.mk .remove path).apply tree = (tree, none) := by
  intro unchanged
  have read : Path.parse portProperty.text = .ok portProperty := by decide +kernel
  have stops : StopsAt false portProperty.steps noProperties [.key (.string "properties")] (.key "port" true) .null :=
    .inside (.key "properties" false) (by decide +kernel) (.here rfl (.null rfl rfl))
  have changed : (Operation.mk .remove portProperty).apply noProperties =
      (.map [(.string "properties", .map [])], none) := by decide +kernel
  have same := unchanged portProperty noProperties .null _ _ read stops
  rw [changed] at same
  nomatch same

end DeployManifest.Patch
