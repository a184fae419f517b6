import DeployManifest.Proofs.EntryOrder

/-!
# What removing changes

An operation that removes takes one child out of one container, the target that its path leads to, and
leaves the rest of the tree as it is (`IsWithout`).  If it fails, it leaves the whole tree as it is: the
only thing that it changes on its way, a null under an optional step, is changed just where the step is
about to succeed for want of a target.

Main statement: `remove_target`.  It rests on `remove_cons`, which says once what a step can do.

- `IsWithout`: a tree without what stands at an address, told by entries and items.
- `Removal`: what one step of a removal can do.
- `remove_target_item`: an item in the middle of a sequence.
-/

namespace DeployManifest.Patch

open Yaml (Value Entries)

variable {node child last left target : Value} {entries : Entries} {items : List Value}
  {branch : Branch} {address place : Address} {isOptional : Bool} {step : Step} {steps : List Step}

/-! ## Taking out a child -/

/-- A node without the child at a branch. -/
def dropChild (node : Value) : Branch → Value
  | .key key =>
    match entries? node with
    | some entries => withContent (.map ((Value.removeKey? key entries).getD entries)) node
    | none => node
  | .index n =>
    match items? node with
    | some items => withContent (.seq (items.eraseIdx n)) node
    | none => node

/-- Whether a tree is another one without the entry or item at an address.  Items behind it move up, and
    the other entries of its mapping stay, in whatever order.  On the way there the tags stay, and all
    children but the one that leads on, each in its place. -/
inductive IsWithout : Address → Value → Value → Prop where
  | item {node less : Value} {items : List Value} {n : Nat} (seq : items? node = some items)
    (lt : n < items.length) (kept : tags less = tags node) (seq' : items? less = some (items.eraseIdx n)) :
    IsWithout [.index n] node less
  | entry {node value less : Value} {name : String} {before behind others : Entries}
    (map : entries? node = some (before ++ (.string name, value) :: behind))
    (first : ∀ e ∈ before, e.1 ≠ .string name) (kept : tags less = tags node)
    (map' : entries? less = some others) (rest : others.Perm (before ++ behind)) :
    IsWithout [.key (.string name)] node less
  | insideItem {node child less whole : Value} {items : List Value} {n : Nat} {address : Address}
    (seq : items? node = some items) (there : items[n]? = some child)
    (without : IsWithout address child less) (kept : tags whole = tags node)
    (seq' : items? whole = some (items.set n less)) : IsWithout (.index n :: address) node whole
  | insideEntry {node child less whole : Value} {name : String} {before behind : Entries} {address : Address}
    (map : entries? node = some (before ++ (.string name, child) :: behind))
    (first : ∀ e ∈ before, e.1 ≠ .string name) (without : IsWithout address child less)
    (kept : tags whole = tags node) (map' : entries? whole = some (before ++ (.string name, less) :: behind)) :
    IsWithout (.key (.string name) :: address) node whole

/-- An entry that is found is the first one with its key. -/
theorem exists_middle_of_lookup? {name : String} {value : Value}
    (bound : Value.lookup? (.string name) entries = some value) :
    ∃ before behind, entries = before ++ (.string name, value) :: behind ∧
      ∀ e ∈ before, e.1 ≠ .string name := by
  induction entries with
  | nil => nomatch bound
  | cons e rest ih =>
    obtain ⟨key, v⟩ := e
    unfold Value.lookup? at bound
    split at bound
    · next same =>
      obtain rfl := Value.same_string_iff.mp same
      obtain rfl := Option.some.inj bound
      exact ⟨[], rest, rfl, List.forall_mem_nil _⟩
    -- the first entry has another key, so the search goes on
    · next differs =>
      obtain ⟨before, behind, rfl, first⟩ := ih bound
      refine ⟨(key, v) :: before, behind, rfl, List.forall_mem_cons.mpr ⟨?_, first⟩⟩
      exact fun same => differs (Value.same_string_iff.mpr same)

/-- The entry of a key is the first one with it; when it is removed, the last entry takes its place. -/
theorem exists_removeKey? {name : String} {value : Value}
    (bound : Value.lookup? (.string name) entries = some value) :
    ∃ before behind others, entries = before ++ (.string name, value) :: behind ∧
      (∀ e ∈ before, e.1 ≠ .string name) ∧ Value.removeKey? (.string name) entries = some others ∧
      others.Perm (before ++ behind) := by
  obtain ⟨before, behind, rfl, first⟩ := exists_middle_of_lookup? bound
  have place : Value.position? (.string name) (before ++ (.string name, value) :: behind) =
      some before.length := by
    refine List.findIdx?_eq_some_iff_getElem.mpr ⟨by simp, by simp [Value.same], fun j lt => ?_⟩
    rw [List.getElem_append_left lt]
    intro same
    exact first _ (List.getElem_mem lt) (Value.same_string_iff.mp same)
  refine ⟨before, behind, _, rfl, first, by rw [Value.removeKey?, place, Option.map_some], ?_⟩
  -- the last entry takes the place of the removed one, unless it is the removed one
  rcases List.eq_nil_or_concat behind with rfl | ⟨more, end_, rfl⟩
  · simp
  · rw [List.concat_eq_append]
    have last : (before ++ (.string name, value) :: (more ++ [end_])).getLast? = some end_ := by
      simp [List.getLast?_append, List.getLast?_cons]
    have moved : (before ++ (.string name, value) :: (more ++ [end_])).set before.length end_ =
        (before ++ end_ :: more) ++ [end_] := by
      rw [List.set_append_right _ _ (Nat.le_refl _)]
      simp
    rw [last]
    dsimp only
    rw [moved, List.dropLast_concat]
    exact (List.perm_append_singleton end_ more).symm.append_left before

/-- A container without one of its children is without what stands at that branch. -/
theorem isWithout_dropChild (opened : IsOpen node branch) (there : child? node branch = some child) :
    IsWithout [branch] node (dropChild node branch) := by
  unfold dropChild
  cases opened with
  | key map =>
    rw [child?_key map] at there
    obtain ⟨before, behind, others, rfl, first, removed, rest⟩ := exists_removeKey? there
    rw [map]
    dsimp only
    rw [removed]
    exact .entry map first (tags_withContent rfl) entries?_withContent_map rest
  | index seq =>
    rw [child?_index seq] at there
    obtain ⟨lt, -⟩ := List.getElem?_eq_some_iff.mp there
    rw [seq]
    exact .item seq lt (tags_withContent rfl) items?_withContent_seq

/-- A child that is less makes the node less, in the place of this child. -/
theorem IsWithout.inside {less : Value} (opened : IsOpen node branch) (there : child? node branch = some child)
    (without : IsWithout address child less) : IsWithout (branch :: address) node (putChild node branch less) := by
  cases opened with
  | key map =>
    rw [child?_key map] at there
    rw [putChild_key map]
    obtain ⟨before, behind, rfl, first⟩ := exists_middle_of_lookup? there
    rw [Value.insert_middle first]
    exact .insideEntry map first without (tags_withContent rfl) entries?_withContent_map
  | index seq =>
    rw [child?_index seq] at there
    obtain ⟨lt, -⟩ := List.getElem?_eq_some_iff.mp there
    rw [putChild_set seq lt]
    exact .insideItem seq there without (tags_withContent rfl) items?_withContent_seq

/-- Where less is left inside a node, the node has another child there and is the same beside it. -/
theorem IsWithout.exists_putChild (without : IsWithout (branch :: address) node last) (more : address ≠ []) :
    ∃ child less, IsOpen node branch ∧ child? node branch = some child ∧ IsWithout address child less ∧
      last = putChild node branch less := by
  cases without with
  | item | entry => exact absurd rfl more
  | insideItem seq there without kept seq' =>
    obtain ⟨lt, -⟩ := List.getElem?_eq_some_iff.mp there
    refine ⟨_, _, .index seq (Nat.le_of_lt lt), (child?_index seq _).trans there, without, ?_⟩
    rw [putChild_set seq lt]
    exact eq_withContent_seq kept seq'
  | insideEntry map first without kept map' =>
    refine ⟨_, _, .key map, (child?_key map _).trans (Value.lookup?_middle first), without, ?_⟩
    rw [putChild_key map, Value.insert_middle first]
    exact eq_withContent_map kept map'

/-- What stands neither in the container of what was taken out, nor on the way there, stays. -/
theorem IsWithout.at?_of_outside (without : IsWithout address node last)
    (aside : ¬ address.dropLast <+: place) (beside : ¬ place <+: address.dropLast) :
    at? last place = at? node place := by
  induction address generalizing node last place with
  | nil => nomatch without
  | cons branch address ih =>
    by_cases more : address = []
    · subst more
      exact absurd List.nil_prefix aside
    · obtain ⟨child, less, opened, there, inside, rfl⟩ := without.exists_putChild more
      rw [List.dropLast_cons_of_ne_nil more] at aside beside
      cases place with
      | nil => exact absurd List.nil_prefix beside
      | cons first rest =>
        -- the place parts from the way here, or further down
        by_cases same : first = branch
        · subst same
          rw [List.cons_prefix_cons, not_and] at aside beside
          rw [at?_putChild_self opened, at?_cons, there, Option.bind_some]
          exact ih inside (aside rfl) (beside rfl)
        · exact at?_putChild_of_ne opened same

/-! ## One step -/

/-- Whether a step leads to no child of a node; `isOptional` tells whether a step in front of it is
    optional. -/
def LeadsNowhere (isOptional : Bool) (step : Step) (node : Value) : Prop :=
  ∀ branch, Takes (isOptional || step.isOptional) (some node) step branch → child? node branch = none

/-- All that a step of a removal can do. -/
inductive Removal (isOptional : Bool) (step : Step) (rest : List Step) (node : Value) : Outcome → Prop where
  | taken {branch : Branch} {child : Value}
    (takes : Takes (isOptional || step.isOptional) (some node) step branch) (opened : IsOpen node branch)
    (there : child? node branch = some child) (last : rest = []) :
    Removal isOptional step rest node (dropChild node branch, none)
  | inside {branch : Branch} {child : Value}
    (takes : Takes (isOptional || step.isOptional) (some node) step branch) (opened : IsOpen node branch)
    (there : child? node branch = some child) (more : rest ≠ []) :
    Removal isOptional step rest node
      (putChild node branch (remove (isOptional || step.isOptional) rest child).1,
        (remove (isOptional || step.isOptional) rest child).2)
  | failed (nowhere : LeadsNowhere isOptional step node) (failure : Failure) :
    Removal isOptional step rest node (node, some failure)
  | unneeded (nowhere : LeadsNowhere isOptional step node) (optional : (isOptional || step.isOptional) = true) :
    Removal isOptional step rest node (step.enter node, none)

section

variable (isOptional : Bool) (rest : List Step)

/-- A step that leads to a child takes it out if it is the last one, and goes on inside it if not. -/
theorem removal_of_found (takes : Takes (isOptional || step.isOptional) (some node) step branch)
    (opened : IsOpen node branch) (there : child? node branch = some child) :
    Removal isOptional step rest node
      (if rest.isEmpty then (dropChild node branch, none)
      else (putChild node branch (remove (isOptional || step.isOptional) rest child).1,
        (remove (isOptional || step.isOptional) rest child).2)) := by
  split
  · next last => exact .taken takes opened there (List.isEmpty_iff.mp last)
  · next more => exact .inside takes opened there fun last => more (List.isEmpty_iff.mpr last)

/-- The step to a key that is bound: the entry is taken out, or the removal goes on in its value. -/
theorem removal_of_entry {name : String}
    (takes : Takes (isOptional || step.isOptional) (some node) step (.key (.string name)))
    (map : entries? node = some entries) (bound : Value.lookup? (.string name) entries = some child) :
    Removal isOptional step rest node
      (if rest.isEmpty then
        (withContent (.map ((Value.removeKey? (.string name) entries).getD entries)) node, none)
      else
        (withContent (.map (Value.insert (.string name)
          (remove (isOptional || step.isOptional) rest child).1 entries)) node,
        (remove (isOptional || step.isOptional) rest child).2)) := by
  have found := removal_of_found isOptional rest takes (.key map) ((child?_key map _).trans bound)
  rwa [dropChild, map, putChild_key map] at found

/-- The step to an item that is there: it is taken out, or the removal goes on in it. -/
theorem removal_of_item {n : Nat} (takes : Takes (isOptional || step.isOptional) (some node) step (.index n))
    (seq : items? node = some items) (item : items[n]? = some child) :
    Removal isOptional step rest node
      (if rest.isEmpty then (withContent (.seq (items.eraseIdx n)) node, none)
      else
        (withContent (.seq (items.set n (remove (isOptional || step.isOptional) rest child).1)) node,
        (remove (isOptional || step.isOptional) rest child).2)) := by
  obtain ⟨lt, -⟩ := List.getElem?_eq_some_iff.mp item
  have found := removal_of_found isOptional rest takes (.index seq (Nat.le_of_lt lt))
    ((child?_index seq n).trans item)
  rwa [dropChild, seq, putChild_set seq lt] at found

/-- A step that leads nowhere leaves the node alone; it fails unless it is optional. -/
theorem removal_of_nowhere (nowhere : LeadsNowhere isOptional step node)
    (entered : step.enter node = node) (failure : Failure) :
    Removal isOptional step rest node
      (node, if isOptional || step.isOptional then none else some failure) := by
  split
  · next optional =>
    have unneeded : Removal isOptional step rest node (step.enter node, none) := .unneeded nowhere optional
    rwa [entered] at unneeded
  · exact .failed nowhere failure

/-- An optional step that meets a null enters it, and finds nothing there. -/
theorem removal_of_null (optional : step.isOptional = true) (null : node.untagged = .null) :
    Removal isOptional step rest node (step.enter node, none) :=
  .unneeded (fun _ _ => (IsBlank.null null).bind_child?) (by simp [optional])

/-- What a step of a removal can do. -/
theorem remove_cons (step : Step) (node : Value) :
    Removal isOptional step rest node (remove isOptional (step :: rest) node) := by
  unfold remove
  cases step with
  | key name marked =>
    have takes {branch} (taken : Takes (isOptional || marked) (some node) (.key name marked) branch) :
        branch = .key (.string name) := by cases taken; rfl
    -- a null that an optional step turns into a container holds nothing to remove
    rcases enter_cases (.key name marked) node with entered | ⟨optional, null, container⟩
    · simp only [entered]
      cases map : entries? node with
      | none => exact .failed (fun _ taken => by rw [takes taken]; simp [child?, map]) _
      | some entries =>
        cases bound : Value.lookup? (.string name) entries with
        | none =>
          simp only [bound]
          refine removal_of_nowhere isOptional rest (fun _ taken => ?_) entered _
          rw [takes taken, child?_key map, bound]
        | some value =>
          simp only [bound]
          exact removal_of_entry isOptional rest (.key name marked) map bound
    · have unneeded := removal_of_null isOptional rest optional null
      rw [container] at unneeded ⊢
      simpa [Step.container, entries?, Value.untagged, Value.lookup?, optional] using unneeded
  | index n =>
    have takes {branch} (taken : Takes (isOptional || false) (some node) (.index n) branch) :
        branch = .index n := by cases taken; rfl
    cases seq : items? node with
    | none => exact .failed (fun _ taken => by rw [takes taken]; simp [child?, seq]) _
    | some items =>
      cases item : items[n]? with
      | none =>
        simp only [item]
        exact .failed (fun _ taken => by rw [takes taken, child?_index seq, item]) _
      | some value =>
        simp only [item]
        exact removal_of_item isOptional rest (.index n) seq item
  | afterLast =>
    refine .failed (fun branch taken => ?_) _
    cases taken with
    | afterLast seq => exact child?_index_length seq
  | matching field value marked =>
    rcases enter_cases (.matching field value marked) node with entered | ⟨optional, null, container⟩
    · simp only [entered]
      cases seq : items? node with
      | none => exact .failed (fun _ taken => by cases taken <;> simp [child?, seq]) _
      | some items =>
        have there := itemsAt?_of_items? seq
        cases place : position? field value items with
        | none =>
          simp only [place]
          refine removal_of_nowhere isOptional rest (fun _ taken => ?_) entered _
          cases taken with
          | first seq first =>
            obtain rfl := Option.some.inj (there.symm.trans seq)
            cases place.symm.trans first
          | behind _ seq => exact child?_index_length seq
        | some n =>
          obtain ⟨lt, -⟩ := List.findIdx?_eq_some_iff_getElem.mp place
          have item : items[n]? = some (items.getD n .null) := by simp [List.getD, lt]
          simp only [place]
          exact removal_of_item isOptional rest (.first there place) seq item
    · have unneeded := removal_of_null isOptional rest optional null
      rw [container] at unneeded ⊢
      simpa [Step.container, items?, Value.untagged, position?, optional] using unneeded

end

/-! ## All steps -/

/-- A removal that fails changes nothing: a null is entered only by steps that succeed. -/
theorem eq_of_remove {failure : Failure} (failed : remove isOptional steps node = (left, some failure)) :
    left = node := by
  induction steps generalizing isOptional node left with
  | nil => exact (congrArg Prod.fst failed).symm
  | cons step rest ih =>
    have removal := remove_cons isOptional rest step node
    rw [failed] at removal
    generalize outcome : (left, some failure) = result at removal
    cases removal with
    | taken => nomatch outcome
    | failed => exact congrArg Prod.fst outcome
    | unneeded => nomatch outcome
    | @inside branch child takes opened there more =>
      obtain ⟨rfl, finished⟩ := Prod.mk.inj outcome
      have same : (remove (isOptional || step.isOptional) rest child).1 = child :=
        ih (Prod.ext rfl finished.symm)
      rw [same, putChild_child there]

/-- A removal whose steps lead to something takes it out. -/
theorem exists_isWithout_of_remove (more : steps ≠ []) (resolves : Resolves isOptional steps (some node) address)
    (there : at? node address = some target) :
    ∃ last, remove isOptional steps node = (last, none) ∧ IsWithout address node last := by
  induction steps generalizing isOptional node address with
  | nil => exact absurd rfl more
  | cons step rest ih =>
    cases resolves with
    | @step _ _ _ _ branch address takes later =>
    obtain ⟨child, found, there⟩ := Option.bind_eq_some_iff.mp there
    have removal := remove_cons isOptional rest step node
    generalize remove isOptional (step :: rest) node = outcome at removal ⊢
    -- the step leads on to the target, so the removal neither fails here nor finds nothing
    cases removal with
    | failed nowhere | unneeded nowhere => nomatch found.symm.trans (nowhere branch takes)
    | taken takes_too opened found_too last =>
      obtain rfl := takes.unique takes_too
      subst last
      cases later with
      | here => exact ⟨_, rfl, isWithout_dropChild opened found⟩
    | inside takes_too opened found_too more =>
      obtain rfl := takes.unique takes_too
      obtain rfl := Option.some.inj (found.symm.trans found_too)
      rw [Option.bind_some, found] at later
      obtain ⟨less, removed, without⟩ := ih more later there
      rw [removed]
      exact ⟨_, rfl, .inside opened found without⟩

/-- A removal that fails leaves the tree as it is; and where its path leads to something, it succeeds and
    takes just that out of its container, outside of which everything stays. -/
theorem remove_target (path : Path) (tree : Value) :
    (∀ left failure, (Operation.mk .remove path).apply tree = (left, some failure) → left = tree) ∧
    ∀ address target, path.steps ≠ [] → Resolves false path.steps (some tree) address →
      at? tree address = some target →
      ∃ last, (Operation.mk .remove path).apply tree = (last, none) ∧ IsWithout address tree last ∧
        ∀ place, ¬ address.dropLast <+: place → ¬ place <+: address.dropLast →
          at? last place = at? tree place := by
  refine ⟨fun left failure failed => eq_of_remove failed, fun address target more resolves there => ?_⟩
  obtain ⟨last, removed, without⟩ := exists_isWithout_of_remove more resolves there
  exact ⟨last, removed, without, fun place => without.at?_of_outside⟩

/-- Three jobs, one of which is no more than a name. -/
def threeJobs : Value :=
  .map [(.string "jobs", .seq [.map [(.string "name", .string "web")], .map [(.string "name", .string "db")],
    .string "cron"]), (.string "tags", .null)]

/-- The same without the second job. -/
def twoJobs : Value :=
  .map [(.string "jobs", .seq [.map [(.string "name", .string "web")], .string "cron"]), (.string "tags", .null)]

/-- The path to the job that is called `db`. -/
def nameOfDb : Path := ⟨"/jobs/name=db", [.key "jobs" false, .matching "name" "db" false]⟩

/-- The first item with a name is taken out from between two others. -/
theorem remove_target_item :
    Path.parse "/jobs/name=db" = .ok nameOfDb ∧
    at? threeJobs [.key (.string "jobs"), .index 1] = some (.map [(.string "name", .string "db")]) ∧
    (Operation.mk .remove nameOfDb).apply threeJobs = (twoJobs, none) ∧
      IsWithout [.key (.string "jobs"), .index 1] threeJobs twoJobs ∧
      ∀ place, ¬ [.key (.string "jobs")] <+: place → ¬ place <+: [.key (.string "jobs")] →
        at? twoJobs place = at? threeJobs place := by
  have there : at? threeJobs [.key (.string "jobs"), .index 1] = some (.map [(.string "name", .string "db")]) := by
    decide +kernel
  have resolves : Resolves false nameOfDb.steps (some threeJobs) [.key (.string "jobs"), .index 1] :=
    .step (.key "jobs" false) (.step (.first (itemsAt?_of_items? rfl) (by decide +kernel)) (.here _ _))
  obtain ⟨last, removed, without, outside⟩ := (remove_target nameOfDb threeJobs).2 _ _ (by decide) resolves there
  have result : (Operation.mk .remove nameOfDb).apply threeJobs = (twoJobs, none) := by decide +kernel
  obtain rfl : twoJobs = last := congrArg Prod.fst (result.symm.trans removed)
  exact ⟨by decide +kernel, there, result, without, outside⟩

end DeployManifest.Patch
