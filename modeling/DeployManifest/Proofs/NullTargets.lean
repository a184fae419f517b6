import DeployManifest.Proofs.NamedSteps
import DeployManifest.Proofs.OptionalSteps

/-!
# Replacing below a null

To a path that starts with an optional key, a null at this key is as good as no such key: a replacement fails
in both cases, or gives the same tree in both, up to the place of the key among the others
(`replace_null_agrees`).  A null that a key or a match leads through becomes the container that is created
where there is nothing; and an index finds no item in either.

There is one exception (`not_forall_replace_null_agrees`).  The place behind the last item is in a new sequence
where there is nothing, but a null is not entered for it, as it can have no mark of its own.

Main statement: `replace_null_agrees`.  It rests on `agree_null_nextContainer`, for the steps behind the key.

- `Agree`: two replacements that both fail, or give the same up to the order of entries.
- `replace_congr_enter`: a replacement depends on what its first step enters only.
- `replace_null_agrees_item`, `not_forall_replace_null_agrees`: a match behind the null, and the place
  behind the last item.
-/

namespace DeployManifest.Patch

open Yaml (Value Entries)
open Yaml.Value (Reordered)

variable {v m nothing : Value} {isOptional : Bool} {step : Step} {rest : List Step} {name : String}
  {bound unbound : Entries}

/-- Whether two outcomes agree: both are failures, or neither is and the trees are the same up to the order
    of entries. -/
inductive Agree : Outcome → Outcome → Prop where
  | failed (left right : Value) (failure failure' : Failure) :
    Agree (left, some failure) (right, some failure')
  | done {left right : Value} (same : Reordered left right) : Agree (left, none) (right, none)

/-- What agrees below a branch agrees when it is put there. -/
theorem Agree.put {first second : Outcome} {put put' : Value → Value} (agree : Agree first second)
    (reordered : ∀ left right, Reordered left right → Reordered (put left) (put' right)) :
    Agree (put first.1, first.2) (put' second.1, second.2) := by
  cases agree with
  | failed left right failure failure' => exact .failed _ _ failure failure'
  | done same => exact .done (reordered _ _ same)

theorem Agree.refl (outcome : Outcome) : Agree outcome outcome := by
  obtain ⟨left, _ | failure⟩ := outcome
  · exact .done (.refl left)
  · exact .failed left left failure failure

/-! ## The steps behind the key -/

theorem enter_container (step : Step) : step.enter step.container = step.container := by
  cases step <;> rfl

/-- A replacement looks at the node that its first step enters only. -/
theorem replace_congr_enter {node other : Value} (same : step.enter node = step.enter other) :
    replace v isOptional (step :: rest) node = replace v isOptional (step :: rest) other := by
  cases step <;> rw [replace, replace, same]

/-- A step without a mark enters every node as it is. -/
theorem enter_of_not_isOptional (fixed : step.isOptional = false) (node : Value) : step.enter node = node := by
  rcases enter_cases step node with same | ⟨optional, -, -⟩
  · exact same
  · rw [fixed] at optional
    nomatch optional

/-- A step through a sequence that has no mark of its own cannot be taken from a null. -/
theorem replace_index_null (is_null : nothing.untagged = .null) (n : Nat) :
    replace v isOptional (.index n :: rest) nothing = (nothing, some (.notASequence (toString n))) := by
  have entered : (Step.index n).enter nothing = nothing := enter_of_not_isOptional rfl nothing
  simp [replace, entered, items?, is_null, Step.text]

theorem replace_afterLast_null (is_null : nothing.untagged = .null) :
    replace v isOptional (.afterLast :: rest) nothing = (nothing, some (.notASequence "-")) := by
  have entered : Step.afterLast.enter nothing = nothing := enter_of_not_isOptional rfl nothing
  simp [replace, entered, items?, is_null, Step.text]

/-- Behind an optional step, a null is as good as the container that is created where there is nothing. -/
theorem agree_null_nextContainer (carries : CarriesOn true rest) (is_null : nothing.untagged = .null)
    (not_behind : rest.head? ≠ some .afterLast) :
    Agree (replace v true rest nothing) (replace v true rest (Step.nextContainer rest)) := by
  cases rest with
  | nil => exact .refl _
  | cons step rest =>
    have entered (markable : step.isMarkable = true) : step.enter nothing = step.enter step.container := by
      rw [enter_of_null (carries.1 rfl markable) is_null, enter_container]
    cases step with
    | key | matching =>
      rw [replace_congr_enter (entered rfl)]
      exact .refl _
    | index n =>
      rw [replace_index_null is_null]
      simp only [replace, Step.nextContainer, Step.container, items?]
      exact .failed _ _ _ _
    | afterLast => exact absurd rfl not_behind

/-! ## The key -/

/-- An optional key goes on from what stands at it, and from a new container where nothing does. -/
theorem replace_optional_key (map : entries? m = some bound) {start : Value}
    (starts : (Step.key name true).start? true rest (Value.lookup? (.string name) bound) = some start) :
    replace v false (.key name true :: rest) m =
      (putChild m (.key (.string name)) (replace v true rest start).1, (replace v true rest start).2) := by
  rw [← child?_key map] at starts
  exact replace_of_isOpen rfl (.key map) starts

/-- The entry that only some entries have stands somewhere among the others. -/
theorem exists_middle (same : bound.Perm ((.string name, nothing) :: unbound))
    (absent : ∀ e ∈ unbound, e.1 ≠ .string name) :
    ∃ before behind, bound = before ++ (.string name, nothing) :: behind ∧
      (∀ e ∈ before, e.1 ≠ .string name) ∧ (before ++ behind).Perm unbound := by
  obtain ⟨before, behind, rfl⟩ := List.append_of_mem (same.mem_iff.mpr List.mem_cons_self)
  have others : (before ++ behind).Perm unbound := (List.perm_middle.symm.trans same).cons_inv
  refine ⟨before, behind, rfl, fun e mem => ?_, others⟩
  exact absent e (others.mem_iff.mp (List.mem_append_left behind mem))

/-- Behind an optional key that is bound to a null, or not bound at all, what comes of the other steps is put
    among the same entries. -/
theorem agree_optional_key (map : entries? m = some bound) (same : bound.Perm ((.string name, nothing) :: unbound))
    (absent : ∀ e ∈ unbound, e.1 ≠ .string name)
    (agree : Agree (replace v true rest nothing) (replace v true rest (Step.nextContainer rest))) :
    Agree (replace v false (.key name true :: rest) m)
      (replace v false (.key name true :: rest) (withContent (.map unbound) m)) := by
  obtain ⟨before, behind, rfl, first, others⟩ := exists_middle same absent
  have without : entries? (withContent (.map unbound) m) = some unbound := entries?_withContent_map
  rw [replace_optional_key map (by rw [Value.lookup?_middle first]; rfl),
    replace_optional_key without (by rw [Value.lookup?_eq_none absent]; rfl)]
  refine agree.put fun left right reordered => ?_
  rw [putChild_key map, putChild_key without, withContent_withContent fun _ => rfl]
  refine reordered_withContent (.map (.insert reordered) ?_)
  rw [Value.insert_middle first, Value.insert_of_fresh fun e mem => Value.same_string_eq_false (absent e mem)]
  exact List.perm_middle.trans ((others.cons _).trans (List.perm_append_singleton _ unbound).symm)

/-- A replacement whose path starts with an optional key does the same whether a mapping binds this key to a
    null or does not have it, unless the next step is the place behind the last item.  That one cannot be
    taken from a null. -/
theorem replace_null_agrees {path : Path} (read : Path.parse path.text = .ok path)
    (starts : path.steps = .key name true :: rest) (map : entries? m = some bound)
    (same : bound.Perm ((.string name, nothing) :: unbound)) (is_null : nothing.untagged = .null)
    (absent : ∀ e ∈ unbound, e.1 ≠ .string name) :
    (rest.head? ≠ some .afterLast →
      Agree ((Operation.mk (.replace v) path).apply m)
        ((Operation.mk (.replace v) path).apply (withContent (.map unbound) m))) ∧
    (rest.head? = some .afterLast →
      ((Operation.mk (.replace v) path).apply m).2 = some (.notASequence "-")) := by
  -- the mark of the first key makes all steps behind it optional that can be
  have carries : CarriesOn true rest := by
    have carries := carriesOn_of_parse read
    rw [starts] at carries
    exact carries.2
  show (_ → Agree (replace v false path.steps m) (replace v false path.steps _)) ∧
    (_ → (replace v false path.steps m).2 = _)
  rw [starts]
  constructor
  · intro not_behind
    exact agree_optional_key map same absent (agree_null_nextContainer carries is_null not_behind)
  · intro behind
    obtain ⟨more, rfl⟩ : ∃ more, rest = .afterLast :: more := by
      cases rest with
      | nil => nomatch behind
      | cons step more =>
        obtain rfl := Option.some.inj behind
        exact ⟨more, rfl⟩
    obtain ⟨before, behind, rfl, first, -⟩ := exists_middle same absent
    rw [replace_optional_key map (by rw [Value.lookup?_middle first]; rfl), replace_afterLast_null is_null]

/-- A document whose jobs are a null. -/
def jobsNull : Value := .map [(.string "jobs", .null), (.string "name", .string "a")]

/-- The same document without jobs. -/
def jobsMissing : Value := .map [(.string "name", .string "a")]

/-- The path to the port of a job that is looked for by its name. -/
def portOfJob : Path :=
  ⟨"/jobs?/name=web/port", [.key "jobs" true, .matching "name" "web" true, .key "port" true]⟩

/-- A match behind a null: the item is appended to a new sequence. -/
theorem replace_null_agrees_item :
    Path.parse "/jobs?/name=web/port" = .ok portOfJob ∧
    (Operation.mk (.replace (.int 1)) portOfJob).apply jobsMissing =
      (.map [(.string "name", .string "a"),
        (.string "jobs", .seq [.map [(.string "name", .string "web"), (.string "port", .int 1)]])], none) ∧
    Agree ((Operation.mk (.replace (.int 1)) portOfJob).apply jobsNull)
      ((Operation.mk (.replace (.int 1)) portOfJob).apply jobsMissing) := by
  have read : Path.parse "/jobs?/name=web/port" = .ok portOfJob := by decide +kernel
  have map : entries? jobsNull = some [(.string "jobs", .null), (.string "name", .string "a")] := rfl
  have absent : ∀ e ∈ [(Value.string "name", Value.string "a")], e.1 ≠ .string "jobs" := by decide
  exact ⟨read, by decide +kernel, (replace_null_agrees read rfl map (.refl _) rfl absent).1 nofun⟩

/-! ## Behind the last item -/

/-- The path behind the last job. -/
def itemOfJobs : Path := ⟨"/jobs?/-", [.key "jobs" true, .afterLast]⟩

/-- An item can be appended where there is no sequence yet, but not where there is a null. -/
theorem not_forall_replace_null_agrees :
    ¬ ∀ (v m nothing : Value) (path : Path) (name : String) (rest : List Step) (bound unbound : Entries),
      Path.parse path.text = .ok path → path.steps = .key name true :: rest → entries? m = some bound →
      bound.Perm ((.string name, nothing) :: unbound) → nothing.untagged = .null →
      (∀ e ∈ unbound, e.1 ≠ .string name) →
      Agree ((Operation.mk (.replace v) path).apply m)
        ((Operation.mk (.replace v) path).apply (withContent (.map unbound) m)) := by
  intro agrees
  have read : Path.parse itemOfJobs.text = .ok itemOfJobs := by decide +kernel
  have agree := agrees (.int 1) (.map [(.string "jobs", .null)]) .null itemOfJobs "jobs" [.afterLast]
    [(.string "jobs", .null)] [] read rfl rfl (.refl _) rfl (List.forall_mem_nil _)
  have refused : (Operation.mk (.replace (.int 1)) itemOfJobs).apply (.map [(.string "jobs", .null)]) =
      (.map [(.string "jobs", .null)], some (.notASequence "-")) := by decide +kernel
  have appended : (Operation.mk (.replace (.int 1)) itemOfJobs).apply (.map []) =
      (.map [(.string "jobs", .seq [.int 1])], none) := by decide +kernel
  change Agree ((Operation.mk (.replace (.int 1)) itemOfJobs).apply _)
    ((Operation.mk (.replace (.int 1)) itemOfJobs).apply (.map [])) at agree
  rw [refused, appended] at agree
  nomatch agree

end DeployManifest.Patch
