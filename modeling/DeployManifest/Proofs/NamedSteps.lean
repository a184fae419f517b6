import DeployManifest.Proofs.EntryOrder

/-!
# Replacing along keys and indices

A key and an index name their branch, whatever the tree looks like (`Step.branch?`).  A replacement that takes
such a step goes on from what `Step.start?` says, and puts what comes out at the branch, whether or not the
steps behind it succeed (`replace_of_start?`).  So what is done to the tree is known from the branch alone
(`replace_eq_done_iff`), and a child that another replacement has put somewhere is either what the step goes
on from, or does not matter to it (`replace_putChild`, `replace_putChild_of_ne`).

- `Step.branch?`, `Step.start?`: the branch that a step names, and what it goes on from.
- `replace_of_start?`, `replace_of_isOpen`: one step of a replacement.
- `replace_eq_done_iff`: when a replacement succeeds, branch by branch.
-/

namespace DeployManifest.Patch

open Yaml (Value Entries)

variable {v node child last new start : Value} {branch another : Branch} {isOptional : Bool}
  {step : Step} {rest : List Step}

/-- The branch that a key or an index stands for, wherever it is taken. -/
def Step.branch? : Step → Option Branch
  | .key name _ => some (.key (.string name))
  | .index n => some (.index n)
  | _ => none

/-- What a key or an index goes on from: the child that is there.  Only an optional key goes on where there
    is none, from the container that the next step asks for. -/
def Step.start? (isOptional : Bool) (rest : List Step) : Step → Option Value → Option Value
  | _, some child => some child
  | .key _ _, none => if isOptional then some (Step.nextContainer rest) else none
  | _, none => none

@[simp] theorem Step.start?_some (child : Value) : step.start? isOptional rest (some child) = some child := by
  cases step <;> rfl

/-- From where nothing is, it goes on with the container that the next step asks for. -/
theorem Step.eq_of_start?_none (starts : step.start? isOptional rest none = some start) :
    start = Step.nextContainer rest := by
  cases step with
  | key =>
    simp only [Step.start?, Option.ite_none_right_eq_some, Option.some.injEq] at starts
    exact starts.2.symm
  | index | afterLast | matching => nomatch starts

/-- An index goes on only from an item that is there. -/
theorem Step.isSome_of_start? {n : Nat} {here? : Option Value} (names : step.branch? = some (.index n))
    (starts : step.start? isOptional rest here? = some start) : here?.isSome := by
  cases step with
  | index =>
    cases here? with
    | none => nomatch starts
    | some child => rfl
  | key | afterLast | matching => nomatch names

theorem IsOpen.enter (opened : IsOpen node branch) (step : Step) : step.enter node = node :=
  enter_of_ne_null opened.ne_null

/-- A step that goes on from somewhere puts what comes of it at its branch. -/
theorem replace_of_start? (names : step.branch? = some branch) (opened : IsOpen (step.enter node) branch)
    (starts : step.start? (isOptional || step.isOptional) rest (child? (step.enter node) branch) = some start) :
    replace v isOptional (step :: rest) node =
      (putChild (step.enter node) branch (replace v (isOptional || step.isOptional) rest start).1,
        (replace v (isOptional || step.isOptional) rest start).2) := by
  cases step with
  | key name marked =>
    obtain rfl := Option.some.inj names
    cases opened with
    | @key entries _ map =>
      rw [child?_key map] at starts
      rw [replace, putChild_key map]
      simp only [map]
      cases bound : Value.lookup? (.string name) entries with
      | some child =>
        rw [bound, Step.start?_some] at starts
        obtain rfl := Option.some.inj starts
        rfl
      | none =>
        rw [bound] at starts
        have optional : (isOptional || (Step.key name marked).isOptional) = true := by
          simp only [Step.start?, Option.ite_none_right_eq_some] at starts
          exact starts.1
        -- the key is not bound, so the way goes on in a new container
        obtain rfl := Step.eq_of_start?_none starts
        simp only [optional, if_true]
  | index n =>
    obtain rfl := Option.some.inj names
    cases opened with
    | @index items _ seq =>
      rw [child?_index seq] at starts
      cases item : items[n]? with
      | none =>
        rw [item] at starts
        nomatch starts
      | some child =>
        rw [item, Step.start?_some] at starts
        obtain rfl := Option.some.inj starts
        obtain ⟨lt, -⟩ := List.getElem?_eq_some_iff.mp item
        rw [replace, putChild_set seq lt]
        simp only [seq, item]
  | afterLast | matching => nomatch names

/-- A node that has the branch already is not entered. -/
theorem replace_of_isOpen (names : step.branch? = some branch) (opened : IsOpen node branch)
    (starts : step.start? (isOptional || step.isOptional) rest (child? node branch) = some start) :
    replace v isOptional (step :: rest) node =
      (putChild node branch (replace v (isOptional || step.isOptional) rest start).1,
        (replace v (isOptional || step.isOptional) rest start).2) := by
  have entered := opened.enter step
  rw [← entered] at opened starts
  rw [replace_of_start? names opened starts, entered]

/-- A step that succeeds has found the kind of node that has such branches, and something to go on from. -/
theorem exists_start?_of_done (names : step.branch? = some branch)
    (done : replace v isOptional (step :: rest) node = (new, none)) :
    IsOpen (step.enter node) branch ∧
      ∃ start, step.start? (isOptional || step.isOptional) rest (child? (step.enter node) branch) = some start := by
  cases step with
  | key name marked =>
    obtain rfl := Option.some.inj names
    rw [replace] at done
    cases map : entries? ((Step.key name marked).enter node) with
    | none => simp [map] at done
    | some entries =>
      refine ⟨.key map, ?_⟩
      rw [child?_key map]
      simp only [map] at done
      -- a field that is missing is made only if something along the way is optional
      cases bound : Value.lookup? (.string name) entries with
      | some child => exact ⟨child, Step.start?_some child⟩
      | none =>
        simp only [bound] at done
        split at done
        · next optional => exact ⟨_, if_pos optional⟩
        · nomatch done
  | index n =>
    obtain rfl := Option.some.inj names
    rw [replace] at done
    cases seq : items? ((Step.index n).enter node) with
    | none => simp [seq] at done
    | some items =>
      simp only [seq] at done
      -- an index without an item stops the run
      cases item : items[n]? with
      | none => simp [item] at done
      | some child =>
        obtain ⟨lt, -⟩ := List.getElem?_eq_some_iff.mp item
        refine ⟨.index seq (Nat.le_of_lt lt), child, ?_⟩
        rw [child?_index seq, item, Step.start?_some]
  | afterLast | matching => nomatch names

/-- A key or an index replaces what is below its branch. -/
theorem replace_eq_done_iff (names : step.branch? = some branch) :
    replace v isOptional (step :: rest) node = (new, none) ↔
      IsOpen (step.enter node) branch ∧ ∃ start,
        step.start? (isOptional || step.isOptional) rest (child? (step.enter node) branch) = some start ∧
        ∃ child, replace v (isOptional || step.isOptional) rest start = (child, none) ∧
          new = putChild (step.enter node) branch child := by
  constructor
  · intro done
    obtain ⟨opened, start, starts⟩ := exists_start?_of_done names done
    rw [replace_of_start? names opened starts] at done
    obtain ⟨rfl, finished⟩ := Prod.mk.inj done
    exact ⟨opened, start, starts, _, Prod.ext rfl finished, rfl⟩
  · rintro ⟨opened, start, starts, child, later, rfl⟩
    rw [replace_of_start? names opened starts, later]

/-- Below a child that has been put at its branch, a step goes on from this child. -/
theorem replace_putChild (names : step.branch? = some branch) (opened : IsOpen node branch)
    (later : replace v (isOptional || step.isOptional) rest child = (last, none)) :
    replace v isOptional (step :: rest) (putChild node branch child) = (putChild node branch last, none) := by
  have still_open : IsOpen (putChild node branch child) branch := opened.putChild opened
  refine (replace_eq_done_iff names).mpr ?_
  rw [still_open.enter, child?_putChild_self opened]
  exact ⟨still_open, child, Step.start?_some child, last, later, (putChild_putChild opened).symm⟩

/-- A child that has been put at another branch changes nothing for a step. -/
theorem replace_putChild_of_ne (names : step.branch? = some branch) (opened : IsOpen node branch)
    (opened_too : IsOpen node another) (ne : branch ≠ another)
    (starts : step.start? (isOptional || step.isOptional) rest (child? node branch) = some start)
    (later : replace v (isOptional || step.isOptional) rest start = (last, none)) :
    replace v isOptional (step :: rest) (putChild node another child) =
      (putChild (putChild node another child) branch last, none) := by
  have still_open : IsOpen (putChild node another child) branch := opened.putChild opened_too
  refine (replace_eq_done_iff names).mpr ?_
  rw [still_open.enter, child?_putChild_of_ne opened_too ne]
  exact ⟨still_open, start, starts, last, later, rfl⟩

end DeployManifest.Patch
