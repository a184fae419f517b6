import DeployManifest.Proofs.NamedSteps

/-!
# Patches that do not depend on each other

Two replacements whose paths are made of keys and indices, and that can both be made in one tree, can be made
there one after the other.  If their paths are the same, only the second one counts
(`replace_of_replaced`).  If the paths part, at a place where they name different keys or indices, the order
of the two does not matter, up to the order of the entries that come into being (`replace_comm`).

Until they part, two paths go through the same nodes, also where these are created: an index goes through
items that are there, so what both create on their way can only be mappings.

Main statement: `replace_replace`.

- `Part`: paths that name different branches somewhere.
- `replace_of_replaced`: the same path twice.
- `replace_comm_of_ne`, `replace_comm`: paths that part at the first step, or further behind.
- `replace_replace_web`: two fields of a mapping that both paths create.
-/

namespace DeployManifest.Patch

open Yaml (Value Entries)
open Yaml.Value (Reordered)

variable {v w node child left right last new start : Value} {branch another : Branch} {isOptional isOptional' : Bool}
  {step other : Step} {steps rest others : List Step}

/-! ## The same path twice -/

/-- Behind a replacement, another one with the same path goes through what the first one went through, and
    writes where that has written. -/
theorem replace_of_replaced (plain : ∀ step ∈ steps, step.branch?.isSome)
    (done : replace v isOptional steps node = (left, none))
    (also : replace w isOptional steps node = (right, none)) :
    replace w isOptional steps left = (right, none) := by
  induction steps generalizing isOptional node left right with
  | nil => exact also
  | cons step rest ih =>
    have ⟨here, behind⟩ := List.forall_mem_cons.mp plain
    obtain ⟨branch, names⟩ := Option.isSome_iff_exists.mp here
    obtain ⟨opened, start, starts, child, later, rfl⟩ := (replace_eq_done_iff names).mp done
    obtain ⟨-, start_too, starts_too, last, later_too, rfl⟩ := (replace_eq_done_iff names).mp also
    obtain rfl := Option.some.inj (starts.symm.trans starts_too)
    exact replace_putChild names opened (ih behind later later_too)

/-! ## Paths that part -/

/-- Whether two lists of steps part: whether there is a place where they name different branches. -/
def Part (steps others : List Step) : Prop :=
  ∃ pair ∈ steps.zip others, pair.1.branch? ≠ pair.2.branch?

/-- Only a key turns a null into a container. -/
theorem container_of_isOptional (names : step.branch? = some branch) (optional : step.isOptional = true) :
    step.container = .map [] := by
  cases step with
  | key => rfl
  | index => nomatch optional
  | afterLast | matching => nomatch names

/-- Two steps that can both be taken from a node enter it in the same way. -/
theorem enter_eq_enter (names : step.branch? = some branch) (names_too : other.branch? = some another)
    (opened : IsOpen (step.enter node) branch) (opened_too : IsOpen (other.enter node) another) :
    step.enter node = other.enter node := by
  rcases enter_cases step node with same | ⟨optional, null, container⟩
  · rcases enter_cases other node with same_too | ⟨-, null, -⟩
    · rw [same, same_too]
    · rw [same] at opened
      exact absurd null opened.ne_null
  · rcases enter_cases other node with same_too | ⟨optional_too, -, container_too⟩
    · rw [same_too] at opened_too
      exact absurd null opened_too.ne_null
    · rw [container, container_too, container_of_isOptional names optional,
        container_of_isOptional names_too optional_too]

/-- Where a replacement goes on from a new container, this is a mapping: a new sequence has no items to go
    through. -/
theorem container_of_done (names : step.branch? = some branch)
    (done : replace v isOptional (step :: rest) step.container = (new, none)) : step.container = .map [] := by
  cases step with
  | key => rfl
  | index n => simp [replace, Step.enter, Step.container, Value.untagged, items?] at done
  | afterLast | matching => cases names

theorem Part.cons_iff :
    Part (step :: rest) (other :: others) ↔ step.branch? ≠ other.branch? ∨ Part rest others := by
  simp [Part]

/-- Two replacements that go on below the same branch, and part later, go on from the same node, be it a
    new one. -/
theorem start_eq_start {here? : Option Value} {start_too : Value} (plain : ∀ step ∈ rest, step.branch?.isSome)
    (plain_too : ∀ step ∈ others, step.branch?.isSome) (part : Part rest others)
    (starts : step.start? isOptional rest here? = some start)
    (starts_too : other.start? isOptional' others here? = some start_too)
    (done : replace v isOptional rest start = (left, none))
    (also : replace w isOptional' others start_too = (right, none)) : start = start_too := by
  cases here? with
  | some child =>
    rw [Step.start?_some] at starts starts_too
    exact Option.some.inj (starts.symm.trans starts_too)
  | none =>
    -- nothing is there, so each run goes on in the container that its next step asks for
    obtain rfl := Step.eq_of_start?_none starts
    obtain rfl := Step.eq_of_start?_none starts_too
    cases rest with
    | nil => simp [Part] at part
    | cons first rest =>
      cases others with
      | nil => simp [Part] at part
      | cons second others =>
        obtain ⟨branch, names⟩ := Option.isSome_iff_exists.mp (List.forall_mem_cons.mp plain).1
        obtain ⟨another, names_too⟩ := Option.isSome_iff_exists.mp (List.forall_mem_cons.mp plain_too).1
        exact (container_of_done names done).trans (container_of_done names_too also).symm

/-- Where two steps take different branches of a node, each finds what it needs behind the other one. -/
theorem replace_comm_of_ne (names : step.branch? = some branch) (names_too : other.branch? = some another)
    (ne : branch ≠ another) (done : replace v isOptional (step :: rest) node = (left, none))
    (also : replace w isOptional' (other :: others) node = (right, none)) :
    ∃ last last', replace w isOptional' (other :: others) left = (last, none) ∧
      replace v isOptional (step :: rest) right = (last', none) ∧ Reordered last last' := by
  obtain ⟨opened, start, starts, child, later, rfl⟩ := (replace_eq_done_iff names).mp done
  obtain ⟨opened_too, start_too, starts_too, child_too, later_too, rfl⟩ :=
    (replace_eq_done_iff names_too).mp also
  -- each step may have to turn a null into a container, and both turn it into the same one
  have entered := enter_eq_enter names names_too opened opened_too
  rw [← entered] at opened_too starts_too ⊢
  refine ⟨_, _, replace_putChild_of_ne names_too opened_too opened (Ne.symm ne) starts_too later_too,
    replace_putChild_of_ne names opened opened_too ne starts later, ?_⟩
  refine reordered_putChild_comm opened opened_too ne ?_ ?_
  · rintro n rfl
    exact Step.isSome_of_start? names starts
  · rintro n rfl
    exact Step.isSome_of_start? names_too starts_too

/-- Two replacements whose paths part can be made in either order.  The induction is on one of the paths;
    as long as the other one takes the same branch, both go on from the same node. -/
theorem replace_comm (plain : ∀ step ∈ steps, step.branch?.isSome) (plain_too : ∀ step ∈ others, step.branch?.isSome)
    (part : Part steps others) (done : replace v isOptional steps node = (left, none))
    (also : replace w isOptional' others node = (right, none)) :
    ∃ last last', replace w isOptional' others left = (last, none) ∧
      replace v isOptional steps right = (last', none) ∧ Reordered last last' := by
  induction steps generalizing isOptional isOptional' others node left right with
  | nil => simp [Part] at part
  | cons step rest ih =>
    cases others with
    | nil => simp [Part] at part
    | cons other others =>
      have ⟨here, behind⟩ := List.forall_mem_cons.mp plain
      have ⟨here_too, behind_too⟩ := List.forall_mem_cons.mp plain_too
      obtain ⟨branch, names⟩ := Option.isSome_iff_exists.mp here
      obtain ⟨another, names_too⟩ := Option.isSome_iff_exists.mp here_too
      -- as long as the paths agree both go on in the same child; where they part, each has its own
      by_cases same : branch = another
      · subst same
        have part : Part rest others := (Part.cons_iff.mp part).resolve_left fun ne =>
          ne (names.trans names_too.symm)
        obtain ⟨opened, start, starts, child, later, rfl⟩ := (replace_eq_done_iff names).mp done
        obtain ⟨opened_too, start_too, starts_too, child_too, later_too, rfl⟩ :=
          (replace_eq_done_iff names_too).mp also
        have entered := enter_eq_enter names names_too opened opened_too
        rw [← entered] at starts_too ⊢
        obtain rfl := start_eq_start behind behind_too part starts starts_too later later_too
        obtain ⟨last, last', behind_left, behind_right, reordered⟩ := ih behind behind_too part later later_too
        exact ⟨_, _, replace_putChild names_too opened behind_left, replace_putChild names opened behind_right,
          reordered_putChild opened reordered⟩
      · exact replace_comm_of_ne names names_too same done also

/-- Two replacements along keys and indices that can both be made in a tree can be made one after the other.
    With the same path, the second one gives what it gives alone.  With paths that part, both orders give
    the same tree up to the order of entries. -/
theorem replace_replace {path other : Path} {tree : Value} (plain : ∀ step ∈ path.steps, step.branch?.isSome)
    (plain_too : ∀ step ∈ other.steps, step.branch?.isSome)
    (done : (Operation.mk (.replace v) path).apply tree = (left, none))
    (also : (Operation.mk (.replace w) other).apply tree = (right, none)) :
    (path.steps = other.steps → (Operation.mk (.replace w) other).apply left = (right, none)) ∧
    (Part path.steps other.steps →
      ∃ last last', (Operation.mk (.replace w) other).apply left = (last, none) ∧
        (Operation.mk (.replace v) path).apply right = (last', none) ∧ Reordered last last') := by
  constructor
  · intro same
    change replace v false path.steps tree = _ at done
    rw [same] at done
    exact replace_of_replaced plain_too done also
  · intro part
    exact replace_comm plain plain_too part done also

/-- A document without any web, whose specification is a null. -/
def noSpec : Value := .map [(.string "spec", .tagged "none" .null), (.string "tags", .seq [.null])]

/-- The path to the port of the web. -/
def portOfWeb : Path := ⟨"/spec/web?/port", [.key "spec" false, .key "web" true, .key "port" true]⟩

/-- The path to its name. -/
def nameOfWeb : Path := ⟨"/spec?/web/name", [.key "spec" true, .key "web" true, .key "name" true]⟩

/-- The document with some fields of the web. -/
def webWith (fields : Entries) : Value :=
  .map [(.string "spec", .map [(.string "web", .map fields)]), (.string "tags", .seq [.null])]

/-- Two paths that share a null, which becomes a mapping, and a key below it, which comes into being. -/
theorem replace_replace_web :
    Path.parse "/spec/web?/port" = .ok portOfWeb ∧ Path.parse "/spec?/web/name" = .ok nameOfWeb ∧
    (Operation.mk (.replace (.int 1)) portOfWeb).apply noSpec = (webWith [(.string "port", .int 1)], none) ∧
    (Operation.mk (.replace (.int 2)) portOfWeb).apply noSpec = (webWith [(.string "port", .int 2)], none) ∧
    (Operation.mk (.replace (.int 2)) portOfWeb).apply (webWith [(.string "port", .int 1)]) =
      (webWith [(.string "port", .int 2)], none) ∧
    (Operation.mk (.replace .null) nameOfWeb).apply noSpec = (webWith [(.string "name", .null)], none) ∧
    ∃ last last',
      (Operation.mk (.replace .null) nameOfWeb).apply (webWith [(.string "port", .int 1)]) = (last, none) ∧
      (Operation.mk (.replace (.int 1)) portOfWeb).apply (webWith [(.string "name", .null)]) = (last', none) ∧
      Reordered last last' := by
  have port_plain : ∀ step ∈ portOfWeb.steps, step.branch?.isSome := by decide
  have name_plain : ∀ step ∈ nameOfWeb.steps, step.branch?.isSome := by decide
  have first : (Operation.mk (.replace (.int 1)) portOfWeb).apply noSpec =
      (webWith [(.string "port", .int 1)], none) := by decide +kernel
  have second : (Operation.mk (.replace (.int 2)) portOfWeb).apply noSpec =
      (webWith [(.string "port", .int 2)], none) := by decide +kernel
  have named : (Operation.mk (.replace .null) nameOfWeb).apply noSpec =
      (webWith [(.string "name", .null)], none) := by decide +kernel
  have part : Part portOfWeb.steps nameOfWeb.steps :=
    ⟨(.key "port" true, .key "name" true), by decide, by decide⟩
  exact ⟨by decide +kernel, by decide +kernel, first, second,
    (replace_replace port_plain port_plain first second).1 rfl, named,
    (replace_replace port_plain name_plain first named).2 part⟩

end DeployManifest.Patch
