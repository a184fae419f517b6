import DeployManifest.Text.Quoted
import DeployManifest.Yaml.Value
import DeployManifest.Patch.Path

/-!
# Patching trees

An operation replaces or removes what a path leads to.

Replacing creates what an optional step does not find: keys, items that match, and the containers
that the next step asks for.  Removing leaves the tree alone where an optional step does not find
anything.  In both, a null that an optional step leads through turns into an empty container.

`Operation.apply` gives the tree behind the operation and, if it failed, why.  An operation that
fails may have changed the tree on its way.

- `replace`, `remove`: the two operations, along the steps of a path.
- `enter`: what a null on the way turns into, and when.
- `container`, `nextContainer`: which container a step asks for.
- `Operation.apply`: an operation by its kind.
-/

namespace DeployManifest.Patch

open Yaml (Value Entries)

/-- Why an operation failed. -/
inductive Failure where
  | notAMapping (step : String)
  | notASequence (step : String)
  | missingKey (key : String)
  | noMatchingElement (key value : String)
  | indexOutOfRange (index length : Nat)
  | removeAfterLast
  | removeRoot
  deriving DecidableEq, Repr

/-- What is reported of an operation that failed. -/
def Failure.message : Failure → String
  | .notAMapping step => "expected to find a map at " ++ Text.quote step
  | .notASequence step => "expected to find a sequence at " ++ Text.quote step
  | .missingKey key => "expected to find map key " ++ Text.quote key
  | .noMatchingElement key value =>
    "expected to find an element with " ++ key ++ "=" ++ Text.quote value
  | .indexOutOfRange index length =>
    "expected index " ++ toString index ++ " to be less than sequence length " ++ toString length
  | .removeAfterLast => "cannot remove the element after the last one"
  | .removeRoot => "cannot remove the whole document"

/-- A tree behind an operation, and why the operation failed if it did. -/
abbrev Outcome := Value × Option Failure

namespace Step

/-- An empty container that the step can lead into. -/
def container : Step → Value
  | .key _ _ => .map []
  | _ => .seq []

/-- The container the next of some steps leads into, null if there is none. -/
def nextContainer : List Step → Value
  | [] => .null
  | step :: _ => step.container

/-- The tree that the step starts from: an optional step turns null into a container. -/
def enter (step : Step) (node : Value) : Value :=
  match node.untagged with
  | .null => if step.isOptional then step.container else node
  | _ => node

end Step

/-- A tree with other content within its tags. -/
def withContent (content : Value) : Value → Value
  | .tagged tag inner => .tagged tag (withContent content inner)
  | _ => content

/-- The entries of a mapping. -/
def entries? (node : Value) : Option Entries :=
  match node.untagged with
  | .map entries => some entries
  | _ => none

/-- The items of a sequence. -/
def items? (node : Value) : Option (List Value) :=
  match node.untagged with
  | .seq items => some items
  | _ => none

/-- Whether a field of an item has a text as its value. -/
def hasField (key value : String) (item : Value) : Bool :=
  (item.field? key).bind Value.scalarText? == some value

/-- The index of the first item with a value in a field. -/
def position? (key value : String) (items : List Value) : Option Nat :=
  items.findIdx? (hasField key value)

/-- Puts `value` where the steps lead to; `isOptional` tells whether a step in front of them is
    optional. -/
def replace (value : Value) (isOptional : Bool) : List Step → Value → Outcome
  | [], _ => (value, none)
  | step :: rest, node =>
    let isOptional := isOptional || step.isOptional
    let node := step.enter node
    match step with
    | .key name _ =>
      match entries? node with
      | none => (node, some (.notAMapping step.text))
      | some entries =>
        match Value.lookup? (.string name) entries with
        | none =>
          if isOptional then
            let (child, failure?) := replace value isOptional rest (Step.nextContainer rest)
            (withContent (.map (Value.insert (.string name) child entries)) node, failure?)
          else (node, some (.missingKey name))
        | some child =>
          let (child, failure?) := replace value isOptional rest child
          (withContent (.map (Value.insert (.string name) child entries)) node, failure?)
    | .index n =>
      match items? node with
      | none => (node, some (.notASequence step.text))
      | some items =>
        match items[n]? with
        | none => (node, some (.indexOutOfRange n items.length))
        | some child =>
          let (child, failure?) := replace value isOptional rest child
          (withContent (.seq (items.set n child)) node, failure?)
    | .afterLast =>
      match items? node with
      | none => (node, some (.notASequence step.text))
      | some items =>
        let (child, failure?) := replace value isOptional rest (Step.nextContainer rest)
        (withContent (.seq (items ++ [child])) node, failure?)
    | .matching key expected _ =>
      match items? node with
      | none => (node, some (.notASequence step.text))
      | some items =>
        match position? key expected items with
        | some n =>
          let (child, failure?) := replace value isOptional rest (items.getD n .null)
          (withContent (.seq (items.set n child)) node, failure?)
        | none =>
          if isOptional then
            let (child, failure?) :=
              replace value isOptional rest (.map [(.string key, .string expected)])
            (withContent (.seq (items ++ [child])) node, failure?)
          else (node, some (.noMatchingElement key expected))

/-- Removes what the steps lead to. -/
def remove (isOptional : Bool) : List Step → Value → Outcome
  | [], node => (node, some .removeRoot)
  | step :: rest, node =>
    let isOptional := isOptional || step.isOptional
    match step with
    | .key name _ =>
      let node := step.enter node
      match entries? node with
      | none => (node, some (.notAMapping step.text))
      | some entries =>
        match Value.lookup? (.string name) entries with
        | none => (node, if isOptional then none else some (.missingKey name))
        | some child =>
          if rest.isEmpty then
            let entries := (Value.removeKey? (.string name) entries).getD entries
            (withContent (.map entries) node, none)
          else
            let (child, failure?) := remove isOptional rest child
            (withContent (.map (Value.insert (.string name) child entries)) node, failure?)
    | .index n =>
      match items? node with
      | none => (node, some (.notASequence step.text))
      | some items =>
        match items[n]? with
        | none => (node, some (.indexOutOfRange n items.length))
        | some child =>
          if rest.isEmpty then (withContent (.seq (items.eraseIdx n)) node, none)
          else
            let (child, failure?) := remove isOptional rest child
            (withContent (.seq (items.set n child)) node, failure?)
    | .afterLast => (node, some .removeAfterLast)
    | .matching key expected _ =>
      let node := step.enter node
      match items? node with
      | none => (node, some (.notASequence step.text))
      | some items =>
        match position? key expected items with
        | some n =>
          if rest.isEmpty then (withContent (.seq (items.eraseIdx n)) node, none)
          else
            let (child, failure?) := remove isOptional rest (items.getD n .null)
            (withContent (.seq (items.set n child)) node, failure?)
        | none => (node, if isOptional then none else some (.noMatchingElement key expected))

/-- What an operation does. -/
inductive Action where
  | replace (value : Value)
  | remove

/-- An operation on a tree. -/
structure Operation where
  action : Action
  path : Path

/-- The tree behind an operation, and why the operation failed if it did. -/
def Operation.apply (operation : Operation) (tree : Value) : Outcome :=
  match operation.action with
  | .replace value => Patch.replace value false operation.path.steps tree
  | .remove => Patch.remove false operation.path.steps tree

end DeployManifest.Patch
