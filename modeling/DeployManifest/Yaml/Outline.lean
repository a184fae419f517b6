import DeployManifest.Yaml.Node

/-!
# How much of a document is read

An alias stands for a whole node, which may hold aliases in turn, so a short document can be a large
tree.  A document is explosive if more aliases would be followed in reading it than a certain number for
each of its nodes (`Document.isExplosive`), and explosive documents are refused.

How many are followed depends on what is read.  Nothing is skipped if a document is read as a tree, but
a record passes over the fields that it does not know, and aliases in there do not count.  The outline
of a type (`Outline`) tells which parts of a node are read for it.

- `Node.follow?`: the node that an alias refers to.
- `Document.jumps`: the number of aliases that are followed in reading all of a node, given that number
  for the nodes that aliases refer to; `Document.jumpTable` has it for these.
- `Outline.jumps`: the number of aliases that are followed in reading what an outline shows.
-/

namespace DeployManifest.Yaml

/-- The node itself, or the one it refers to. -/
def Node.follow? (anchors : List (Nat × Node)) : Node → Option Node
  | .alias n =>
    match anchors.lookup n with
    | some (.alias _) => none
    | target => target
  | node => some node

namespace Document

mutual

/-- How many aliases are followed in reading a node, those within aliased nodes included, if
    `table` has that number for the aliased nodes. -/
def jumps (table : List (Nat × Nat)) : Node → Nat
  | .alias n => 1 + (table.lookup n).getD 0
  | .scalar _ _ _ => 0
  | .seq _ items => jumpsItems table items
  | .map _ entries => jumpsEntries table entries

/-- The same for the nodes of a sequence. -/
def jumpsItems (table : List (Nat × Nat)) : List Node → Nat
  | [] => 0
  | node :: rest => jumps table node + jumpsItems table rest

/-- The same for the keys and values of a mapping. -/
def jumpsEntries (table : List (Nat × Nat)) : List (Node × Node) → Nat
  | [] => 0
  | (k, v) :: rest => jumps table k + (jumps table v + jumpsEntries table rest)

end

/-- The number of jumps for each anchor, with nested aliases followed `rounds` times. -/
def jumpTable (anchors : List (Nat × Node)) (limit : Nat) : Nat → List (Nat × Nat)
  | 0 => []
  | rounds + 1 =>
    let table := jumpTable anchors limit rounds
    anchors.map fun (n, node) => (n, min limit (jumps table node))

/-- How many aliases may be followed for each node of a document. -/
def jumpsPerNode : Nat := 100

end Document

/-- Which parts of a node are read for a type: all of it, the items of a sequence, or the fields of a
    record, of which `plain` names those that are read as a whole.  Fields that are not named are not
    read. -/
inductive Outline where
  | whole
  | items (each : Outline)
  | record (plain : List String) (nested : List (String × Outline))

namespace Outline

/-- How many aliases are followed in getting to a node: one if it is an alias. -/
def hops : Node → Nat
  | .alias _ => 1
  | _ => 0

/-- The name of a field, if its key can be read as one. -/
def fieldName? (anchors : List (Nat × Node)) (key : Node) : Option String :=
  match key.follow? anchors with
  | some (.scalar _ _ name) => some name
  | _ => none

mutual

/-- How many aliases are followed in reading what an outline shows of a node, if `table` has the number
    of them for the whole of each aliased node.  All keys of a record are read, but not all values. -/
def jumps (anchors : List (Nat × Node)) (table : List (Nat × Nat)) : Outline → Node → Nat
  | .whole, node => Document.jumps table node
  | .items each, node =>
    hops node +
      match node.follow? anchors with
      | some (.seq _ inside) => inside.foldr (fun item n => jumps anchors table each item + n) 0
      | _ => 0
  | .record plain nested, node =>
    hops node +
      match node.follow? anchors with
      | some (.map _ entries) => entries.foldr (fun e n =>
          Document.jumps table e.1 + (fieldName? anchors e.1).elim 0 (fun name =>
            if plain.contains name then Document.jumps table e.2
            else jumpsNested anchors table name nested e.2) + n) 0
      | _ => 0

/-- The same for the value of the field called `name`. -/
def jumpsNested (anchors : List (Nat × Node)) (table : List (Nat × Nat)) (name : String) :
    List (String × Outline) → Node → Nat
  | [], _ => 0
  | (known, outline) :: rest, node =>
    if known = name then jumps anchors table outline node else jumpsNested anchors table name rest node

end

end Outline

/-- Whether aliases repeat what an outline shows of a document too often. -/
def Document.isExplosive (outline : Outline) (document : Document) : Bool :=
  let limit := jumpsPerNode * document.root.size
  limit < outline.jumps document.anchors
    (jumpTable document.anchors (limit + 1) document.anchors.length) document.root

end DeployManifest.Yaml
