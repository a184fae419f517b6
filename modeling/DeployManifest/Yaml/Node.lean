import DeployManifest.Yaml.Token.Scan

/-!
# Nodes

The structure of a document before its scalars are given a meaning: nodes with their tags, their
anchors, and aliases that refer to anchored nodes.

`Document.ofTokens?` is the grammar.  Each rule consumes tokens from the front and gives a node and
the tokens behind it; the amount of fuel bounds how many rules may be nested or follow one another,
and a few rules for each token are enough.

Anchors are numbered by the number of different names before them, and an alias refers to the last
node that got the number of its name.
-/

namespace DeployManifest.Yaml

open Text (Bytes)

/-- The properties in front of a node. -/
structure Props where
  anchor? : Option Nat
  tag? : Option Bytes
  deriving Repr

/-- A node of a document.  An alias has the number of its name, and a scalar its text and how it was
    written. -/
inductive Node where
  | alias (anchor : Nat)
  | scalar (props : Props) (style : Style) (text : String)
  | seq (props : Props) (items : List Node)
  | map (props : Props) (entries : List (Node × Node))

namespace Node

/-- A node that was left out. -/
def empty (props : Props) : Node := .scalar props .plain ""

/-- What stands where a node was left out, without properties. -/
def absent : Node := empty ⟨none, none⟩

mutual

/-- The anchored nodes in the order in which they start, with their numbers. -/
def anchored : Node → List (Nat × Node)
  | .alias _ => []
  | .scalar props style text => own props (.scalar props style text)
  | .seq props items => own props (.seq props items) ++ anchoredItems items
  | .map props entries => own props (.map props entries) ++ anchoredEntries entries
where
  /-- The entry of a node itself. -/
  own (props : Props) (node : Node) : List (Nat × Node) :=
    match props.anchor? with
    | some n => [(n, node)]
    | none => []

/-- The same for the nodes of a sequence. -/
def anchoredItems : List Node → List (Nat × Node)
  | [] => []
  | node :: rest => anchored node ++ anchoredItems rest

/-- The same for the keys and values of a mapping. -/
def anchoredEntries : List (Node × Node) → List (Nat × Node)
  | [] => []
  | (k, v) :: rest => anchored k ++ (anchored v ++ anchoredEntries rest)

end

mutual

/-- How many nodes, collection ends included, there are. -/
def size : Node → Nat
  | .alias _ => 1
  | .scalar _ _ _ => 1
  | .seq _ items => sizeItems items + 2
  | .map _ entries => sizeEntries entries + 2

/-- The same for the nodes of a sequence. -/
def sizeItems : List Node → Nat
  | [] => 0
  | node :: rest => size node + sizeItems rest

/-- The same for the keys and values of a mapping. -/
def sizeEntries : List (Node × Node) → Nat
  | [] => 0
  | (k, v) :: rest => size k + (size v + sizeEntries rest)

end

end Node

/-- A reader of nodes in the middle of a document. -/
structure Reader where
  tokens : List Token
  /-- The tag directives in force. -/
  handles : List (String × Bytes)
  /-- The numbers of the anchor names so far. -/
  names : List (String × Nat)

namespace Reader

/-- The reader behind the next token. -/
def skip (r : Reader) : Reader := { r with tokens := r.tokens.drop 1 }

/-- The number of a new anchor. -/
def defineAnchor (r : Reader) (name : String) : Nat × Reader :=
  let n := r.names.length
  let names := if r.names.any (·.1 == name) then
      r.names.map fun (other, m) => if other == name then (other, n) else (other, m)
    else r.names ++ [(name, n)]
  (n, { r with names })

/-- The tag that a handle and a suffix stand for. -/
def expandTag? (r : Reader) (handle : String) (suffix : Bytes) : Option Bytes :=
  if handle.isEmpty then some suffix
  else (r.handles.lookup handle).map (· ++ suffix)

/-- The properties at the front: an anchor and a tag in either order. -/
def props? (r : Reader) : Option (Props × Reader) :=
  match r.tokens with
  | .anchor name :: .tag handle suffix :: _ =>
    let (n, r) := r.defineAnchor name
    (r.expandTag? handle suffix).map fun tag => (⟨some n, some tag⟩, r.skip.skip)
  | .tag handle suffix :: .anchor name :: _ =>
    let (n, r) := r.defineAnchor name
    (r.expandTag? handle suffix).map fun tag => (⟨some n, some tag⟩, r.skip.skip)
  | .anchor name :: _ =>
    let (n, r) := r.defineAnchor name
    some (⟨some n, none⟩, r.skip)
  | .tag handle suffix :: _ =>
    (r.expandTag? handle suffix).map fun tag => (⟨none, some tag⟩, r.skip)
  | _ => some (⟨none, none⟩, r)

end Reader

/-- The collection a node belongs to decides which marks may open it: in a flow collection no
    block may start, and the value of a block mapping may be a sequence without indentation. -/
inductive Context where
  | flow
  | block
  | blockEntry
  deriving DecidableEq

/-- Marks before which an entry of a block mapping, or of a sequence without indentation, is left
    out. -/
def endsBlockEntry : List Token → Bool
  | .key :: _ | .value :: _ | .blockEnd :: _ => true
  | _ => false

/-- Marks before which an item of a block sequence is left out. -/
def endsBlockItem : List Token → Bool
  | .blockEntry :: _ | .blockEnd :: _ => true
  | _ => false

/-- Marks before which an entry of a flow mapping is left out. -/
def endsFlowEntry : List Token → Bool
  | .flowEntry :: _ | .flowMappingEnd :: _ => true
  | _ => false

/-- Marks before which an entry of a flow sequence is left out. -/
def endsFlowItem : List Token → Bool
  | .flowEntry :: _ | .flowSequenceEnd :: _ => true
  | _ => false

/-- The reader behind the comma that has to stand between two entries of a flow collection. -/
def afterSeparator? (first : Bool) (r : Reader) : Option Reader :=
  if first then some r
  else match r.tokens with
    | .flowEntry :: _ => some r.skip
    | _ => none

mutual

/-- A node. -/
def node? (context : Context) : Nat → Reader → Option (Node × Reader)
  | 0, _ => none
  | fuel + 1, r =>
    match r.tokens with
    | .alias name :: _ => (r.names.lookup name).map fun n => (.alias n, r.skip)
    | _ =>
      match r.props? with
      | none => none
      | some (props, r) =>
        match r.tokens with
        | .scalar style text :: _ => some (.scalar props style text, r.skip)
        | .flowSequenceStart :: _ =>
          (flowItems? true fuel r.skip).map fun (items, r) => (.seq props items, r)
        | .flowMappingStart :: _ =>
          (flowEntries? true fuel r.skip).map fun (entries, r) => (.map props entries, r)
        | token :: _ =>
          if context = .blockEntry && token = .blockEntry then
            (looseItems? fuel r).map fun (items, r) => (.seq props items, r)
          else if context ≠ .flow && token = .blockSequenceStart then
            (blockItems? fuel r.skip).map fun (items, r) => (.seq props items, r)
          else if context ≠ .flow && token = .blockMappingStart then
            (blockEntries? fuel r.skip).map fun (entries, r) => (.map props entries, r)
          else omitted props r
        | [] => omitted props r
where
  /-- A node of which there are only properties. -/
  omitted (props : Props) (r : Reader) : Option (Node × Reader) :=
    if props.anchor?.isSome || props.tag?.isSome then some (.empty props, r) else none

/-- A node that may be left out before certain marks. -/
def optional? (context : Context) (ends : List Token → Bool) :
    Nat → Reader → Option (Node × Reader)
  | 0, _ => none
  | fuel + 1, r => if ends r.tokens then some (.absent, r) else node? context fuel r

/-- The items of an indented block sequence and the mark that ends it. -/
def blockItems? : Nat → Reader → Option (List Node × Reader)
  | 0, _ => none
  | fuel + 1, r =>
    match r.tokens with
    | .blockEntry :: _ =>
      match optional? .block endsBlockItem fuel r.skip with
      | none => none
      | some (item, r) => (blockItems? fuel r).map fun (items, r) => (item :: items, r)
    | .blockEnd :: _ => some ([], r.skip)
    | _ => none

/-- The items of a block sequence without indentation of its own; whatever is no item ends it. -/
def looseItems? : Nat → Reader → Option (List Node × Reader)
  | 0, _ => none
  | fuel + 1, r =>
    match r.tokens with
    | .blockEntry :: _ =>
      let ends := fun tokens => endsBlockItem tokens || endsBlockEntry tokens
      match optional? .block ends fuel r.skip with
      | none => none
      | some (item, r) => (looseItems? fuel r).map fun (items, r) => (item :: items, r)
    | _ => some ([], r)

/-- The entries of a block mapping and the mark that ends it. -/
def blockEntries? : Nat → Reader → Option (List (Node × Node) × Reader)
  | 0, _ => none
  | fuel + 1, r =>
    match r.tokens with
    | .key :: _ =>
      match optional? .blockEntry endsBlockEntry fuel r.skip with
      | none => none
      | some (key, r) =>
        match blockValue? fuel r with
        | none => none
        | some (value, r) =>
          (blockEntries? fuel r).map fun (entries, r) => ((key, value) :: entries, r)
    | .blockEnd :: _ => some ([], r.skip)
    | _ => none

/-- The value of a block mapping entry, absent without a value mark. -/
def blockValue? : Nat → Reader → Option (Node × Reader)
  | 0, _ => none
  | fuel + 1, r =>
    match r.tokens with
    | .value :: _ => optional? .blockEntry endsBlockEntry fuel r.skip
    | _ => some (.absent, r)

/-- The items of a flow sequence, `first` telling that none has been read, and the mark that ends
    it.  An item may be a single entry of a mapping. -/
def flowItems? (first : Bool) : Nat → Reader → Option (List Node × Reader)
  | 0, _ => none
  | fuel + 1, r =>
    match r.tokens with
    | .flowSequenceEnd :: _ => some ([], r.skip)
    | _ =>
      match afterSeparator? first r with
      | none => none
      | some r =>
        match r.tokens with
        | .flowSequenceEnd :: _ => some ([], r.skip)
        | .key :: _ =>
          match flowPair? fuel r.skip with
          | none => none
          | some (item, r) => (flowItems? false fuel r).map fun (items, r) => (item :: items, r)
        | _ =>
          match node? .flow fuel r with
          | none => none
          | some (item, r) => (flowItems? false fuel r).map fun (items, r) => (item :: items, r)

/-- A mapping with a single entry as an item of a flow sequence.  The mark in place of a missing
    key is lost. -/
def flowPair? : Nat → Reader → Option (Node × Reader)
  | 0, _ => none
  | fuel + 1, r =>
    let missing := endsFlowItem r.tokens || r.tokens.head? == some .value
    let key? := if missing then some (.absent, r.skip) else node? .flow fuel r
    match key? with
    | none => none
    | some (key, r) =>
      match r.tokens with
      | .value :: _ =>
        (optional? .flow endsFlowItem fuel r.skip).map fun (value, r) =>
          (.map ⟨none, none⟩ [(key, value)], r)
      | _ => some (.map ⟨none, none⟩ [(key, .absent)], r)

/-- The entries of a flow mapping, `first` telling that none has been read, and the mark that ends
    it.  A node without a key mark is a key without a value. -/
def flowEntries? (first : Bool) : Nat → Reader → Option (List (Node × Node) × Reader)
  | 0, _ => none
  | fuel + 1, r =>
    match r.tokens with
    | .flowMappingEnd :: _ => some ([], r.skip)
    | _ =>
      match afterSeparator? first r with
      | none => none
      | some r =>
        match r.tokens with
        | .flowMappingEnd :: _ => some ([], r.skip)
        | .key :: _ =>
          let ends := fun tokens => endsFlowEntry tokens || tokens.head? == some .value
          match optional? .flow ends fuel r.skip with
          | none => none
          | some (key, r) =>
            match flowValue? fuel r with
            | none => none
            | some (value, r) =>
              (flowEntries? false fuel r).map fun (entries, r) => ((key, value) :: entries, r)
        | _ =>
          match node? .flow fuel r with
          | none => none
          | some (key, r) =>
            (flowEntries? false fuel r).map fun (entries, r) => ((key, .absent) :: entries, r)

/-- The value of a flow mapping entry, absent without a value mark. -/
def flowValue? : Nat → Reader → Option (Node × Reader)
  | 0, _ => none
  | fuel + 1, r =>
    match r.tokens with
    | .value :: _ => optional? .flow endsFlowEntry fuel r.skip
    | _ => some (.absent, r)

end

/-- A document: its root and the nodes its aliases refer to. -/
structure Document where
  root : Node
  anchors : List (Nat × Node)

namespace Document

/-- What the handle `!!` stands for: the start of the tags that name types. -/
def typeTagStart : Bytes := Text.Utf8.encode "tag:yaml.org,2002:"

/-- The handles that need no directive. -/
def standardHandles : List (String × Bytes) := [("!", Text.Utf8.encode "!"), ("!!", typeTagStart)]

/-- The directives at the front and the tokens behind them.  There may be one for the version,
    which has to be 1.1 or 1.2, and one for each tag handle. -/
def directives? (versionSeen : Bool) (handles : List (String × Bytes)) :
    List Token → Option (List (String × Bytes) × List Token)
  | .versionDirective major minor :: rest =>
    if versionSeen || major ≠ 1 || (minor ≠ 1 && minor ≠ 2) then none
    else directives? true handles rest
  | .tagDirective handle start :: rest =>
    if handles.any (·.1 == handle) then none
    else directives? versionSeen (handles ++ [(handle, start)]) rest
  | rest => some (handles, rest)

/-- The tokens that show the start of a document, directives and all, or that it has none. -/
def startsExplicitly : List Token → Bool
  | .versionDirective _ _ :: _ | .tagDirective _ _ :: _ | .documentStart :: _ => true
  | _ => false

/-- The root node behind the start of a document; nothing at all counts as an empty node. -/
def root? (r : Reader) : Option (Node × Reader) :=
  let fuel := 4 * r.tokens.length + 4
  if startsExplicitly r.tokens || r.tokens.isEmpty || r.tokens.head? == some .documentEnd then
    some (.absent, r)
  else node? .block fuel r

/-- The only document of a stream.  An empty stream counts as an empty document, and a second
    document makes the whole unreadable. -/
def ofTokens? (tokens : List Token) : Option Document :=
  let begun? : Option (Node × Reader) :=
    if tokens.isEmpty then some (.absent, ⟨[], [], []⟩)
    else if startsExplicitly tokens then
      match directives? false [] tokens with
      | some (handles, .documentStart :: rest) =>
        root? ⟨rest, handles ++ standardHandles, []⟩
      | _ => none
    else node? .block (4 * tokens.length + 4) ⟨tokens, standardHandles, []⟩
  match begun? with
  | none => none
  | some (root, r) =>
    if (r.tokens.dropWhile (· == .documentEnd)).isEmpty then some ⟨root, root.anchored.reverse⟩
    else none

/-- The document in a source. -/
def ofSource? (source : Source) : Option Document := source.tokens?.bind ofTokens?

end Document
end DeployManifest.Yaml
