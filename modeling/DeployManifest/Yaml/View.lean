import DeployManifest.Table
import DeployManifest.Yaml.Outline

/-!
# Reading values

A view is a place from which a value is read: a node of a document or a tree.  The two differ in
how strict they are.  A field that wants a text takes any scalar of a document as it is written,
but from a tree only a string; a boolean or a number has to be written without quotes.  In both, a
mapping is read field by field: fields nobody asks for are not looked at, and fields that are asked
for must not be repeated.

- `text?`, `bool?`, `int?`, `variant?`: scalars.
- `items?`, `entries?`, `fields?`, `table?`: collections.
- `optional?`: a value that may be null.
- `value?`: anything, as a tree; mappings must not repeat a key.
- `ofSourceWithin?`: the root of a document of which a part is read, as an outline says.

Collections may be nested `maxDepth` deep.
-/

namespace DeployManifest.Yaml

open Text (Bytes)

/-- Whether a tag is local to the document; other tags are global. -/
def isLocalTag (tag : Bytes) : Bool := (Text.Utf8.encode "!").isPrefixOf tag

/-- The name of a local tag, which is what stands behind its mark, if it is text. -/
def localTag? (tag : Bytes) : Option String :=
  match Text.Utf8.decode? tag with
  | some ('!' :: '!' :: name) => some (String.ofList (if name.isEmpty then ['!'] else name))
  | some ('!' :: name) => some (String.ofList (if name.isEmpty then ['!'] else name))
  | _ => none

/-- The text behind the mark of a local tag.  Of a second mark, unlike in the name of a tag, nothing is
    taken away, so that it makes another name. -/
def markedTag? (tag : Bytes) : Option String :=
  match Text.Utf8.decode? tag with
  | some ('!' :: name) => some (String.ofList (if name.isEmpty then ['!'] else name))
  | _ => none

/-- The global tag of a type. -/
def typeTag (name : String) : Bytes := Document.typeTagStart ++ Text.Utf8.encode name

/-- Whether a tree can hold a whole number: it fits into 64 bits, with or without a sign. -/
def isStorable (n : Int) : Bool := Int64.minValue.toInt ≤ n && n < UInt64.size

/-- What a scalar of a document stands for.  A global tag says what to read the text as; a local
    tag or none leaves it to the style.  A local tag whose name is not text is dropped. -/
def scalarValue? (tag? : Option Bytes) (style : Style) (text : String) : Option Value :=
  let plain : Option Value :=
    match Plain.resolve text with
    | .null => some .null
    | .bool b => some (.bool b)
    | .int n => if isStorable n then some (.int n) else none
    | .float x => some (.float x)
    | .word => some (.string text)
  let written := if style = .plain then plain else some (.string text)
  match tag? with
  | none => written
  | some tag =>
    match localTag? tag with
    | some name => written.map (.tagged name)
    | none =>
      if tag == typeTag "bool" then (Plain.bool? text).map .bool
      else if tag == typeTag "int" then ((Plain.int? text.toList).filter isStorable).map .int
      else if tag == typeTag "float" then (Plain.float? text).map .float
      else if tag == typeTag "null" then if Plain.isNull text then some .null else none
      else if isLocalTag tag then written
      else some (.string text)

namespace Node

/-- `value` under the local tag among `props`. -/
def addTag (props : Props) (value : Value) : Value :=
  match props.tag?.bind localTag? with
  | some name => .tagged name value
  | none => value

/-- Whether no key occurs twice. -/
def areDistinct : Entries → Bool
  | [] => true
  | (k, _) :: rest => !rest.any (fun (l, _) => k.same l) && areDistinct rest

/-- The tree of a node in which collections may be nested less than `depth` deep. -/
def value? (anchors : List (Nat × Node)) : Nat → Node → Option Value
  | 0, _ => none
  | depth + 1, node =>
    match node.follow? anchors with
    | some (.scalar props style text) => scalarValue? props.tag? style text
    | some (.seq props items) =>
      if depth = 0 then none
      else (items.mapM (value? anchors depth)).map fun items => addTag props (.seq items)
    | some (.map props entries) =>
      if depth = 0 then none
      else
        let read := entries.mapM fun (k, v) =>
          match value? anchors depth k, value? anchors depth v with
          | some key, some value => some (key, value)
          | _, _ => none
        (read.filter areDistinct).map fun entries => addTag props (.map entries)
    | _ => none

end Node

/-- A place from which a value is read: a node, with the nodes aliases refer to and the number of
    collections that may be entered from here, or a tree. -/
inductive View where
  | node (anchors : List (Nat × Node)) (depth : Nat) (node : Node)
  | tree (value : Value)

/-- The fields of a mapping that is read as a record. -/
structure Fields where
  entries : List (String × View)

/-- How deep the collections of a document may be nested. -/
def maxDepth : Nat := 128

namespace View

/-- The root of a document. -/
def ofDocument (document : Document) : View := .node document.anchors maxDepth document.root

/-- The root of the document in a source, unless its aliases repeat what the outline shows too often. -/
def ofSourceWithin? (outline : Outline) (source : Source) : Option View :=
  ((Document.ofSource? source).filter fun document => !document.isExplosive outline).map ofDocument

/-- The root of the document in a source of which all is read. -/
def ofSource? (source : Source) : Option View := ofSourceWithin? .whole source

/-- Anything, as a tree. -/
def value? : View → Option Value
  | .node anchors depth here => here.value? anchors (depth + 1)
  | .tree value => some value

/-- A text: any scalar of a document, but only a string of a tree. -/
def text? : View → Option String
  | .node anchors _ here =>
    match here.follow? anchors with
    | some (.scalar _ _ text) => some text
    | _ => none
  | .tree value => value.asString?

/-- The text of a scalar that is written in a way that lets it be read as the type whose tag is
    `tag`. -/
def literal? (anchors : List (Nat × Node)) (tag : Bytes) (here : Node) : Option String :=
  match here.follow? anchors with
  | some (.scalar _ .plain text) => some text
  | some (.scalar props .literal text) => if props.tag? == some tag then some text else none
  | _ => none

/-- A boolean.  In a document only a plain scalar can be one. -/
def bool? : View → Option Bool
  | .node anchors _ here => (literal? anchors (typeTag "bool") here).bind Plain.bool?
  | .tree value =>
    match value.untagged with
    | .bool b => some b
    | _ => none

/-- A whole number from `low` to `high`. -/
def int? (low high : Int) (view : View) : Option Int :=
  let read : Option Int := match view with
    | .node anchors _ here =>
      (literal? anchors (typeTag "int") here).bind fun text => Plain.int? text.toList
    | .tree value =>
      match value.untagged with
      | .int n => some n
      | _ => none
  read.filter fun n => low ≤ n && n ≤ high

/-- A whole number that fits into 32 bits. -/
def int32? (view : View) : Option Int32 :=
  (view.int? Int32.minValue.toInt Int32.maxValue.toInt).map Int32.ofInt

/-- A whole number that fits into 64 bits. -/
def int64? (view : View) : Option Int64 :=
  (view.int? Int64.minValue.toInt Int64.maxValue.toInt).map Int64.ofInt

/-- Whether a place that may be empty is; `none` if that cannot be told. -/
def isAbsent? : View → Option Bool
  | .node anchors _ here =>
    match here.follow? anchors with
    | some (.scalar props .plain text) =>
      match props.tag? with
      | none => some (text.isEmpty || Plain.isNull text)
      | some tag =>
        if tag == typeTag "null" then (if Plain.isNull text then some true else none)
        else some false
    | some _ => some false
    | none => none
  | .tree .null => some true
  | .tree _ => some false

/-- A value that may be null. -/
def optional? {α : Type} (read : View → Option α) (view : View) : Option (Option α) :=
  match view.isAbsent? with
  | some true => some none
  | some false => (read view).map some
  | none => none

/-- The name of a variant without contents: a scalar, or a local tag on a null. -/
def variant? : View → Option String
  | .node anchors _ here =>
    match here.follow? anchors with
    | some (.scalar props style text) =>
      match props.tag?.bind markedTag? with
      | some name =>
        if style = .plain && (text.isEmpty || Plain.isNull text) then some name else none
      | none => some text
    | _ => none
  | .tree (.string name) => some name
  | .tree (.tagged name .null) => some name
  | .tree _ => none

/-- Whether nothing is written here; a collection that is left out is empty. -/
def isOmitted : Node → Bool
  | .scalar _ .plain text => text.isEmpty
  | _ => false

/-- The items of a sequence. -/
def items? : View → Option (List View)
  | .node anchors depth here =>
    match here.follow? anchors, depth with
    | some (.seq _ items), depth + 1 => some (items.map (.node anchors depth))
    | some other, _ => if isOmitted other then some [] else none
    | none, _ => none
  | .tree value =>
    match value.untagged with
    | .seq items => some (items.map .tree)
    | .null => some []
    | _ => none

/-- The entries of a mapping. -/
def entries? : View → Option (List (View × View))
  | .node anchors depth here =>
    match here.follow? anchors, depth with
    | some (.map _ entries), depth + 1 =>
      some (entries.map fun (k, v) => (.node anchors depth k, .node anchors depth v))
    | some other, _ => if isOmitted other then some [] else none
    | none, _ => none
  | .tree value =>
    match value.untagged with
    | .map entries => some (entries.map fun (k, v) => (.tree k, .tree v))
    | .null => some []
    | _ => none

/-- A list of values of one kind. -/
def list? {α : Type} (read : View → Option α) (view : View) : Option (List α) :=
  view.items?.bind (·.mapM read)

/-- The entries of a mapping whose keys are texts. -/
def fields? (view : View) : Option Fields :=
  view.entries?.bind fun entries =>
    (entries.mapM fun (entry : View × View) => entry.1.text?.map fun name => (name, entry.2)).map Fields.mk

/-- A table of values of one kind; of several values for a name the last one counts. -/
def table? {α : Type} (read : View → Option α) (view : View) : Option (Table α) :=
  view.fields?.bind fun fields =>
    (fields.entries.mapM fun (field : String × View) => (read field.2).map fun found => (field.1, found)).map
      Table.ofList

mutual

/-- Whether there is a tag anywhere in a tree. -/
def hasTag : Value → Bool
  | .tagged _ _ => true
  | .seq items => hasTagItems items
  | .map entries => hasTagEntries entries
  | _ => false

/-- The same for the items of a sequence. -/
def hasTagItems : List Value → Bool
  | [] => false
  | v :: rest => hasTag v || hasTagItems rest

/-- The same for the keys and values of a mapping. -/
def hasTagEntries : List (Value × Value) → Bool
  | [] => false
  | (k, v) :: rest => hasTag k || (hasTag v || hasTagEntries rest)

end

/-- Anything without tags, as a tree. -/
def untaggedValue? (view : View) : Option Value := view.value?.filter fun v => !hasTag v

end View

namespace Fields

/-- The places at which a field is written. -/
def all (fields : Fields) (name : String) : List View :=
  (fields.entries.filter (·.1 == name)).map (·.2)

/-- The field itself, `default` if it is missing; it must not be repeated. -/
def withDefault? {α : Type} (fields : Fields) (name : String) (read : View → Option α)
    (default : α) : Option α :=
  match fields.all name with
  | [] => some default
  | [view] => read view
  | _ => none

/-- A field that must not be missing. -/
def required? {α : Type} (fields : Fields) (name : String) (read : View → Option α) : Option α :=
  match fields.all name with
  | [view] => read view
  | _ => none

/-- A field that may be missing or null. -/
def optional? {α : Type} (fields : Fields) (name : String) (read : View → Option α) :
    Option (Option α) :=
  fields.withDefault? name (View.optional? read) none

/-- A field that may be missing, null or repeated; the last place counts, but all are read. -/
def last? {α : Type} (fields : Fields) (name : String) (read : View → Option α) :
    Option (Option α) :=
  ((fields.all name).mapM (View.optional? read)).map fun found => found.getLast?.join

/-- A text that may be missing, null or repeated. -/
def lastText? (fields : Fields) (name : String) : Option (Option String) :=
  fields.last? name View.text?

/-- A list of texts that may be missing, null or repeated. -/
def lastTexts? (fields : Fields) (name : String) : Option (Option (List String)) :=
  fields.last? name (View.list? View.text?)

/-- The fields with those called `old` called `new`. -/
def renamed (fields : Fields) (old new : String) : Fields :=
  ⟨fields.entries.map fun (name, view) => (if name == old then new else name, view)⟩

/-- The values of all fields but the one called `name`, none of them tagged; of a repeated field the
    last one counts. -/
def others? (fields : Fields) (name : String) : Option (Table Value) :=
  ((fields.entries.filter fun field => field.1 != name).mapM fun (field : String × View) =>
    field.2.untaggedValue?.map fun value => (field.1, value)).map Table.ofList

end Fields
end DeployManifest.Yaml
