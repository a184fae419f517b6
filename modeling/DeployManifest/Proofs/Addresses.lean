import DeployManifest.Patch.Operation
import DeployManifest.Proofs.KeyOrder
import Mathlib.Data.List.Basic

/-!
# Addresses in trees

The address of a place in a tree is the branches that lead there from the root: keys of mappings and
indices into sequences.  Tags are seen through.  `at?` is what stands at an address.

`putChild` gives a node with another child at a branch.  It changes what stands at this branch
(`child?_putChild_self`) and nothing else in the node (`child?_putChild_of_ne`); with the child that is
there already it changes nothing at all (`putChild_child`).  It is only for branches that are open: keys
that are strings, and indices up to the end of a sequence.

`Resolves` says to which address the steps of a path lead, step by step.

- `Branch`, `Address`, `at?`, `below?`: addresses and what stands at them.
- `withContent`, `tags`, `eq_withContent`: a node taken apart into its tags and its content.
- `putChild`, `IsOpen`: a node with another child, and where it can be put.
- `IsBlank`, `itemsAt?`: what a step goes on from where nothing or a null stands.
- `Takes`, `Resolves`: to which branch a step leads, and to which address a path.
-/

namespace DeployManifest.Patch

open Yaml (Value Entries)

/-! ## Entries with strings as keys -/

section

variable {key value : Value} {name : String} {entries : Entries}

/-- A name that has been bound has the new value. -/
theorem lookup?_insert_self :
    Value.lookup? (.string name) (Value.insert (.string name) value entries) = some value := by
  induction entries with
  | nil => simp [Value.insert, Value.lookup?, Value.same]
  | cons first rest ih =>
    obtain ⟨k, v⟩ := first
    unfold Value.insert
    split
    · next same => simp [Value.lookup?, same]
    · next other => simp [Value.lookup?, other, ih]

/-- All other keys have the values they had. -/
theorem lookup?_insert_of_ne (other : key ≠ .string name) :
    Value.lookup? key (Value.insert (.string name) value entries) = Value.lookup? key entries := by
  have apart : (Value.string name).same key = false :=
    Bool.eq_false_iff.mpr fun same => other (Value.string_same_iff.mp same)
  induction entries with
  | nil => simp [Value.insert, Value.lookup?, apart]
  | cons first rest ih =>
    obtain ⟨k, v⟩ := first
    unfold Value.insert
    split
    · next same =>
      obtain rfl := Value.same_string_iff.mp same
      simp [Value.lookup?, apart]
    · simp [Value.lookup?, ih]

/-- Binding a key to the value it has already changes nothing. -/
theorem insert_of_lookup? (bound : Value.lookup? key entries = some value) :
    Value.insert key value entries = entries := by
  induction entries with
  | nil => nomatch bound
  | cons first rest ih =>
    obtain ⟨k, v⟩ := first
    unfold Value.lookup? at bound
    unfold Value.insert
    split at bound
    · next same =>
      obtain rfl := Option.some.inj bound
      rw [if_pos same]
    · next other => rw [if_neg other, ih bound]

/-- An old key keeps its place, and a new one comes behind all others. -/
theorem keys_insert (key value : Value) (entries : Entries) :
    entries.map (·.1) <+: (Value.insert key value entries).map (·.1) := by
  induction entries with
  | nil => exact List.nil_prefix
  | cons first rest ih =>
    obtain ⟨k, v⟩ := first
    unfold Value.insert
    split
    · exact List.prefix_rfl
    · exact List.cons_prefix_cons.mpr ⟨rfl, ih⟩

end

/-! ## Nodes and their tags -/

/-- The tags around the content of a node, from the outside inwards. -/
def tags : Value → List String
  | .tagged tag inner => tag :: tags inner
  | _ => []

section

variable {node content : Value} {entries : Entries} {items : List Value}

@[simp] theorem untagged_withContent : (withContent content node).untagged = content.untagged := by
  induction node using withContent.induct with
  | case1 tag inner ih => exact ih
  | case2 other not_tagged => rw [withContent.eq_2 _ _ not_tagged]

@[simp] theorem withContent_untagged : ∀ node : Value, withContent node.untagged node = node
  | .tagged tag inner => congrArg (Value.tagged tag) (withContent_untagged inner)
  | .null | .bool _ | .int _ | .float _ | .string _ | .seq _ | .map _ => rfl

/-- Within the tags of a node stands what is put there. -/
theorem tags_withContent (bare : tags content = []) : tags (withContent content node) = tags node := by
  induction node using withContent.induct with
  | case1 tag inner ih => exact congrArg (tag :: ·) ih
  | case2 other not_tagged =>
    rw [withContent.eq_2 _ _ not_tagged, bare, tags.eq_2 _ not_tagged]

/-- A node is its tags and what stands within them. -/
theorem eq_withContent {other : Value} (kept : tags other = tags node) :
    other = withContent other.untagged node := by
  induction node using withContent.induct generalizing other with
  | case1 tag inner ih =>
    cases other with
    | tagged tag' inner' =>
      obtain ⟨rfl, within⟩ := List.cons.inj kept
      exact congrArg (Value.tagged tag') (ih within)
    | _ => nomatch kept
  | case2 bare not_tagged =>
    rw [tags.eq_2 _ not_tagged] at kept
    rw [withContent.eq_2 _ _ not_tagged]
    cases other with
    | tagged tag inner => nomatch kept
    | _ => rfl

/-- A node has entries just if it is a mapping below its tags. -/
theorem entries?_eq_some_iff : entries? node = some entries ↔ node.untagged = .map entries := by
  unfold entries?
  split
  · next found untagged => simp [untagged]
  · next other => exact ⟨nofun, fun untagged => absurd untagged (other entries)⟩

/-- A node has items just if it is a sequence below its tags. -/
theorem items?_eq_some_iff : items? node = some items ↔ node.untagged = .seq items := by
  unfold items?
  split
  · next found untagged => simp [untagged]
  · next other => exact ⟨nofun, fun untagged => absurd untagged (other items)⟩

@[simp] theorem entries?_withContent_map : entries? (withContent (.map entries) node) = some entries :=
  entries?_eq_some_iff.mpr untagged_withContent

@[simp] theorem items?_withContent_seq : items? (withContent (.seq items) node) = some items :=
  items?_eq_some_iff.mpr untagged_withContent

@[simp] theorem items?_withContent_map : items? (withContent (.map entries) node) = none := by
  simp [items?, Value.untagged]

@[simp] theorem entries?_withContent_seq : entries? (withContent (.seq items) node) = none := by
  simp [entries?, Value.untagged]

theorem items?_eq_none_of_map (map : entries? node = some entries) : items? node = none := by
  simp [items?, entries?_eq_some_iff.mp map]

theorem entries?_eq_none_of_seq (seq : items? node = some items) : entries? node = none := by
  simp [entries?, items?_eq_some_iff.mp seq]

theorem withContent_map (map : entries? node = some entries) : withContent (.map entries) node = node := by
  rw [← entries?_eq_some_iff.mp map, withContent_untagged]

theorem withContent_seq (seq : items? node = some items) : withContent (.seq items) node = node := by
  rw [← items?_eq_some_iff.mp seq, withContent_untagged]

theorem eq_withContent_map {other : Value} (kept : tags other = tags node) (map : entries? other = some entries) :
    other = withContent (.map entries) node := by
  rw [eq_withContent kept, entries?_eq_some_iff.mp map]

theorem eq_withContent_seq {other : Value} (kept : tags other = tags node) (seq : items? other = some items) :
    other = withContent (.seq items) node := by
  rw [eq_withContent kept, items?_eq_some_iff.mp seq]

end

/-! ## Branches and addresses -/

/-- A way from a node to one of its children. -/
inductive Branch where
  | key (key : Value)
  | index (n : Nat)
  deriving DecidableEq

/-- The branches that lead from the root of a tree to a place in it. -/
abbrev Address := List Branch

/-- The child of a node at a branch. -/
def child? (node : Value) : Branch → Option Value
  | .key key => (entries? node).bind (Value.lookup? key)
  | .index n => (items? node).bind (·[n]?)

/-- What stands at an address. -/
def at? (node : Value) : Address → Option Value
  | [] => some node
  | branch :: rest => (child? node branch).bind (at? · rest)

/-- What stands at an address below a place where perhaps nothing stands. -/
def below? (node? : Option Value) (address : Address) : Option Value := node?.bind (at? · address)

/-- A node with a child at a branch; a branch that is missing comes behind all others. -/
def putChild (node : Value) (branch : Branch) (child : Value) : Value :=
  match branch with
  | .key key =>
    match entries? node with
    | some entries => withContent (.map (Value.insert key child entries)) node
    | none => node
  | .index n =>
    match items? node with
    | some items =>
      withContent (.seq (if n < items.length then items.set n child else items ++ [child])) node
    | none => node

/-- Whether a child can be put at a branch of a node. -/
inductive IsOpen (node : Value) : Branch → Prop where
  | key {entries : Entries} {name : String} (map : entries? node = some entries) :
    IsOpen node (.key (.string name))
  | index {items : List Value} {n : Nat} (seq : items? node = some items) (le : n ≤ items.length) :
    IsOpen node (.index n)

section

variable {node child : Value} {node? : Option Value} {branch other : Branch} {entries : Entries}
  {items : List Value} {name : String} {n : Nat} {address : Address}

theorem at?_cons (node : Value) (branch : Branch) (address : Address) :
    at? node (branch :: address) = (child? node branch).bind (at? · address) := rfl

@[simp] theorem below?_some (node : Value) (address : Address) : below? (some node) address = at? node address :=
  rfl

@[simp] theorem below?_none (address : Address) : below? none address = none := rfl

@[simp] theorem below?_nil (node? : Option Value) : below? node? [] = node? := by
  cases node? <;> rfl

theorem below?_cons (node? : Option Value) (branch : Branch) (address : Address) :
    below? node? (branch :: address) = below? (node?.bind (child? · branch)) address := by
  cases node? <;> rfl

/-- A child at a key is bound to it among the entries. -/
theorem putChild_key (map : entries? node = some entries) :
    putChild node (.key (.string name)) child =
      withContent (.map (Value.insert (.string name) child entries)) node := by
  unfold putChild
  rw [map]

/-- A child at an index that is there takes the place of the item. -/
theorem putChild_set (seq : items? node = some items) (lt : n < items.length) :
    putChild node (.index n) child = withContent (.seq (items.set n child)) node := by
  unfold putChild
  rw [seq]
  dsimp only
  rw [if_pos lt]

/-- A child at the index behind the last item is appended. -/
theorem putChild_append (seq : items? node = some items) :
    putChild node (.index items.length) child = withContent (.seq (items ++ [child])) node := by
  unfold putChild
  rw [seq]
  dsimp only
  rw [if_neg (Nat.lt_irrefl _)]

theorem child?_key (map : entries? node = some entries) (key : Value) :
    child? node (.key key) = Value.lookup? key entries := by
  simp [child?, map]

theorem child?_index (seq : items? node = some items) (n : Nat) : child? node (.index n) = items[n]? := by
  simp [child?, seq]

/-- At an open branch the new child stands. -/
theorem child?_putChild_self (opened : IsOpen node branch) :
    child? (putChild node branch child) branch = some child := by
  cases opened with
  | key map => rw [putChild_key map, child?_key entries?_withContent_map, lookup?_insert_self]
  | @index items n seq le =>
    rcases Nat.lt_or_eq_of_le le with lt | rfl
    · rw [putChild_set seq lt, child?_index items?_withContent_seq, List.getElem?_set_self lt]
    · rw [putChild_append seq, child?_index items?_withContent_seq, List.getElem?_concat_length]

/-- At all other branches stands what stood there before. -/
theorem child?_putChild_of_ne (opened : IsOpen node branch) (ne : other ≠ branch) :
    child? (putChild node branch child) other = child? node other := by
  cases opened with
  | @key entries name map =>
    rw [putChild_key map]
    cases other with
    | key key =>
      rw [child?_key entries?_withContent_map, child?_key map]
      exact lookup?_insert_of_ne fun same => ne (congrArg Branch.key same)
    | index m => simp [child?, items?_eq_none_of_map map]
  | @index items n seq le =>
    cases other with
    | key key =>
      unfold putChild
      rw [seq]
      simp [child?, entries?_eq_none_of_seq seq]
    | index m =>
      have apart : n ≠ m := fun same => ne (congrArg Branch.index same.symm)
      -- the child takes the place of an item, or is appended
      rcases Nat.lt_or_eq_of_le le with lt | rfl
      · rw [putChild_set seq lt, child?_index items?_withContent_seq, child?_index seq,
          List.getElem?_set_ne apart]
      · rw [putChild_append seq, child?_index items?_withContent_seq, child?_index seq]
        rcases Nat.lt_or_gt_of_ne apart with above | below
        · rw [List.getElem?_eq_none (by simp; omega), List.getElem?_eq_none (Nat.le_of_lt above)]
        · exact List.getElem?_append_left below

/-- A child that is there already can be put there again. -/
theorem putChild_child (there : child? node branch = some child) : putChild node branch child = node := by
  cases branch with
  | key key =>
    obtain ⟨entries, map, bound⟩ := Option.bind_eq_some_iff.mp there
    unfold putChild
    rw [map]
    dsimp only
    rw [insert_of_lookup? bound, withContent_map map]
  | index n =>
    obtain ⟨items, seq, item⟩ := Option.bind_eq_some_iff.mp there
    obtain ⟨lt, rfl⟩ := List.getElem?_eq_some_iff.mp item
    rw [putChild_set seq lt, List.set_getElem_self, withContent_seq seq]

theorem at?_putChild_self (opened : IsOpen node branch) :
    at? (putChild node branch child) (branch :: address) = at? child address := by
  rw [at?_cons, child?_putChild_self opened, Option.bind_some]

theorem at?_putChild_of_ne (opened : IsOpen node branch) (ne : other ≠ branch) :
    at? (putChild node branch child) (other :: address) = at? node (other :: address) := by
  rw [at?_cons, child?_putChild_of_ne opened ne, at?_cons]

end

/-! ## Where steps lead -/

/-- The items at a place for a step that goes through a sequence: where nothing or a null stands, there
    are none yet. -/
def itemsAt? : Option Value → Option (List Value)
  | none => some []
  | some node =>
    match node.untagged with
    | .null => some []
    | .seq items => some items
    | _ => none

/-- The branch that a step takes from a place; `isOptional` tells whether the step may lead to where
    nothing stands. -/
inductive Takes (isOptional : Bool) (node? : Option Value) : Step → Branch → Prop where
  | key (name : String) (marked : Bool) : Takes isOptional node? (.key name marked) (.key (.string name))
  | index (n : Nat) : Takes isOptional node? (.index n) (.index n)
  | afterLast {items : List Value} (seq : itemsAt? node? = some items) :
    Takes isOptional node? .afterLast (.index items.length)
  | first {items : List Value} {field value : String} {marked : Bool} {n : Nat}
    (seq : itemsAt? node? = some items) (first : position? field value items = some n) :
    Takes isOptional node? (.matching field value marked) (.index n)
  /-- An optional match that is found nowhere leads behind the last item. -/
  | behind {items : List Value} {field value : String} {marked : Bool} (optional : isOptional = true)
    (seq : itemsAt? node? = some items) (unmatched : position? field value items = none) :
    Takes isOptional node? (.matching field value marked) (.index items.length)

/-- Whether steps lead from a place to an address below it; `isOptional` tells whether a step in front
    of them is optional. -/
inductive Resolves : Bool → List Step → Option Value → Address → Prop where
  | here (isOptional : Bool) (node? : Option Value) : Resolves isOptional [] node? []
  | step {isOptional : Bool} {step : Step} {rest : List Step} {node? : Option Value} {branch : Branch}
    {address : Address} (takes : Takes (isOptional || step.isOptional) node? step branch)
    (later : Resolves (isOptional || step.isOptional) rest (node?.bind (child? · branch)) address) :
    Resolves isOptional (step :: rest) node? (branch :: address)

/-- An optional step that meets a null goes on from an empty container; any other step, from the node
    that is there. -/
theorem enter_cases (step : Step) (node : Value) :
    step.enter node = node ∨
      step.isOptional = true ∧ node.untagged = .null ∧ step.enter node = step.container := by
  unfold Step.enter
  split
  · next null =>
    split
    · next optional => exact .inr ⟨optional, null, rfl⟩
    · exact .inl rfl
  · exact .inl rfl

section

variable {node : Value} {branch : Branch} {step : Step}

theorem enter_of_ne_null (not_null : node.untagged ≠ .null) : step.enter node = node := by
  rcases enter_cases step node with same | ⟨-, null, -⟩
  · exact same
  · exact absurd null not_null

/-- An optional step turns a null into the container it asks for. -/
theorem enter_of_null (optional : step.isOptional = true) (null : node.untagged = .null) :
    step.enter node = step.container := by
  unfold Step.enter
  rw [null]
  dsimp only
  rw [if_pos optional]

theorem IsOpen.ne_null (opened : IsOpen node branch) : node.untagged ≠ .null := by
  cases opened with
  | key map => simp [entries?_eq_some_iff.mp map]
  | index seq => simp [items?_eq_some_iff.mp seq]

end

/-! ## Places where nothing stands -/

/-- Whether nothing but perhaps a null stands at a place. -/
inductive IsBlank : Option Value → Prop where
  | nothing : IsBlank none
  | null {node : Value} (null : node.untagged = .null) : IsBlank (some node)

section

variable {node : Value} {node? old? : Option Value} {branch : Branch} {address : Address} {step : Step}
  {isOptional : Bool} {steps : List Step}

theorem IsBlank.bind_child? (blank : IsBlank old?) : old?.bind (child? · branch) = none := by
  cases blank with
  | nothing => rfl
  | null null => cases branch <;> simp [child?, entries?, items?, null]

theorem IsBlank.below? (blank : IsBlank old?) : below? old? (branch :: address) = none := by
  rw [below?_cons, blank.bind_child?, below?_none]

theorem IsBlank.itemsAt? (blank : IsBlank old?) : itemsAt? old? = some [] := by
  cases blank with
  | nothing => rfl
  | null null => simp [Patch.itemsAt?, null]

theorem itemsAt?_of_items? {items : List Value} (seq : items? node = some items) :
    itemsAt? (some node) = some items := by
  simp [itemsAt?, items?_eq_some_iff.mp seq]

/-- Behind the last item nothing stands. -/
theorem child?_index_length {items : List Value} (seq : itemsAt? (some node) = some items) :
    child? node (.index items.length) = none := by
  cases there : items? node with
  | none => simp [child?, there]
  | some others =>
    obtain rfl := Option.some.inj ((itemsAt?_of_items? there).symm.trans seq)
    rw [child?_index there, List.getElem?_eq_none (Nat.le_refl _)]

/-- A step leads to one branch only. -/
theorem Takes.unique {another : Branch} (takes : Takes isOptional node? step branch)
    (takes_too : Takes isOptional node? step another) : branch = another := by
  cases takes with
  | key | index => cases takes_too; rfl
  | afterLast seq =>
    cases takes_too with
    | afterLast seq_too => rw [Option.some.inj (seq.symm.trans seq_too)]
  -- that the same item both matches and does not match is out of the question
  | first seq first =>
    cases takes_too with
    | first seq_too first_too =>
      obtain rfl := Option.some.inj (seq.symm.trans seq_too)
      rw [Option.some.inj (first.symm.trans first_too)]
    | behind _ seq_too unmatched =>
      obtain rfl := Option.some.inj (seq.symm.trans seq_too)
      cases first.symm.trans unmatched
  | behind _ seq unmatched =>
    cases takes_too with
    | first seq_too first =>
      obtain rfl := Option.some.inj (seq.symm.trans seq_too)
      cases first.symm.trans unmatched
    | behind _ seq_too => rw [Option.some.inj (seq.symm.trans seq_too)]

/-- Steps that meet no items on their way lead where they lead from a place where nothing stands. -/
theorem Resolves.of_no_items (resolves : Resolves isOptional steps node? address)
    (no_items : ∀ other items, itemsAt? (Patch.below? node? other) = some items → items = [])
    (blank : IsBlank old?) : Resolves isOptional steps old? address := by
  induction resolves generalizing old? with
  | here => exact .here _ _
  | @step isOptional step rest node? branch address takes _ ih =>
    have later : Resolves (isOptional || step.isOptional) rest none address :=
      ih (fun other items seq => no_items (branch :: other) items (by rwa [below?_cons])) .nothing
    have none_here : ∀ items, Patch.itemsAt? node? = some items → items = [] := fun items seq =>
      no_items [] items (by rwa [below?_nil])
    refine .step ?_ (by rwa [blank.bind_child?])
    -- indices that depend on items are those of no items, here as there
    cases takes with
    | key => exact .key _ _
    | index n => exact .index n
    | afterLast seq =>
      obtain rfl := none_here _ seq
      exact .afterLast blank.itemsAt?
    | first seq first =>
      obtain rfl := none_here _ seq
      nomatch first
    | behind optional seq unmatched =>
      obtain rfl := none_here _ seq
      exact .behind optional blank.itemsAt? unmatched

end

end DeployManifest.Patch
