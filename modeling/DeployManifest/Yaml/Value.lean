import DeployManifest.Number.Shortest

/-!
# Untyped YAML trees

A document without a schema is a tree of scalars, sequences and mappings, any of which may carry a
tag.  The entries of a mapping keep the order in which they were written, but two mappings count as
the same if they hold the same entries in any order; `Value.same` is that notion of sameness, and it
also decides when two keys are equal.

Main operations: `lookup?` and `insert` on entries, `removeKey?`, which moves the last entry to the
place of the removed one, and `field?`, which sees through tags.  Equality of trees, order and all, is
decidable.
-/

namespace DeployManifest.Yaml

open Number (Double)

/-- A YAML tree. -/
inductive Value where
  | null
  | bool (b : Bool)
  | int (n : Int)
  | float (x : Double)
  | string (s : String)
  | seq (items : List Value)
  | map (entries : List (Value × Value))
  | tagged (tag : String) (content : Value)

instance : Inhabited Value := ⟨.null⟩

/-- The entries of a mapping, in order. -/
abbrev Entries := List (Value × Value)

namespace Value

mutual

/-- Whether two trees are the same up to the order of mapping entries.  An integer is never the
    same as a float. -/
def same : Value → Value → Bool
  | .null, .null => true
  | .bool a, .bool b => a == b
  | .int a, .int b => a == b
  | .float a, .float b => a.same b
  | .string a, .string b => a == b
  | .seq a, .seq b => sameItems a b
  | .map a, .map b => a.length == b.length && sameEntries a b
  | .tagged s a, .tagged t b => s == t && same a b
  | _, _ => false

/-- Whether two sequences are the same item by item. -/
def sameItems : List Value → List Value → Bool
  | [], [] => true
  | a :: as, b :: bs => same a b && sameItems as bs
  | _, _ => false

/-- Whether every entry on the left is also on the right. -/
def sameEntries : List (Value × Value) → List (Value × Value) → Bool
  | [], _ => true
  | (k, v) :: rest, bs => bs.any (fun (l, w) => same k l && same v w) && sameEntries rest bs

end

mutual

/-- Whether two trees are equal: unlike for `same`, the order of entries counts. -/
def isEqual : Value → Value → Bool
  | .null, .null => true
  | .bool a, .bool b => a == b
  | .int a, .int b => a == b
  | .float a, .float b => decide (a = b)
  | .string a, .string b => a == b
  | .seq a, .seq b => isEqualItems a b
  | .map a, .map b => isEqualEntries a b
  | .tagged s a, .tagged t b => s == t && isEqual a b
  | _, _ => false

/-- Whether two sequences are equal, item by item. -/
def isEqualItems : List Value → List Value → Bool
  | [], [] => true
  | a :: as, b :: bs => isEqual a b && isEqualItems as bs
  | _, _ => false

/-- Whether two lists of entries are equal, entry by entry. -/
def isEqualEntries : List (Value × Value) → List (Value × Value) → Bool
  | [], [] => true
  | (k, v) :: as, (l, w) :: bs => isEqual k l && (isEqual v w && isEqualEntries as bs)
  | _, _ => false

end

mutual

/-- The test of equality is right, so equality can be decided. -/
theorem isEqual_iff : ∀ a b : Value, isEqual a b = true ↔ a = b
  | .null, b => by cases b <;> simp [isEqual]
  | .bool _, b => by cases b <;> simp [isEqual]
  | .int _, b => by cases b <;> simp [isEqual]
  | .float _, b => by cases b <;> simp [isEqual]
  | .string _, b => by cases b <;> simp [isEqual]
  | .seq as, b => by cases b <;> simp [isEqual, isEqualItems_iff as]
  | .map as, b => by cases b <;> simp [isEqual, isEqualEntries_iff as]
  | .tagged _ v, b => by cases b <;> simp [isEqual, isEqual_iff v]

/-- The same for the items of sequences. -/
theorem isEqualItems_iff : ∀ as bs : List Value, isEqualItems as bs = true ↔ as = bs
  | [], bs => by cases bs <;> simp [isEqualItems]
  | a :: as, bs => by cases bs <;> simp [isEqualItems, isEqual_iff a, isEqualItems_iff as]

/-- The same for the entries of mappings. -/
theorem isEqualEntries_iff :
    ∀ as bs : List (Value × Value), isEqualEntries as bs = true ↔ as = bs
  | [], bs => by cases bs <;> simp [isEqualEntries]
  | (k, v) :: as, bs => by
    rcases bs with _ | ⟨⟨l, w⟩, bs⟩ <;>
      simp [isEqualEntries, isEqual_iff k, isEqual_iff v, isEqualEntries_iff as, and_assoc]

end

instance : DecidableEq Value := fun a b => decidable_of_iff (isEqual a b = true) (isEqual_iff a b)

/-- The value bound to `key`. -/
def lookup? (key : Value) : Entries → Option Value
  | [] => none
  | (k, v) :: rest => if k.same key then some v else lookup? key rest

/-- Binds `key`: in its old place if it is bound already, as the last entry otherwise. -/
def insert (key value : Value) : Entries → Entries
  | [] => [(key, value)]
  | (k, v) :: rest => if k.same key then (k, value) :: rest else (k, v) :: insert key value rest

/-- The entries inserted one after another, so that a later equal key overwrites. -/
def insertAll (entries : Entries) : Entries :=
  entries.foldl (fun acc (k, v) => insert k v acc) []

/-- The place of `key` among the entries. -/
def position? (key : Value) (entries : Entries) : Option Nat :=
  entries.findIdx? fun (k, _) => k.same key

/-- The entries without `key`; the last entry moves into the place that became free. -/
def removeKey? (key : Value) (entries : Entries) : Option Entries :=
  (position? key entries).map fun i =>
    match entries.getLast? with
    | some last => (entries.set i last).dropLast
    | none => []

/-- The tree without the tags around it. -/
def untagged : Value → Value
  | .tagged _ content => untagged content
  | v => v

/-- The value of a field of a mapping, tagged or not. -/
def field? (v : Value) (name : String) : Option Value :=
  match v.untagged with
  | .map entries => lookup? (.string name) entries
  | _ => none

/-- The text of a string, tagged or not. -/
def asString? (v : Value) : Option String :=
  match v.untagged with
  | .string s => some s
  | _ => none

/-- The text a scalar contributes to a longer string: strings, numbers and booleans have one. -/
def scalarText? : Value → Option String
  | .string s => some s
  | .int n => some (toString n)
  | .float x => some x.text
  | .bool true => some "true"
  | .bool false => some "false"
  | _ => none

end Value
end DeployManifest.Yaml
