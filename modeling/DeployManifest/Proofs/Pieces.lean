import DeployManifest.Proofs.FloatText
import DeployManifest.Proofs.PropertyReading
import DeployManifest.Yaml.Printer

/-!
# Pieces of a text

A piece is a node as it stands in a text: a tree whose nodes have a tag or an anchor, or are
references.  Trees have pieces of their own (`Piece.ofValue`), which are written as the trees are, and
with anchors put in they are other pieces, which are written in the same way.

- `Property`, `Leaf`, `Piece`: what stands in front of a node, a scalar with the style that it is written
  in, and a node.
- `Piece.text`: how a piece is written, behind what stands in front of it and in a column.
- `Piece.ofValue`: the piece of a tree, with a property of its own if it gets one.
- `text_ofValue`: the piece of a tree is written as the tree is printed.
-/

namespace DeployManifest.Yaml

/-- What may stand in front of a node. -/
inductive Property where
  | anchor (name : AnchorName)
  | tag (name : String)

namespace Property

/-- How a property is written. -/
def text : Property → List Char
  | .anchor name => '&' :: name.text.toList
  | .tag name => writtenTag name

/-- The token that is read from the text of a property, if there is one. -/
def token? : Property → Option Token
  | .anchor name => some (.anchor name.text)
  | .tag name => tagOf? name

end Property

/-- A scalar with the style that is asked for: a literal block just for texts of several lines. -/
structure Leaf where
  text : String
  wanted : Style
  literal_iff : wanted = .literal ↔ '\n' ∈ text.toList
  nonempty : wanted = .plain → text.toList ≠ []

namespace Leaf

/-- The style in which a scalar is written. -/
def style (leaf : Leaf) : Style := writtenStyle .anyLines leaf.wanted leaf.text.toList

variable {leaf : Leaf}

/-- A scalar fits the style it is written in. -/
theorem style_cases (leaf : Leaf) :
    (leaf.style = .plain ∧ fitsPlain leaf.text.toList = true ∧ leaf.text.toList ≠ []) ∨
    (leaf.style = .singleQuoted ∧ fitsSingleQuotes leaf.text.toList = true ∧
      '\n' ∉ leaf.text.toList) ∨
    (leaf.style = .literal ∧ fitsLiteral leaf.text.toList = true ∧ '\n' ∈ leaf.text.toList) ∨
    leaf.style = .doubleQuoted := by
  have no_feed (other : leaf.wanted ≠ .literal) : '\n' ∉ leaf.text.toList :=
    fun feed => other (leaf.literal_iff.mpr feed)
  unfold style writtenStyle
  -- a style that the text does not fit into gives way to double quotes
  cases wanted : leaf.wanted with
  | plain =>
    by_cases plain : fitsPlain leaf.text.toList = true
    · simp [plain, leaf.nonempty wanted]
    · by_cases single : fitsSingleQuotes leaf.text.toList = true
      · simp [plain, single, no_feed (by simp [wanted])]
      · simp [plain, single]
  | singleQuoted =>
    by_cases single : fitsSingleQuotes leaf.text.toList = true
    · simp [single, no_feed (by simp [wanted])]
    · simp [single]
  | literal =>
    have feed := leaf.literal_iff.mp wanted
    by_cases literal : fitsLiteral leaf.text.toList = true <;> simp [literal, feed]
  | doubleQuoted => simp
  | folded => simp

/-- On a line of its own a scalar is written in the same style as on the line of a key. -/
theorem style_oneLine (no_break : leaf.text.toList.any isBreak = false) :
    writtenStyle .oneLine leaf.wanted leaf.text.toList = leaf.style := by
  unfold style writtenStyle
  cases wanted : leaf.wanted with
  | plain => simp [leaf.nonempty wanted]
  | literal =>
    have breaks : leaf.text.toList.any isBreak = true :=
      List.any_eq_true.mpr ⟨'\n', leaf.literal_iff.mp wanted, by decide⟩
    simp [breaks] at no_break
  | _ => rfl

/-- A word that is written as it is. -/
def word (text : String) (nonempty : text.toList ≠ []) (no_feed : '\n' ∉ text.toList) : Leaf :=
  ⟨text, .plain, by simp [no_feed], fun _ => nonempty⟩

/-- A text of several lines is written as a literal block. -/
theorem wantedStyle_eq_literal_iff (text : String) :
    wantedStyle text = .literal ↔ '\n' ∈ text.toList := by
  unfold wantedStyle
  by_cases feed : '\n' ∈ text.toList
  · simp [feed]
  · simp only [List.contains_eq_mem, feed, decide_false, Bool.false_eq_true, if_false, iff_false]
    split
    · split <;> simp
    · simp

/-- The empty text is not written as a plain word. -/
theorem ne_nil_of_wantedStyle {text : String} (plain : wantedStyle text = .plain) :
    text.toList ≠ [] := by
  intro empty
  obtain rfl : text = "" := String.toList_inj.mp empty
  exact absurd plain (by decide)

/-- The scalar of a text, in the style that the printer wants for it. -/
def ofString (text : String) : Leaf :=
  ⟨text, wantedStyle text, wantedStyle_eq_literal_iff text, ne_nil_of_wantedStyle⟩

open Number (AreDigits areDigits_toDigits toList_toString_int Double)

theorem feed_not_mem_of_areDigits {text : List Char} (digits : AreDigits text) : '\n' ∉ text := by
  intro feed
  exact absurd (digits _ feed) (by decide)

theorem int_ne_nil (n : Int) : (toString n).toList ≠ [] := by
  rw [toList_toString_int]
  exact List.append_ne_nil_of_right_ne_nil _ (List.ne_nil_of_length_pos Nat.length_toDigits_pos)

theorem feed_not_mem_int (n : Int) : '\n' ∉ (toString n).toList := by
  rw [toList_toString_int, List.mem_append, not_or]
  refine ⟨?_, feed_not_mem_of_areDigits (areDigits_toDigits _)⟩
  split <;> decide

/-- A number that is spelled with a point or an exponent stands on one line. -/
theorem feed_not_mem_spell {before after : List Char} {power : Option Int} (front : AreDigits before)
    (back : AreDigits after) : '\n' ∉ Number.spell before after power := by
  have no_point : '\n' ∉ Number.pointed after := by
    unfold Number.pointed
    split
    · simp
    · simp [feed_not_mem_of_areDigits back]
  have no_exponent : '\n' ∉ Number.exponentText power := by
    cases power with
    | none => simp [Number.exponentText]
    | some power =>
      rw [Number.exponentText, List.mem_cons, not_or]
      exact ⟨by decide, feed_not_mem_int power⟩
  simp [Number.spell, feed_not_mem_of_areDigits front, no_point, no_exponent]

/-- The spelling of a number with a fraction stands on one line. -/
theorem feed_not_mem_float (x : Double) : '\n' ∉ x.text.toList := by
  cases not_nan : x.isNaN with
  | true => simp [Double.text, not_nan]
  | false =>
    cases bounded : x.isInfinite with
    | true => cases negative : x.isNegative <;> simp [Double.text, not_nan, bounded, negative]
    | false =>
      have body : '\n' ∉ x.body := by
        unfold Double.body
        split
        · decide
        · obtain ⟨before, after, power, laid⟩ := Number.exists_isLaidOut x.shortest
          rw [laid.text]
          exact feed_not_mem_spell laid.digits.1 laid.digits.2
      rw [Double.text_of_finite not_nan bounded, List.mem_append, not_or]
      refine ⟨?_, body⟩
      split <;> decide

/-- The spelling of a number with a fraction is not empty. -/
theorem float_ne_nil (x : Double) : x.text.toList ≠ [] := by
  cases not_nan : x.isNaN with
  | true => simp [Double.text, not_nan]
  | false =>
    cases bounded : x.isInfinite with
    | true => cases negative : x.isNegative <;> simp [Double.text, not_nan, bounded, negative]
    | false =>
      obtain ⟨c, rest, starts, -⟩ := x.body_head
      rw [Double.text_of_finite not_nan bounded, starts]
      simp

end Leaf

/-- Whether a tree has a tag at its root. -/
def Value.isTagged : Value → Bool
  | .tagged _ _ => true
  | _ => false

/-- A node as it stands in a text. -/
inductive Piece where
  | reference (name : AnchorName)
  | scalar (property? : Option Property) (leaf : Leaf)
  | seq (property? : Option Property) (items : List Piece)
  | map (property? : Option Property) (entries : List (Piece × Piece))

namespace Piece

/-- What holds of a piece whenever it holds of the pieces inside holds of all pieces. -/
@[induction_eliminator]
theorem induct {motive : Piece → Prop} (reference : ∀ name, motive (.reference name))
    (scalar : ∀ property? leaf, motive (.scalar property? leaf))
    (seq : ∀ property? items, (∀ item ∈ items, motive item) → motive (.seq property? items))
    (map : ∀ property? entries, (∀ entry ∈ entries, motive entry.1 ∧ motive entry.2) →
      motive (.map property? entries)) (piece : Piece) : motive piece :=
  @Piece.rec motive (fun items => ∀ item ∈ items, motive item)
    (fun entries => ∀ entry ∈ entries, motive entry.1 ∧ motive entry.2)
    (fun entry => motive entry.1 ∧ motive entry.2) reference scalar seq map (by simp)
    (fun _ _ first rest => List.forall_mem_cons.mpr ⟨first, rest⟩) (by simp)
    (fun _ _ first rest => List.forall_mem_cons.mpr ⟨first, rest⟩) (fun _ _ key value => ⟨key, value⟩)
    piece

/-! ## As they are written -/

/-- A key on one line, without its colon and what stands in front of it, and its size. -/
def bareKey? : Piece → Option (List Char × Nat)
  | .scalar _ leaf =>
    let chars := leaf.text.toList
    if chars.any isBreak then none
    else some (scalarLines (writtenStyle .oneLine leaf.wanted chars) 0 chars, leaf.text.utf8ByteSize)
  | .seq _ [] => some (['[', ']'], 0)
  | .map _ [] => some (['\x7b', '\x7d'], 0)
  | _ => none

/-- The property in front of a piece; a reference has none. -/
def property? : Piece → Option Property
  | .reference _ => none
  | .scalar property? _ | .seq property? _ | .map property? _ => property?

/-- A key on one line, without its colon.  An anchored key gets its own line. -/
def simpleKey? (key : Piece) : Option (List Char) :=
  let found := match key.property? with
    | none => key.bareKey?
    | some (.tag tag) =>
      key.bareKey?.map fun (text, size) => (writtenTag tag ++ ' ' :: text, tagSize tag + size)
    | some (.anchor _) => none
  (found.filter (·.2 ≤ maxKeySize)).map (·.1)

/-- What stands in front of a scalar or an empty collection. -/
def lead (behind : Behind) : Option Property → List Char
  | none => behind.gap
  | some property => behind.gap ++ (property.text ++ [' '])

/-- What stands in front of the first entry of a collection in `column`. -/
def opening (behind : Behind) (column : Nat) : Option Property → List Char
  | none => behind.opening false column
  | some property => behind.gap ++ (property.text ++ '\n' :: spaces column)

mutual

/-- The text of a piece, up to the end of its last line. -/
def text (behind : Behind) (column : Nat) : Piece → List Char
  | .reference name => behind.gap ++ ('*' :: name.text.toList ++ ['\n'])
  | .scalar property? leaf =>
    lead behind property? ++
      endLine (scalarLines leaf.style (if behind = .start then 2 else column + 2) leaf.text.toList)
  | .seq property? [] => lead behind property? ++ ['[', ']', '\n']
  | .map property? [] => lead behind property? ++ ['\x7b', '\x7d', '\n']
  | .seq property? all =>
    -- the first line stands behind what opens the collection already
    let inside := behind.dashes property?.isSome column
    opening behind inside property? ++ (items inside all).drop inside
  | .map property? all =>
    let inside := behind.inner column
    opening behind inside property? ++ (entries inside all).drop inside

/-- The items of a sequence, each on a line of its own behind a dash. -/
def items (column : Nat) : List Piece → List Char
  | [] => []
  | item :: rest => spaces column ++ '-' :: text .dash column item ++ items column rest

/-- The entries of a mapping, each on a line of its own.  A key that is not simple stands behind a question
    mark. -/
def entries (column : Nat) : List (Piece × Piece) → List Char
  | [] => []
  | (k, v) :: rest =>
    let key := match simpleKey? k with
      | some text => spaces column ++ text
      | none => spaces column ++ '?' :: text .mark column k ++ spaces column
    let behind : Behind := if (simpleKey? k).isSome then .key else .mark
    key ++ ':' :: text behind column v ++ entries column rest

end

/-! ## Of trees -/

mutual

/-- The piece of a tree behind a property.  Only one property is kept. -/
def ofValue (property? : Option Property) : Value → Piece
  | .null => .scalar property? (.word "null" (by decide) (by decide))
  | .bool true => .scalar property? (.word "true" (by decide) (by decide))
  | .bool false => .scalar property? (.word "false" (by decide) (by decide))
  | .int n => .scalar property? (.word (toString n) (Leaf.int_ne_nil n) (Leaf.feed_not_mem_int n))
  | .float x => .scalar property? (.word x.text (Leaf.float_ne_nil x) (Leaf.feed_not_mem_float x))
  | .string s => .scalar property? (.ofString s)
  | .seq items => .seq property? (ofItems items)
  | .map entries => .map property? (ofEntries entries)
  | .tagged tag content => ofValue (some (.tag tag)) content

/-- The pieces of items. -/
def ofItems : List Value → List Piece
  | [] => []
  | item :: rest => ofValue none item :: ofItems rest

/-- The pieces of entries. -/
def ofEntries : List (Value × Value) → List (Piece × Piece)
  | [] => []
  | (k, v) :: rest => (ofValue none k, ofValue none v) :: ofEntries rest

end

/-- The piece of a tree can be a simple key if the tree can. -/
theorem bareKey?_ofValue {property? : Option Property} {v : Value} (untagged : v.isTagged = false) :
    (ofValue property? v).bareKey? = v.bareKey? := by
  cases v with
  | null => rfl
  | bool b => cases b <;> rfl
  | int n => rfl
  | float x => rfl
  | string s => rfl
  | seq items => cases items <;> rfl
  | map entries =>
    rcases entries with _ | ⟨⟨k, v⟩, rest⟩ <;> rfl
  | tagged tag content => nomatch untagged

/-- The piece of a tree without a tag has the property that it was given. -/
theorem property?_ofValue {property? : Option Property} {v : Value} (untagged : v.isTagged = false) :
    (ofValue property? v).property? = property? := by
  cases v with
  | bool b => cases b <;> rfl
  | tagged tag content => nomatch untagged
  | _ => rfl

open Value (Setting)

theorem isTagged_of_isPrintable {tag : String} {v : Value} {setting : Setting}
    (printable : (Value.tagged tag v).isPrintable setting = true) :
    v.isPrintable .underTag = true ∧ v.isTagged = false := by
  cases v <;> cases setting <;> simp_all [Value.isPrintable, Value.isTagged]

/-- The piece of a key is written on its line if the key is. -/
theorem simpleKey?_ofValue {key : Value} {setting : Setting}
    (printable : key.isPrintable setting = true) :
    (ofValue none key).simpleKey? = key.simpleKey? := by
  cases key with
  | tagged tag content =>
    obtain ⟨-, untagged⟩ := isTagged_of_isPrintable printable
    rw [ofValue, simpleKey?, property?_ofValue untagged, bareKey?_ofValue untagged]
    rfl
  | _ => 
    rw [simpleKey?, property?_ofValue rfl, bareKey?_ofValue rfl]
    rfl

/-- In entries that can be printed the keys and the values can. -/
theorem isPrintable_of_mem_entries {entries : List (Value × Value)}
    (printable : Value.arePrintableEntries entries = true) :
    ∀ entry ∈ entries, (∃ setting, entry.1.isPrintable setting = true) ∧
      entry.2.isPrintable .free = true := by
  induction entries with
  | nil => simp
  | cons entry rest ih =>
    simp only [Value.arePrintableEntries, Bool.and_eq_true] at printable
    exact List.forall_mem_cons.mpr ⟨⟨⟨.free, printable.1⟩, printable.2.1⟩, ih printable.2.2⟩

/-- The values of a mapping that can be printed can be, and so can its keys where they stand. -/
theorem isPrintable_of_mem {entries : List (Value × Value)} {setting : Setting}
    (printable : (Value.map entries).isPrintable setting = true) :
    ∀ entry ∈ entries, (∃ setting, entry.1.isPrintable setting = true) ∧
      entry.2.isPrintable .free = true := by
  -- where it stands matters only for a mapping of one entry
  match entries with
  | [] => simp
  | [(k, v)] =>
    cases setting with
    | onlyKey => nomatch printable
    | free =>
      simp only [Value.isPrintable, Bool.and_eq_true] at printable
      exact List.forall_mem_singleton.mpr ⟨⟨.onlyKey, printable.1⟩, printable.2⟩
    | onlyKeyUnderTag =>
      simp only [Value.isPrintable, Bool.and_eq_true] at printable
      exact List.forall_mem_singleton.mpr ⟨⟨.onlyKey, printable.1⟩, printable.2⟩
    | underTag =>
      simp only [Value.isPrintable, Bool.and_eq_true] at printable
      exact List.forall_mem_singleton.mpr ⟨⟨.onlyKeyUnderTag, printable.1⟩, printable.2⟩
  | first :: second :: rest =>
    refine isPrintable_of_mem_entries ?_
    cases setting <;> simpa [Value.isPrintable] using printable

theorem arePrintable_of_isPrintable {items : List Value} {setting : Setting}
    (printable : (Value.seq items).isPrintable setting = true) : Value.arePrintable items = true := by
  cases setting <;> simpa [Value.isPrintable] using printable

/-- A property and what separates it from what stands in front of it. -/
def badge (behind : Behind) : Option Property → List Char
  | none => []
  | some property => behind.gap ++ property.text

/-- The piece of a scalar is written as the scalar is. -/
theorem text_ofScalar {property? : Option Property} {v : Value} {leaf : Leaf} (behind : Behind)
    (column : Nat) (scalar : v.scalar? = some (leaf.text, leaf.wanted)) :
    (Piece.scalar property? leaf).text behind column =
      badge behind property? ++ v.node behind property?.isSome column := by
  have written : v.node behind property?.isSome column =
      (if property?.isSome then [' '] else behind.gap) ++ endLine (scalarLines leaf.style
        (if behind = .start then 2 else column + 2) leaf.text.toList) := by
    cases v with
    | seq items => nomatch scalar
    | map entries => nomatch scalar
    | tagged tag content => nomatch scalar
    | _ =>
      unfold Value.node
      rw [scalar]
      rfl
  rw [written]
  cases property? <;> simp [text, lead, badge]

mutual

/-- The piece of a tree is written as the tree is, behind its property. -/
theorem text_ofValue {property? : Option Property} {setting : Setting} (behind : Behind)
    (column : Nat) : ∀ v : Value, v.isPrintable setting = true →
      (property?.isSome = true → v.isTagged = false) →
      (ofValue property? v).text behind column =
        badge behind property? ++ v.node behind property?.isSome column
  | .null, _, _ => text_ofScalar behind column rfl
  | .bool true, _, _ => text_ofScalar behind column rfl
  | .bool false, _, _ => text_ofScalar behind column rfl
  | .int _, _, _ => text_ofScalar behind column rfl
  | .float _, _, _ => text_ofScalar behind column rfl
  | .string _, _, _ => text_ofScalar behind column rfl
  | .seq [], _, _ => by cases property? <;> simp [ofValue, ofItems, text, lead, badge, Value.node]
  | .seq (item :: rest), printable, _ => by
    have same := items_ofItems (behind.dashes property?.isSome column) (item :: rest)
      (arePrintable_of_isPrintable printable)
    rw [ofItems] at same
    rw [ofValue, ofItems, text, same, Value.node]
    · cases property? <;> simp [opening, badge, Behind.opening]
    · simp
    · simp
  | .map [], _, _ => by cases property? <;> simp [ofValue, ofEntries, text, lead, badge, Value.node]
  | .map (entry :: rest), printable, _ => by
    have same := entries_ofEntries (behind.inner column) (entry :: rest) (isPrintable_of_mem printable)
    rw [ofEntries] at same
    rw [ofValue, ofEntries, text, same, Value.node]
    · cases property? <;> simp [opening, badge, Behind.opening]
    · simp
    · simp
  -- a tree that can be printed has no tag right under another one
  | .tagged tag content, printable, single => by
    obtain ⟨content_printable, untagged⟩ := isTagged_of_isPrintable printable
    cases property? with
    | some property => nomatch single rfl
    | none =>
      rw [ofValue, text_ofValue behind column content content_printable fun _ => untagged, Value.node]
      simp [badge, Property.text]

/-- The pieces of items are written as the items are. -/
theorem items_ofItems (column : Nat) : ∀ all : List Value, Value.arePrintable all = true →
    items column (ofItems all) = Value.items column all
  | [], _ => rfl
  | item :: rest, printable => by
    simp only [Value.arePrintable, Bool.and_eq_true] at printable
    rw [ofItems, items, Value.items, text_ofValue .dash column item printable.1 (by simp),
      items_ofItems column rest printable.2]
    rfl

/-- The pieces of entries are written as the entries are. -/
theorem entries_ofEntries (column : Nat) : ∀ all : List (Value × Value),
    (∀ entry ∈ all, (∃ setting, entry.1.isPrintable setting = true) ∧
      entry.2.isPrintable .free = true) →
    entries column (ofEntries all) = Value.entries column all
  | [], _ => rfl
  | (k, v) :: rest, printable => by
    obtain ⟨⟨⟨setting, key⟩, value⟩, later⟩ := List.forall_mem_cons.mp printable
    rw [ofEntries, entries, Value.entries, simpleKey?_ofValue key, entries_ofEntries column rest later,
      text_ofValue .mark column k key (by simp), text_ofValue _ column v value (by simp)]
    rfl

end

end Piece
end DeployManifest.Yaml
