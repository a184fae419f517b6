import DeployManifest.Proofs.AlikeViews
import DeployManifest.Proofs.PlainNumbers
import DeployManifest.Proofs.PrintedDocuments

/-!
# Documents spelled as they are printed

The same tree can be written in many ways, and some of them are lost in printing: of numbers, booleans
and nulls without quotes only the value is kept, and of tags only those that are local.  `isAsPrinted`
says that there is nothing to lose: every plain scalar is spelled as its value is printed, and every tag is
local and is written back as it was.  Quotes, blocks, anchors and aliases may be used at will.

The printed tree of such a document shows the same as the document (`isShown_of_value?`).

- `Node.isAsPrinted`, `follow?_isAsPrinted`: the nodes behind aliases are spelled as they are printed, too.
- `exists_leaf`: a scalar that is read is written as one that is read as the same.
- `IsShown`: what is to be shown, for a node and its tree.
- `isShown_scalar`, `isShown_seq`, `isShown_map`: one case for each kind of node.
-/

namespace DeployManifest.Yaml

open Text (Bytes)

/-- The text that a plain scalar is printed as, quotes apart. -/
def Plain.printed (text : String) : String :=
  match resolve text with
  | .null => "null"
  | .bool true => "true"
  | .bool false => "false"
  | .int n => toString n
  | .float x => x.text
  | .word => text

/-- Whether a tag is local and is written back as it was. -/
def isTagAsPrinted (tag : Bytes) : Bool :=
  match localTag? tag with
  | some name => Piece.tagBytes? name == some tag
  | none => false

/-- Whether a scalar is spelled as it is printed. -/
def isScalarAsPrinted (style : Style) (text : String) : Bool :=
  style ≠ .plain || Plain.printed text == text

namespace Node

mutual

/-- Whether all tags and scalars in a node are spelled as they are printed. -/
def isAsPrinted : Node → Bool
  | .alias _ => true
  | .scalar props style text => props.tag?.all isTagAsPrinted && isScalarAsPrinted style text
  | .seq props items => props.tag?.all isTagAsPrinted && areAsPrinted items
  | .map props entries => props.tag?.all isTagAsPrinted && areAsPrintedEntries entries

/-- Whether all items are spelled as they are printed. -/
def areAsPrinted : List Node → Bool
  | [] => true
  | item :: rest => isAsPrinted item && areAsPrinted rest

/-- Whether all keys and values are. -/
def areAsPrintedEntries : List (Node × Node) → Bool
  | [] => true
  | (k, v) :: rest => isAsPrinted k && (isAsPrinted v && areAsPrintedEntries rest)

end

/-- Items are spelled as they are printed if each of them is. -/
theorem areAsPrinted_iff {items : List Node} :
    areAsPrinted items = true ↔ ∀ item ∈ items, item.isAsPrinted = true := by
  induction items with
  | nil => simp [areAsPrinted]
  | cons item rest ih => simp [areAsPrinted, ih]

/-- Entries are spelled as they are printed if each key and each value is. -/
theorem areAsPrintedEntries_iff {entries : List (Node × Node)} :
    areAsPrintedEntries entries = true ↔
      ∀ entry ∈ entries, entry.1.isAsPrinted = true ∧ entry.2.isAsPrinted = true := by
  induction entries with
  | nil => simp [areAsPrintedEntries]
  | cons entry rest ih => simp [areAsPrintedEntries, ih, and_assoc]

/-- What is anchored in a node is spelled as the node is. -/
theorem own_isAsPrinted {props : Props} {node : Node} (spelled : node.isAsPrinted = true) :
    ∀ anchor ∈ anchored.own props node, anchor.2.isAsPrinted = true := by
  unfold anchored.own
  split
  · exact List.forall_mem_singleton.mpr spelled
  · exact nofun

mutual

/-- What an alias may refer to is spelled as it is printed, if the document is. -/
theorem anchored_isAsPrinted : ∀ node : Node, node.isAsPrinted = true →
    ∀ anchor ∈ node.anchored, anchor.2.isAsPrinted = true
  | .alias _, _ => nofun
  | .scalar _ _ _, spelled => own_isAsPrinted spelled
  | .seq _ items, spelled => by
    refine List.forall_mem_append.mpr ⟨own_isAsPrinted spelled, ?_⟩
    exact anchoredItems_isAsPrinted items (Bool.and_eq_true_iff.mp spelled).2
  | .map _ entries, spelled => by
    refine List.forall_mem_append.mpr ⟨own_isAsPrinted spelled, ?_⟩
    exact anchoredEntries_isAsPrinted entries (Bool.and_eq_true_iff.mp spelled).2

/-- The same for the items of a sequence. -/
theorem anchoredItems_isAsPrinted : ∀ items : List Node, areAsPrinted items = true →
    ∀ anchor ∈ anchoredItems items, anchor.2.isAsPrinted = true
  | [], _ => nofun
  | item :: rest, spelled =>
    have ⟨first, others⟩ := Bool.and_eq_true_iff.mp spelled
    List.forall_mem_append.mpr ⟨anchored_isAsPrinted item first, anchoredItems_isAsPrinted rest others⟩

/-- The same for the entries of a mapping. -/
theorem anchoredEntries_isAsPrinted : ∀ entries : List (Node × Node),
    areAsPrintedEntries entries = true →
      ∀ anchor ∈ anchoredEntries entries, anchor.2.isAsPrinted = true
  | [], _ => nofun
  | (k, v) :: rest, spelled => by
    obtain ⟨key, behind⟩ := Bool.and_eq_true_iff.mp spelled
    obtain ⟨value, others⟩ := Bool.and_eq_true_iff.mp behind
    refine List.forall_mem_append.mpr ⟨anchored_isAsPrinted k key, ?_⟩
    exact List.forall_mem_append.mpr
      ⟨anchored_isAsPrinted v value, anchoredEntries_isAsPrinted rest others⟩

end

/-- A reference leads to a node that is spelled as it is printed if all anchored ones are. -/
theorem follow?_isAsPrinted {anchors : List (Nat × Node)} {here target : Node}
    (all : ∀ anchor ∈ anchors, anchor.2.isAsPrinted = true) (spelled : here.isAsPrinted = true)
    (followed : here.follow? anchors = some target) : target.isAsPrinted = true := by
  match here, followed with
  | .alias n, followed =>
    rw [follow?] at followed
    split at followed
    · nomatch followed
    · obtain ⟨before, behind, rfl, -⟩ := List.lookup_eq_some_iff.mp followed
      exact all (n, target) (by simp)
  | .scalar _ _ _, followed | .seq _ _, followed | .map _ _, followed =>
    obtain rfl := Option.some.inj followed
    exact spelled

end Node

/-! ## Scalars -/

theorem Leaf.style_word {text : String} {nonempty : text.toList ≠ []} {no_feed : '\n' ∉ text.toList}
    (fits : fitsPlain text.toList = true) : (word text nonempty no_feed).style = .plain := by
  simp [style, word, writtenStyle, fits]

/-- Nothing is written plain that does not ask for it. -/
theorem Leaf.wanted_of_style {leaf : Leaf} (plain : leaf.style = .plain) : leaf.wanted = .plain := by
  unfold style writtenStyle at plain
  cases wanted : leaf.wanted with
  | plain => rfl
  | singleQuoted => by_cases fits : fitsSingleQuotes leaf.text.toList = true <;> simp_all
  | literal => by_cases fits : fitsLiteral leaf.text.toList = true <;> simp_all
  | doubleQuoted | folded => simp [wanted] at plain

/-- A string asks to be plain only if it stands for itself without quotes. -/
theorem resolve_of_wantedStyle {text : String} (wanted : wantedStyle text = .plain) :
    Plain.resolve text = .word := by
  simp only [wantedStyle] at wanted
  split at wanted
  · nomatch wanted
  · split at wanted
    · assumption
    · nomatch wanted

/-- A value that is printed as a word is printed plain if the word can be. -/
theorem exists_leaf_word {v : Value} {text : String} {nonempty : text.toList ≠ []}
    {no_feed : '\n' ∉ text.toList} (fits : fitsPlain text.toList = true)
    (printed : ∀ property?, Piece.ofValue property? v = .scalar property? (.word text nonempty no_feed)) :
    ∃ leaf : Leaf, (∀ property?, Piece.ofValue property? v = .scalar property? leaf) ∧
      leaf.text = text ∧ StylesAgree text .plain leaf.style :=
  ⟨_, printed, rfl, .inl (iff_of_true rfl (Leaf.style_word fits))⟩

/-- A scalar that is spelled as it is printed is printed as a scalar with the same text, in a style that
    makes no difference. -/
theorem exists_leaf {style : Style} {text : String} {v : Value}
    (read : scalarValue? none style text = some v) (spelled : isScalarAsPrinted style text = true) :
    ∃ leaf : Leaf, (∀ property?, Piece.ofValue property? v = .scalar property? leaf) ∧
      leaf.text = text ∧ StylesAgree text style leaf.style := by
  -- a plain scalar is printed as its value is, and that is how it is spelled
  by_cases plain : style = .plain
  · subst plain
    have spelling : Plain.printed text = text := by simpa [isScalarAsPrinted] using spelled
    simp only [scalarValue?, if_pos] at read
    cases resolved : Plain.resolve text with
    | word =>
      obtain rfl : .string text = v := by simpa [resolved] using read
      exact ⟨.ofString text, fun _ => rfl, rfl, .inr resolved⟩
    | null =>
      obtain rfl : .null = v := by simpa [resolved] using read
      obtain rfl : "null" = text := by simpa [Plain.printed, resolved] using spelling
      exact exists_leaf_word (by decide) fun _ => rfl
    | bool b =>
      obtain rfl : .bool b = v := by simpa [resolved] using read
      cases b with
      | true =>
        obtain rfl : "true" = text := by simpa [Plain.printed, resolved] using spelling
        exact exists_leaf_word (by decide) fun _ => rfl
      | false =>
        obtain rfl : "false" = text := by simpa [Plain.printed, resolved] using spelling
        exact exists_leaf_word (by decide) fun _ => rfl
    | int n =>
      obtain ⟨-, rfl⟩ : isStorable n = true ∧ .int n = v := by simpa [resolved] using read
      obtain rfl : toString n = text := by simpa [Plain.printed, resolved] using spelling
      exact exists_leaf_word (fitsPlain_int n) fun _ => rfl
    | float x =>
      obtain rfl : .float x = v := by simpa [resolved] using read
      obtain rfl : x.text = text := by simpa [Plain.printed, resolved] using spelling
      exact exists_leaf_word (fitsPlain_float x) fun _ => rfl
  -- with quotes it is a string, which is printed plain only if it is a word
  · obtain rfl : .string text = v := by simpa [scalarValue?, plain] using read
    refine ⟨.ofString text, fun _ => rfl, rfl, ?_⟩
    by_cases unquoted : (Leaf.ofString text).style = .plain
    · exact .inr (resolve_of_wantedStyle (Leaf.wanted_of_style unquoted))
    · exact .inl (iff_of_false plain unquoted)

/-! ## Tags -/

section

variable {props : Props}

/-- A tag that is written back as it was is local. -/
theorem hasLocalTag_of_isTagAsPrinted (tags : props.tag?.all isTagAsPrinted = true) :
    HasLocalTag props := by
  intro tag here
  rw [Option.mem_def.mp here] at tags
  simp only [Option.all_some, isTagAsPrinted] at tags
  split at tags
  · next found => simp [found]
  · cases tags

/-- The local tag of a node is written as a property that is read as the tag. -/
theorem exists_property (tags : props.tag?.all isTagAsPrinted = true) :
    ∃ property?, (∀ number, Piece.props number property? = ⟨none, props.tag?⟩) ∧
      Piece.HasToken property? ∧
      ∀ v, Piece.ofValue none (Node.addTag props v) = Piece.ofValue property? v := by
  cases here : props.tag? with
  | none =>
    exact ⟨none, fun _ => rfl, by simp [Piece.HasToken], fun v => by simp [Node.addTag, here]⟩
  | some tag =>
    rw [here, Option.all_some, isTagAsPrinted] at tags
    -- a tag is as printed if it is what its printed name is read as
    split at tags
    · next name found =>
      have written : Piece.tagBytes? name = some tag := by simpa using tags
      refine ⟨some (.tag name), fun _ => by simp [Piece.props, written], ?_, fun v => ?_⟩
      · rintro property ⟨⟩
        rw [Property.token?]
        cases token : tagOf? name with
        | none => simp [Piece.tagBytes?, token] at written
        | some token => rfl
      · simp [Node.addTag, here, found, Piece.ofValue]
    · cases tags

/-- A local tag stands around what the scalar without it stands for. -/
theorem scalarValue?_tagged {style : Style} {text : String} (is_local : HasLocalTag props) :
    scalarValue? props.tag? style text = (scalarValue? none style text).map (Node.addTag props) := by
  cases here : props.tag? with
  | none =>
    have untagged : Node.addTag props = id := by
      funext v
      simp [Node.addTag, here]
    rw [untagged, Option.map_id, id]
  | some tag =>
    -- a local tag says nothing about what the text stands for
    obtain ⟨name, found⟩ := Option.isSome_iff_exists.mp (is_local tag here)
    have tagged : Node.addTag props = Value.tagged name := by
      funext v
      simp [Node.addTag, here, found]
    rw [tagged]
    simp only [scalarValue?, found]

end

/-! ## Nodes -/

/-- The nodes of printed items, item by item. -/
theorem itemNodes_ofItems (number : String → Nat) (items : List Value) :
    Piece.itemNodes number (Piece.ofItems items) =
      items.map fun v => (Piece.ofValue none v).node number := by
  induction items with
  | nil => rfl
  | cons v rest ih => rw [Piece.ofItems, Piece.itemNodes, ih, List.map_cons]

/-- The nodes of printed entries, entry by entry. -/
theorem entryNodes_ofEntries (number : String → Nat) (entries : List (Value × Value)) :
    Piece.entryNodes number (Piece.ofEntries entries) =
      entries.map fun e => ((Piece.ofValue none e.1).node number, (Piece.ofValue none e.2).node number) := by
  induction entries with
  | nil => rfl
  | cons e rest ih => rw [Piece.ofEntries, Piece.entryNodes, ih, List.map_cons]

/-- Printed items can be read if each of them can. -/
theorem areLegible_ofItems {items : List Value}
    (legible : ∀ v ∈ items, (Piece.ofValue none v).IsLegible) : Piece.AreLegible (Piece.ofItems items) := by
  induction items with
  | nil => trivial
  | cons v rest ih =>
    obtain ⟨first, others⟩ := List.forall_mem_cons.mp legible
    exact ⟨first, ih others⟩

/-- Printed entries can be read if each key and each value can. -/
theorem areLegibleEntries_ofEntries {entries : List (Value × Value)}
    (legible : ∀ e ∈ entries, (Piece.ofValue none e.1).IsLegible ∧ (Piece.ofValue none e.2).IsLegible) :
    Piece.AreLegibleEntries (Piece.ofEntries entries) := by
  induction entries with
  | nil => trivial
  | cons e rest ih =>
    obtain ⟨⟨key, value⟩, others⟩ := List.forall_mem_cons.mp legible
    exact ⟨key, value, ih others⟩

/-- A printed tree shows the same as the node that it is the tree of, and it can be read. -/
def IsShown (anchors : List (Nat × Node)) (depth : Nat) (here : Node) (v : Value) : Prop :=
  (Piece.ofValue none v).IsLegible ∧ ∀ number,
    View.Alike (.node anchors depth here) (.node [] depth ((Piece.ofValue none v).node number))

section

variable {anchors : List (Nat × Node)} {depth : Nat} {here : Node} {props : Props}

/-- A scalar is shown by the tree of its value. -/
theorem isShown_scalar {style : Style} {text : String} {v : Value}
    (followed : here.follow? anchors = some (.scalar props style text))
    (spelled : (Node.scalar props style text).isAsPrinted = true)
    (read : scalarValue? props.tag? style text = some v) : IsShown anchors depth here v := by
  obtain ⟨tags, spelled⟩ := Bool.and_eq_true_iff.mp spelled
  have is_local := hasLocalTag_of_isTagAsPrinted tags
  rw [scalarValue?_tagged is_local] at read
  obtain ⟨untagged, bare, rfl⟩ := Option.map_eq_some_iff.mp read
  -- the scalar is written in a style of the printer's choice, which reads alike
  obtain ⟨leaf, printed, rfl, styles⟩ := exists_leaf bare spelled
  obtain ⟨property?, written, token, same⟩ := exists_property tags
  constructor
  · rw [same, printed]
    exact token
  · intro number
    rw [same, printed, Piece.node, written]
    exact .scalar followed rfl rfl is_local styles

/-- A sequence is shown by its tree if its items are. -/
theorem isShown_seq {items : List Node} {found : List Value}
    (followed : here.follow? anchors = some (.seq props items))
    (tags : props.tag?.all isTagAsPrinted = true)
    (inside : List.Forall₂ (IsShown anchors depth) items found) :
    IsShown anchors (depth + 1) here (Node.addTag props (.seq found)) := by
  obtain ⟨property?, written, token, same⟩ := exists_property tags
  constructor
  · rw [same]
    exact ⟨token, areLegible_ofItems (forall_of_forall₂ inside fun _ _ shown => shown.1)⟩
  · intro number
    rw [same, Piece.ofValue, Piece.node, written, itemNodes_ofItems]
    refine .seq followed rfl rfl ?_
    simp only [List.forall₂_map_left_iff, List.forall₂_map_right_iff]
    exact inside.imp fun _ _ shown => shown.2 number

/-- A mapping is shown by its tree if its keys and values are. -/
theorem isShown_map {entries : List (Node × Node)} {found : List (Value × Value)}
    (followed : here.follow? anchors = some (.map props entries))
    (tags : props.tag?.all isTagAsPrinted = true)
    (inside : List.Forall₂ (fun e f => IsShown anchors depth e.1 f.1 ∧ IsShown anchors depth e.2 f.2)
      entries found) :
    IsShown anchors (depth + 1) here (Node.addTag props (.map found)) := by
  obtain ⟨property?, written, token, same⟩ := exists_property tags
  constructor
  · rw [same]
    refine ⟨token, areLegibleEntries_ofEntries (forall_of_forall₂ inside fun e f shown => ?_)⟩
    exact ⟨shown.1.1, shown.2.1⟩
  · intro number
    rw [same, Piece.ofValue, Piece.node, written, entryNodes_ofEntries]
    -- what is written and what was read agree on the properties, and entry by entry
    refine .map followed rfl rfl ?_ ?_
    · simp only [List.forall₂_map_left_iff, List.forall₂_map_right_iff]
      exact inside.imp fun _ _ shown => shown.1.2 number
    · simp only [List.forall₂_map_left_iff, List.forall₂_map_right_iff]
      exact inside.imp fun _ _ shown => shown.2.2 number

end

/-- A printed tree shows the same as the node it was read from, and can be read, if the node is spelled as
    it is printed.  The induction is on the number of collections that may be entered. -/
theorem isShown_of_value? {anchors : List (Nat × Node)}
    (anchored : ∀ anchor ∈ anchors, anchor.2.isAsPrinted = true) : ∀ (depth : Nat) {here : Node} {v : Value},
    here.isAsPrinted = true → here.value? anchors (depth + 1) = some v → IsShown anchors depth here v := by
  intro depth
  induction depth with
  | zero =>
    intro here v spelled read
    cases Node.hasTree_of_value? read with
    | scalar followed stands =>
      exact isShown_scalar followed (Node.follow?_isAsPrinted anchored spelled followed) stands
    -- no collection may be entered here
    | seq followed deep | map followed deep => exact absurd rfl deep
  | succ depth ih =>
    intro here v spelled read
    cases Node.hasTree_of_value? read with
    | scalar followed stands =>
      exact isShown_scalar followed (Node.follow?_isAsPrinted anchored spelled followed) stands
    | seq followed deep inside =>
      obtain ⟨tags, all⟩ := Bool.and_eq_true_iff.mp (Node.follow?_isAsPrinted anchored spelled followed)
      have both := (List.forall₂_and_left _ _).mpr ⟨Node.areAsPrinted_iff.mp all, inside⟩
      exact isShown_seq followed tags (both.imp fun _ _ here => ih here.1 here.2)
    | map followed deep inside =>
      obtain ⟨tags, all⟩ := Bool.and_eq_true_iff.mp (Node.follow?_isAsPrinted anchored spelled followed)
      have both := (List.forall₂_and_left _ _).mpr ⟨Node.areAsPrintedEntries_iff.mp all, inside⟩
      refine isShown_map followed tags (both.imp fun e f here => ?_)
      obtain ⟨⟨key_spelled, value_spelled⟩, key_read, value_read⟩ := here
      exact ⟨ih key_spelled key_read, ih value_spelled value_read⟩

end DeployManifest.Yaml
