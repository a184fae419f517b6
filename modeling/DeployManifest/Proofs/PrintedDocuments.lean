import DeployManifest.Proofs.Outlines
import DeployManifest.Proofs.PieceNodes

/-!
# Documents that have been printed

A printed tree is read as a document with the node of its piece as the root and without anchors
(`ofSource?_render`), provided that its tags can be read.

- `IsAnchorFree`: a piece with neither anchors nor references.
- `isAnchorFree_ofValue`: the piece of a tree is free of them.
- `node_of_isAnchorFree`: so there is nothing in its node that has to be followed, and the document cannot
  be explosive.
-/

namespace DeployManifest.Yaml

namespace Piece

/-! ## Pieces without anchors -/

/-- Whether a property is no anchor. -/
def IsNoAnchor (property? : Option Property) : Prop := ownNames property? = []

mutual

/-- Whether there are no anchors and no references in a piece. -/
def IsAnchorFree : Piece → Prop
  | .reference _ => False
  | .scalar property? _ => IsNoAnchor property?
  | .seq property? all => IsNoAnchor property? ∧ AreAnchorFree all
  | .map property? all => IsNoAnchor property? ∧ AreAnchorFreeEntries all

/-- Whether there are neither anchors nor references in a row of items. -/
def AreAnchorFree : List Piece → Prop
  | [] => True
  | item :: rest => IsAnchorFree item ∧ AreAnchorFree rest

/-- The same of entries. -/
def AreAnchorFreeEntries : List (Piece × Piece) → Prop
  | [] => True
  | (k, v) :: rest => IsAnchorFree k ∧ IsAnchorFree v ∧ AreAnchorFreeEntries rest

end

mutual

/-- The piece of a tree has no anchors, unless it is given one. -/
theorem isAnchorFree_ofValue {property? : Option Property} : ∀ v : Value, IsNoAnchor property? →
    (ofValue property? v).IsAnchorFree
  | .null, own | .bool true, own | .bool false, own | .int _, own | .float _, own | .string _, own => own
  | .seq all, own => ⟨own, areAnchorFree_ofItems all⟩
  | .map all, own => ⟨own, areAnchorFree_ofEntries all⟩
  | .tagged _ content, _ => isAnchorFree_ofValue content rfl

theorem areAnchorFree_ofItems : ∀ all : List Value, AreAnchorFree (ofItems all)
  | [] => trivial
  | item :: rest => ⟨isAnchorFree_ofValue item rfl, areAnchorFree_ofItems rest⟩

theorem areAnchorFree_ofEntries : ∀ all : List (Value × Value), AreAnchorFreeEntries (ofEntries all)
  | [] => trivial
  | (k, v) :: rest =>
    ⟨isAnchorFree_ofValue k rfl, isAnchorFree_ofValue v rfl, areAnchorFree_ofEntries rest⟩

end

variable {number : String → Nat}

/-- What has no anchor cannot be referred to. -/
theorem own_props {property? : Option Property} (own : IsNoAnchor property?) (node : Node) :
    Node.anchored.own (props number property?) node = [] := by
  match property? with
  | none => rfl
  | some (.anchor name) => nomatch own
  | some (.tag name) => rfl

mutual

/-- A piece without anchors names none, and its node has neither anchors nor references. -/
theorem node_of_isAnchorFree : ∀ piece : Piece, piece.IsAnchorFree →
    piece.names = [] ∧ (∀ seen, piece.Resolves seen) ∧ (piece.node number).anchored = [] ∧
      ∀ table, Document.jumps table (piece.node number) = 0
  | .scalar property? leaf, own => ⟨own, fun _ => trivial, own_props own _, fun _ => rfl⟩
  | .seq property? all, ⟨own, inside⟩ => by
    obtain ⟨names, resolves, anchored, jumps⟩ := items_of_areAnchorFree all inside
    refine ⟨?_, fun seen => resolves _, ?_, jumps⟩
    · rw [Piece.names, own, names, List.append_nil]
    · rw [node, Node.anchored, own_props own, anchored, List.append_nil]
  | .map property? all, ⟨own, inside⟩ => by
    obtain ⟨names, resolves, anchored, jumps⟩ := entries_of_areAnchorFree all inside
    refine ⟨?_, fun seen => resolves _, ?_, jumps⟩
    · rw [Piece.names, own, names, List.append_nil]
    · rw [node, Node.anchored, own_props own, anchored, List.append_nil]

/-- The same of a row of items. -/
theorem items_of_areAnchorFree : ∀ all : List Piece, AreAnchorFree all →
    itemNames all = [] ∧ (∀ seen, ItemsResolve seen all) ∧
      Node.anchoredItems (itemNodes number all) = [] ∧
      ∀ table, Document.jumpsItems table (itemNodes number all) = 0
  | [], _ => ⟨rfl, fun _ => trivial, rfl, fun _ => rfl⟩
  | item :: rest, ⟨first, others⟩ => by
    obtain ⟨names, resolves, anchored, jumps⟩ := node_of_isAnchorFree item first
    obtain ⟨names', resolves', anchored', jumps'⟩ := items_of_areAnchorFree rest others
    refine ⟨?_, fun seen => ⟨resolves seen, resolves' _⟩, ?_, fun table => ?_⟩
    · rw [itemNames, names, names', List.append_nil]
    · rw [itemNodes, Node.anchoredItems, anchored, anchored', List.append_nil]
    · rw [itemNodes, Document.jumpsItems, jumps, jumps']

/-- The same of a row of entries. -/
theorem entries_of_areAnchorFree : ∀ all : List (Piece × Piece), AreAnchorFreeEntries all →
    entryNames all = [] ∧ (∀ seen, EntriesResolve seen all) ∧
      Node.anchoredEntries (entryNodes number all) = [] ∧
      ∀ table, Document.jumpsEntries table (entryNodes number all) = 0
  | [], _ => ⟨rfl, fun _ => trivial, rfl, fun _ => rfl⟩
  | (k, v) :: rest, ⟨key, value, others⟩ => by
    obtain ⟨names, resolves, anchored, jumps⟩ := node_of_isAnchorFree k key
    obtain ⟨names', resolves', anchored', jumps'⟩ := node_of_isAnchorFree v value
    obtain ⟨names'', resolves'', anchored'', jumps''⟩ := entries_of_areAnchorFree rest others
    refine ⟨?_, fun seen => ⟨resolves seen, resolves' _, resolves'' _⟩, ?_, fun table => ?_⟩
    · rw [entryNames, names, names', names'', List.append_nil, List.append_nil]
    · rw [entryNodes, Node.anchoredEntries, anchored, anchored', anchored'', List.append_nil,
        List.append_nil]
    · rw [entryNodes, Document.jumpsEntries, jumps, jumps', jumps'']

end

/-! ## Documents -/

/-- The tokens of a piece do not look like the start of a document. -/
theorem startsExplicitly_tokens (piece : Piece) (behind : Behind) :
    Document.startsExplicitly (piece.tokens behind) = false := by
  have lead (property? : Option Property) (token : Token) (tokens : List Token)
      (other : ∀ tokens, Document.startsExplicitly (token :: tokens) = false) :
      Document.startsExplicitly (propertyTokens property? ++ token :: tokens) = false := by
    obtain ⟨first, later, same, kind⟩ := @propertyTokens_append tokens property? token
    rw [same]
    rcases kind with rfl | property
    · exact other later
    -- a property is neither a marker nor a directive
    · cases first <;> first | rfl | nomatch property
  cases piece with
  | reference name => rfl
  | scalar property? leaf => exact lead property? _ [] fun _ => rfl
  | seq property? all =>
    cases all with
    | nil => exact lead property? _ _ fun _ => rfl
    | cons item more =>
      rw [tokens]
      · split
        · rw [itemTokens]
          exact lead property? _ _ fun _ => rfl
        · exact lead property? _ _ fun _ => rfl
      · simp
  | map property? all =>
    cases all with
    | nil => exact lead property? _ _ fun _ => rfl
    | cons entry more =>
      rw [tokens]
      · exact lead property? _ _ fun _ => rfl
      · simp

/-- A piece that can be read is the root of the document that it is read from, if no anchor is used twice and
    all references stand behind their anchors. -/
theorem ofTokens?_eq {piece : Piece} (legible : piece.IsLegible) (numbers : Numbers number piece.names)
    (resolves : piece.Resolves []) :
    Document.ofTokens? (piece.tokens .start) =
      some ⟨piece.node number, (piece.node number).anchored.reverse⟩ := by
  obtain ⟨first, later, tokens_eq, -⟩ := tokens_start piece .start
  have numbers : Numbers number ([] ++ piece.names ++ []) := by simpa using numbers
  -- the whole text is one piece, with nothing behind it
  have read := isRead number piece .start (4 * (piece.tokens .start).length + 4) [] [] [] nofun
    (by omega) legible numbers resolves
  rw [List.append_nil] at read
  have not_empty : (piece.tokens .start).isEmpty = false := by
    rw [tokens_eq]
    rfl
  have begun : node? .block (4 * (piece.tokens .start).length + 4)
      ⟨piece.tokens .start, Document.standardHandles, []⟩ =
      some (piece.node number, reader [] ([] ++ piece.names)) := read
  unfold Document.ofTokens?
  rw [not_empty, startsExplicitly_tokens, begun]
  rfl

/-- A piece without anchors is read as a document without anchors. -/
theorem ofTokens?_tokens {piece : Piece} (free : piece.IsAnchorFree) (legible : piece.IsLegible) :
    Document.ofTokens? (piece.tokens .start) = some ⟨piece.node number, []⟩ := by
  obtain ⟨names, resolves, anchored, -⟩ := @node_of_isAnchorFree number piece free
  have numbers : Numbers number piece.names := by
    rw [names]
    exact nofun
  rw [ofTokens?_eq legible numbers (resolves []), anchored, List.reverse_nil]

end Piece

open Value (Setting)

/-- A printed tree is read as the node of its piece if its tags can be read. -/
theorem Value.ofSource?_render {v : Value} (printable : v.isPrintable .free = true)
    (legible : (Piece.ofValue none v).IsLegible) (number : String → Nat) :
    Document.ofSource? (.ofString v.render) = some ⟨(Piece.ofValue none v).node number, []⟩ := by
  have text : (Piece.ofValue none v).text .start 0 = v.node .start false 0 :=
    Piece.text_ofValue .start 0 v printable nofun
  have tokens := (Piece.tokens?_text (Piece.ofValue none v)).1 legible
  rw [text] at tokens
  unfold Document.ofSource? Value.render
  rw [tokens, Option.bind_some]
  exact Piece.ofTokens?_tokens (Piece.isAnchorFree_ofValue v rfl) legible

/-- A printed tree has no references, so nothing is repeated in it whatever part of it is read. -/
theorem View.ofSourceWithin?_render {v : Value} (printable : v.isPrintable .free = true)
    (legible : (Piece.ofValue none v).IsLegible) (number : String → Nat) (outline : Outline) :
    View.ofSourceWithin? outline (.ofString v.render) =
      some (.ofDocument ⟨(Piece.ofValue none v).node number, []⟩) := by
  have free : (Piece.ofValue none v).IsAnchorFree := Piece.isAnchorFree_ofValue v rfl
  obtain ⟨-, -, -, none_followed⟩ := @Piece.node_of_isAnchorFree number _ free
  have calm : (Document.mk ((Piece.ofValue none v).node number) []).isExplosive outline = false :=
    Document.isExplosive_of_jumps_eq_zero none_followed outline
  rw [View.ofSourceWithin?, Value.ofSource?_render printable legible number]
  simp [Option.filter, calm]

end DeployManifest.Yaml
