import DeployManifest.Proofs.PieceScanning
import DeployManifest.Yaml.Node

/-!
# From the tokens of a piece to its node

The grammar reads the tokens of a piece as the node that the piece stands for.  Anchors are numbered
in the order in which they stand, so no name may be anchored twice, and a reference has to stand
behind its anchor (`Piece.Resolves`).

- `Piece.props`, `Piece.node`: the node of a piece, with the number of its anchor.
- `Piece.names`, `Piece.Resolves`: the names that are anchored in a piece, and that every reference stands
  behind its anchor.
- `Numbers`: a numbering of the names in the order in which they stand.
- `props?_reader`: the properties of a piece are read, and its anchor gets the next number.
- `Piece.IsRead`: the node of a piece is read from its tokens.
- `isRead`: by induction, this is so for every piece.
-/

namespace DeployManifest.Yaml

open Text (Bytes)

namespace Piece

/-! ## Nodes -/

/-- What the tag called `name` is read as. -/
def tagBytes? (name : String) : Option Bytes :=
  match tagOf? name with
  | some (.tag handle suffix) => Reader.expandTag? ⟨[], Document.standardHandles, []⟩ handle suffix
  | _ => none

/-- The properties of a node, `number` being the number of an anchor name. -/
def props (number : String → Nat) : Option Property → Props
  | none => ⟨none, none⟩
  | some (.anchor name) => ⟨some (number name.text), none⟩
  | some (.tag name) => ⟨none, tagBytes? name⟩

mutual

/-- The node that a piece stands for. -/
def node (number : String → Nat) : Piece → Node
  | .reference name => .alias (number name.text)
  | .scalar property? leaf => .scalar (props number property?) leaf.style leaf.text
  | .seq property? all => .seq (props number property?) (itemNodes number all)
  | .map property? all => .map (props number property?) (entryNodes number all)

/-- The nodes of the items of a sequence. -/
def itemNodes (number : String → Nat) : List Piece → List Node
  | [] => []
  | item :: rest => node number item :: itemNodes number rest

/-- The nodes of the entries of a mapping. -/
def entryNodes (number : String → Nat) : List (Piece × Piece) → List (Node × Node)
  | [] => []
  | (k, v) :: rest => (node number k, node number v) :: entryNodes number rest

end

/-! ## Names -/

/-- The name that a property anchors, if it is an anchor. -/
def ownNames : Option Property → List String
  | some (.anchor name) => [name.text]
  | _ => []

mutual

/-- The names of the anchors in a piece, in order. -/
def names : Piece → List String
  | .reference _ => []
  | .scalar property? _ => ownNames property?
  | .seq property? all => ownNames property? ++ itemNames all
  | .map property? all => ownNames property? ++ entryNames all

/-- The names that are anchored in the items of a sequence. -/
def itemNames : List Piece → List String
  | [] => []
  | item :: rest => names item ++ itemNames rest

/-- The names that are anchored in the entries of a mapping. -/
def entryNames : List (Piece × Piece) → List String
  | [] => []
  | (k, v) :: rest => names k ++ (names v ++ entryNames rest)

end

mutual

/-- Whether all references in a piece stand behind their anchors, `seen` being the names of those in
    front of it. -/
def Resolves (seen : List String) : Piece → Prop
  | .reference name => name.text ∈ seen
  | .scalar _ _ => True
  | .seq property? all => ItemsResolve (seen ++ ownNames property?) all
  | .map property? all => EntriesResolve (seen ++ ownNames property?) all

/-- The references in a row of items resolve, each item behind the ones in front of it. -/
def ItemsResolve (seen : List String) : List Piece → Prop
  | [] => True
  | item :: rest => Resolves seen item ∧ ItemsResolve (seen ++ names item) rest

/-- The references in a row of entries resolve, each value behind its key. -/
def EntriesResolve (seen : List String) : List (Piece × Piece) → Prop
  | [] => True
  | (k, v) :: rest => Resolves seen k ∧ Resolves (seen ++ names k) v ∧
    EntriesResolve (seen ++ names k ++ names v) rest

end

/-- Whether `number` numbers names from zero on; then no name occurs twice. -/
def Numbers (number : String → Nat) (names : List String) : Prop :=
  ∀ i name, names[i]? = some name → number name = i

variable {number : String → Nat} {seen more : List String} {name : String}

theorem Numbers.left (numbers : Numbers number (seen ++ more)) : Numbers number seen := by
  intro i name here
  exact numbers i name (by rw [List.getElem?_append_left (List.getElem?_eq_some_iff.mp here).1, here])

/-- The next name is new, and its number is how many there were. -/
theorem Numbers.fresh (numbers : Numbers number (seen ++ name :: more)) :
    name ∉ seen ∧ number name = seen.length := by
  have here := numbers seen.length name (by simp)
  refine ⟨fun mem => ?_, here⟩
  obtain ⟨i, i_lt, at_i⟩ := List.getElem_of_mem mem
  -- a name that stood before would have two numbers
  have first := numbers i name (by
    rw [List.getElem?_append_left i_lt, List.getElem?_eq_getElem i_lt, at_i])
  omega

/-- A key that is bound to one value only is looked up as that value. -/
theorem lookup_eq_of_mem {α β : Type} [BEq α] [LawfulBEq α] {key : α} {value : β} {l : List (α × β)}
    (mem : (key, value) ∈ l) (only : ∀ other, (key, other) ∈ l → other = value) :
    l.lookup key = some value := by
  induction l with
  | nil => nomatch mem
  | cons entry l ih =>
    obtain ⟨k, v⟩ := entry
    by_cases here : key = k
    · subst here
      rw [List.lookup_cons_self, only v (by simp)]
    · have later : (key, value) ∈ l := by simpa [here] using mem
      rw [List.lookup_cons, beq_eq_false_iff_ne.mpr here]
      exact ih later fun other mem => only other (by simp [mem])

/-- A name that has been seen is looked up under its number. -/
theorem Numbers.lookup (numbers : Numbers number seen) (mem : name ∈ seen) :
    seen.zipIdx.lookup name = some (number name) := by
  obtain ⟨i, i_lt, at_i⟩ := List.getElem_of_mem mem
  have here : seen[i]? = some name := by rw [List.getElem?_eq_getElem i_lt, at_i]
  refine lookup_eq_of_mem ?_ fun other mem => ?_
  · rw [numbers i name here]
    exact List.mk_mem_zipIdx_iff_getElem?.mpr here
  · exact (numbers other name (List.mk_mem_zipIdx_iff_getElem?.mp mem)).symm

/-! ## Reading -/

/-- The reader behind the anchors `seen`. -/
def reader (tokens : List Token) (seen : List String) : Reader :=
  ⟨tokens, Document.standardHandles, seen.zipIdx⟩

@[simp] theorem tokens_reader (tokens : List Token) : (reader tokens seen).tokens = tokens := rfl

@[simp] theorem skip_reader (token : Token) (tokens : List Token) :
    (reader (token :: tokens) seen).skip = reader tokens seen := rfl

/-- An anchor gets the next number. -/
theorem defineAnchor_reader (tokens : List Token) (numbers : Numbers number (seen ++ name :: more)) :
    (reader tokens seen).defineAnchor name = (number name, reader tokens (seen ++ [name])) := by
  obtain ⟨fresh, at_end⟩ := numbers.fresh
  have new : seen.zipIdx.any (·.1 == name) = false := by
    rw [List.any_eq_false]
    intro entry mem same
    rw [beq_iff_eq] at same
    exact fresh (same ▸ List.fst_mem_of_mem_zipIdx mem)
  simp [Reader.defineAnchor, reader, new, List.zipIdx_append, at_end]

/-- The tag of a token is expanded to the tag of the piece. -/
theorem tagBytes?_eq {tag : String} {tokens : List Token} {handle : String} {suffix : Bytes}
    (read : tagOf? tag = some (.tag handle suffix)) :
    ∃ bytes, tagBytes? tag = some bytes ∧
      (reader tokens seen).expandTag? handle suffix = some bytes := by
  obtain ⟨other, later, same, cases⟩ := tagOf?_cases read
  obtain ⟨rfl, rfl⟩ := Token.tag.inj same
  rcases cases with rfl | rfl
  · exact ⟨suffix, by simp [tagBytes?, read, Reader.expandTag?], by simp [Reader.expandTag?]⟩
  · refine ⟨Text.Utf8.encode "!" ++ suffix, ?_, ?_⟩
    · rw [tagBytes?, read]
      rfl
    · rfl

/-- Whether a token is a property of the node behind it. -/
def isPropertyToken : Token → Bool
  | .anchor _ | .tag _ _ => true
  | _ => false

variable {tokens : List Token}

/-- In front of anything but a property nothing is read. -/
theorem props?_bare (bare : tokens.head?.any isPropertyToken = false) :
    (reader tokens seen).props? = some (⟨none, none⟩, reader tokens seen) := by
  rcases tokens with _ | ⟨token, tokens⟩
  · rfl
  · cases token <;> first | rfl | nomatch bare

/-- An anchor is read as the number of its name. -/
theorem props?_anchor (numbers : Numbers number (seen ++ name :: more))
    (bare : tokens.head?.any isPropertyToken = false) :
    (reader (.anchor name :: tokens) seen).props? =
      some (⟨some (number name), none⟩, reader tokens (seen ++ [name])) := by
  have defined := defineAnchor_reader (.anchor name :: tokens) numbers
  have only : (reader (.anchor name :: tokens) seen).props? =
      some (⟨some ((reader (.anchor name :: tokens) seen).defineAnchor name).1, none⟩,
        ((reader (.anchor name :: tokens) seen).defineAnchor name).2.skip) := by
    rcases tokens with _ | ⟨token, tokens⟩
    · rfl
    · cases token <;> first | rfl | nomatch bare
  rw [only, defined]
  rfl

/-- A tag is read as what its handle stands for. -/
theorem props?_tag {handle : String} {suffix : Bytes} (bare : tokens.head?.any isPropertyToken = false) :
    (reader (.tag handle suffix :: tokens) seen).props? =
      ((reader (.tag handle suffix :: tokens) seen).expandTag? handle suffix).map fun tag =>
        (⟨none, some tag⟩, reader tokens seen) := by
  rcases tokens with _ | ⟨token, tokens⟩
  · rfl
  · cases token <;> first | rfl | nomatch bare

/-- The properties in front of the other tokens of a node. -/
theorem props?_reader (tokens : List Token) {property? : Option Property} (legible : HasToken property?)
    (numbers : Numbers number (seen ++ ownNames property? ++ more))
    (bare : tokens.head?.any isPropertyToken = false) :
    (reader (propertyTokens property? ++ tokens) seen).props? =
      some (props number property?, reader tokens (seen ++ ownNames property?)) := by
  -- only an anchor adds a name, and only a tag can be illegible
  match property? with
  | none =>
    rw [show ownNames none = [] from rfl, List.append_nil]
    exact props?_bare bare
  | some (.anchor name) =>
    rw [List.append_assoc] at numbers
    exact props?_anchor numbers bare
  | some (.tag name) =>
    obtain ⟨token, read⟩ := Option.isSome_iff_exists.mp (legible _ rfl)
    obtain ⟨handle, suffix, rfl, -⟩ := tagOf?_cases read
    obtain ⟨bytes, tag_eq, expanded⟩ :=
      tagBytes?_eq read
    have tokens_eq : propertyTokens (some (.tag name)) = [.tag handle suffix] := by
      rw [propertyTokens, Option.bind_some, read]
      rfl
    rw [tokens_eq, List.singleton_append, props?_tag bare, expanded, props, tag_eq,
      show ownNames (some (.tag name)) = [] from rfl, List.append_nil]
    rfl

/-! ## Pieces -/

/-- The context in which a node is read that stands behind something. -/
def contextOf : Behind → Context
  | .key | .mark => .blockEntry
  | _ => .block

/-- Whether the tokens of a piece are read as its node. -/
def IsRead (number : String → Nat) (piece : Piece) : Prop :=
  ∀ behind fuel seen more (tokens : List Token),
    (contextOf behind = .blockEntry → tokens.head? ≠ some .blockEntry) →
    4 * (piece.tokens behind).length + 2 ≤ fuel → piece.IsLegible →
    Numbers number (seen ++ piece.names ++ more) → piece.Resolves seen →
    node? (contextOf behind) fuel (reader (piece.tokens behind ++ tokens) seen) =
      some (piece.node number, reader tokens (seen ++ piece.names))

/-- In front of a token there are at most properties. -/
theorem propertyTokens_append (property? : Option Property) (token : Token) :
    ∃ first later, propertyTokens property? ++ token :: tokens = first :: later ∧
      (first = token ∨ isPropertyToken first = true) := by
  match property? with
  | none => exact ⟨token, tokens, rfl, .inl rfl⟩
  | some (.anchor name) => exact ⟨_, _, rfl, .inr rfl⟩
  | some (.tag name) =>
    rw [propertyTokens, Option.bind_some, Property.token?]
    cases read : tagOf? name with
    | none => exact ⟨token, tokens, rfl, .inl rfl⟩
    | some found =>
      obtain ⟨handle, suffix, rfl, -⟩ := tagOf?_cases read
      exact ⟨_, _, rfl, .inr rfl⟩

/-- A piece that is no reference does not start with one. -/
theorem ne_alias {property? : Option Property} {token : Token} (other : ∀ name, token ≠ .alias name)
    {target : String} {tail : List Token} :
    propertyTokens property? ++ token :: tokens ≠ .alias target :: tail := by
  obtain ⟨first, later, same, kind⟩ := propertyTokens_append property? token
  rw [same]
  rintro h
  obtain ⟨rfl, -⟩ := List.cons.inj h
  rcases kind with same | property
  · exact other target same.symm
  · nomatch property

/-- A reference is read as the number of its anchor. -/
theorem isRead_reference (name : AnchorName) : IsRead number (.reference name) := by
  intro behind fuel seen more tokens _ enough _ numbers resolves
  obtain ⟨fuel, rfl⟩ : ∃ k, fuel = k + 1 := ⟨fuel - 1, by omega⟩
  have found := (numbers.left).left.lookup resolves
  rw [node?]
  change (seen.zipIdx.lookup name.text).map _ = _
  rw [found]
  simp [node, names, Reader.skip, reader, Piece.tokens]

/-- A scalar is read as its text with its properties. -/
theorem isRead_scalar (property? : Option Property) (leaf : Leaf) :
    IsRead number (.scalar property? leaf) := by
  intro behind fuel seen more tokens _ enough legible numbers _
  obtain ⟨fuel, rfl⟩ : ∃ k, fuel = k + 1 := ⟨fuel - 1, by omega⟩
  have read := props?_reader (.scalar leaf.style leaf.text :: tokens) legible numbers rfl
  rw [Piece.tokens, List.append_assoc, List.singleton_append, node?]
  split
  · next reference => exact absurd reference (ne_alias (by simp))
  · rw [read]
    rfl

/-- Brackets are read as a sequence without items. -/
theorem isRead_seq_nil (property? : Option Property) : IsRead number (.seq property? []) := by
  intro behind fuel seen more tokens _ enough legible numbers _
  obtain ⟨fuel, rfl⟩ : ∃ k, fuel = k + 2 := ⟨fuel - 2, by omega⟩
  rw [names, itemNames, List.append_nil] at numbers
  have read := props?_reader (.flowSequenceStart :: .flowSequenceEnd :: tokens) legible.1 numbers rfl
  rw [Piece.tokens, List.append_assoc, show Scanner.bracketTokens false ++ tokens =
    .flowSequenceStart :: .flowSequenceEnd :: tokens from rfl, node?]
  split
  · next reference => exact absurd reference (ne_alias (by simp))
  · rw [read]
    simp [reader, Reader.skip, flowItems?, node, itemNodes, names, itemNames]

/-- Braces are read as a mapping without entries. -/
theorem isRead_map_nil (property? : Option Property) : IsRead number (.map property? []) := by
  intro behind fuel seen more tokens _ enough legible numbers _
  obtain ⟨fuel, rfl⟩ : ∃ k, fuel = k + 2 := ⟨fuel - 2, by omega⟩
  rw [names, entryNames, List.append_nil] at numbers
  have read := props?_reader (.flowMappingStart :: .flowMappingEnd :: tokens) legible.1 numbers rfl
  rw [Piece.tokens, List.append_assoc, show Scanner.bracketTokens true ++ tokens =
    .flowMappingStart :: .flowMappingEnd :: tokens from rfl, node?]
  split
  · next reference => exact absurd reference (ne_alias (by simp))
  · rw [read]
    simp [reader, Reader.skip, flowEntries?, node, entryNodes, names, entryNames]

/-- Whether a token ends an entry or an item, the dash of the next item apart. -/
def isEnd : Token → Bool
  | .key | .value | .blockEnd => true
  | _ => false

/-- The tokens of a piece do not start with one that ends an entry or an item. -/
theorem tokens_start (piece : Piece) (behind : Behind) :
    ∃ first later, piece.tokens behind = first :: later ∧ isEnd first = false ∧
      (behind = .dash → first ≠ .blockEntry) := by
  -- no property ends anything, so it is the token behind it that has to be looked at
  have lead (property? : Option Property) (token : Token) (tokens : List Token)
      (goes_on : isEnd token = false) (not_entry : behind = .dash → token ≠ .blockEntry) :
      ∃ first later, propertyTokens property? ++ token :: tokens = first :: later ∧
        isEnd first = false ∧ (behind = .dash → first ≠ .blockEntry) := by
    obtain ⟨first, later, same, kind⟩ := propertyTokens_append property? token
    refine ⟨first, later, same, ?_⟩
    rcases kind with rfl | property
    · exact ⟨goes_on, not_entry⟩
    · cases first <;> simp_all [isPropertyToken, isEnd]
  cases piece with
  | reference name => exact ⟨_, _, rfl, rfl, fun _ => by simp⟩
  | scalar property? leaf => exact lead property? _ [] rfl fun _ => by simp
  | seq property? all =>
    cases all with
    | nil => exact lead property? _ _ rfl fun _ => by simp
    | cons item more =>
      rw [Piece.tokens]
      · by_cases loose : isLoose behind property?.isSome = true
        · rw [if_pos loose, itemTokens]
          refine lead property? _ _ rfl fun dash => ?_
          simp [dash, isLoose] at loose
        · rw [if_neg loose]
          exact lead property? _ _ rfl fun _ => by simp
      · simp
  | map property? all =>
    cases all with
    | nil => exact lead property? _ _ rfl fun _ => by simp
    | cons entry more =>
      rw [Piece.tokens]
      · exact lead property? _ _ rfl fun _ => by simp
      · simp

/-- A piece does not start with a token that ends an entry. -/
theorem endsBlockEntry_tokens (piece : Piece) (behind : Behind) (tokens : List Token) :
    endsBlockEntry (piece.tokens behind ++ tokens) = false := by
  obtain ⟨first, later, same, goes_on, -⟩ := tokens_start piece behind
  rw [same]
  cases first <;> first | rfl | nomatch goes_on

/-- A piece does not start with a token that ends an item. -/
theorem endsBlockItem_tokens (piece : Piece) (tokens : List Token) :
    endsBlockItem (piece.tokens .dash ++ tokens) = false := by
  obtain ⟨first, later, same, goes_on, not_entry⟩ := tokens_start piece .dash
  rw [same]
  cases first <;> first | rfl | exact absurd rfl (not_entry rfl) | nomatch goes_on

/-! ## Collections -/

section Steps

variable {fuel : Nat} {context : Context} {first second : Node} {r r' : Reader}

/-- A node that may be left out is read if it is there. -/
theorem optional?_eq {ends : List Token → Bool} (present : ends tokens = false)
    (read : node? context fuel (reader tokens seen) = some (first, r)) :
    optional? context ends (fuel + 1) (reader tokens seen) = some (first, r) := by
  rw [optional?, tokens_reader, present, read]
  rfl

/-- A dash is followed by an item and more items. -/
theorem blockItems?_cons
    (read : optional? .block endsBlockItem fuel (reader tokens seen) = some (first, r)) :
    blockItems? (fuel + 1) (reader (.blockEntry :: tokens) seen) =
      (blockItems? fuel r).map fun (items, r) => (first :: items, r) := by
  rw [blockItems?]
  simp only [tokens_reader, skip_reader, read]

/-- The same where the sequence has no marks of its own. -/
theorem looseItems?_cons
    (read : optional? .block (fun tokens => endsBlockItem tokens || endsBlockEntry tokens) fuel
      (reader tokens seen) = some (first, r)) :
    looseItems? (fuel + 1) (reader (.blockEntry :: tokens) seen) =
      (looseItems? fuel r).map fun (items, r) => (first :: items, r) := by
  rw [looseItems?]
  simp only [tokens_reader, skip_reader, read]

/-- A key is followed by its value and more entries. -/
theorem blockEntries?_cons
    (read : optional? .blockEntry endsBlockEntry fuel (reader tokens seen) = some (first, r))
    (read' : blockValue? fuel r = some (second, r')) :
    blockEntries? (fuel + 1) (reader (.key :: tokens) seen) =
      (blockEntries? fuel r').map fun (entries, r) => ((first, second) :: entries, r) := by
  rw [blockEntries?]
  simp only [tokens_reader, skip_reader, read, read']

/-- The mark of a value is followed by the value. -/
theorem blockValue?_eq
    (read : optional? .blockEntry endsBlockEntry fuel (reader tokens seen) = some (first, r)) :
    blockValue? (fuel + 1) (reader (.value :: tokens) seen) = some (first, r) := by
  rw [blockValue?]
  simp only [tokens_reader, skip_reader, read]

end Steps

/-- The items of a block sequence up to the mark that ends it. -/
theorem blockItems?_eq {all : List Piece} (read : ∀ item ∈ all, IsRead number item) :
    ∀ fuel seen more (tokens : List Token), 4 * (itemTokens all).length + 1 ≤ fuel →
      AreLegible all → Numbers number (seen ++ itemNames all ++ more) → ItemsResolve seen all →
      blockItems? fuel (reader (itemTokens all ++ .blockEnd :: tokens) seen) =
        some (itemNodes number all, reader tokens (seen ++ itemNames all)) := by
  induction all with
  | nil =>
    intro fuel seen more tokens enough _ _ _
    obtain ⟨fuel, rfl⟩ : ∃ k, fuel = k + 1 := ⟨fuel - 1, by omega⟩
    simp [blockItems?, itemTokens, itemNodes, itemNames, reader, Reader.skip]
  | cons item rest ih =>
    intro fuel seen more tokens enough legible numbers resolves
    -- the anchors of an item are known to the items behind it
    simp only [itemTokens, List.length_cons, List.length_append] at enough
    obtain ⟨fuel, rfl⟩ : ∃ k, fuel = k + 2 := ⟨fuel - 2, by omega⟩
    have numbers' : Numbers number (seen ++ item.names ++ (itemNames rest ++ more)) := by
      simpa [itemNames] using numbers
    have item_read := read item (by simp) .dash fuel seen (itemNames rest ++ more)
      (itemTokens rest ++ .blockEnd :: tokens) (by simp [contextOf]) (by omega) legible.1 numbers'
      resolves.1
    have item_present := endsBlockItem_tokens item (itemTokens rest ++ .blockEnd :: tokens)
    have rest_read := ih (fun item mem => read item (by simp [mem])) (fuel + 1)
      (seen ++ item.names) more tokens (by omega) legible.2 (by simpa using numbers') resolves.2
    rw [itemTokens, List.cons_append, List.append_assoc,
      blockItems?_cons (optional?_eq item_present item_read), rest_read]
    simp [itemNodes, itemNames]

/-- The items of a sequence in the column of the keys around it. -/
theorem looseItems?_eq {all : List Piece} (read : ∀ item ∈ all, IsRead number item) :
    ∀ fuel seen more (tokens : List Token), 4 * (itemTokens all).length + 1 ≤ fuel →
      AreLegible all → Numbers number (seen ++ itemNames all ++ more) → ItemsResolve seen all →
      tokens.head? ≠ some .blockEntry →
      looseItems? fuel (reader (itemTokens all ++ tokens) seen) =
        some (itemNodes number all, reader tokens (seen ++ itemNames all)) := by
  -- the fuel pays for the tokens that are left, and a loose sequence ends where no dash follows
  induction all with
  | nil =>
    intro fuel seen more tokens enough _ _ _ ended
    obtain ⟨fuel, rfl⟩ : ∃ k, fuel = k + 1 := ⟨fuel - 1, by omega⟩
    simp only [itemTokens, List.nil_append, looseItems?, tokens_reader, itemNodes, itemNames,
      List.append_nil]
    split
    · next h => exact absurd rfl ended
    · rfl
  | cons item rest ih =>
    intro fuel seen more tokens enough legible numbers resolves ended
    simp only [itemTokens, List.length_cons, List.length_append] at enough
    obtain ⟨fuel, rfl⟩ : ∃ k, fuel = k + 2 := ⟨fuel - 2, by omega⟩
    have numbers' : Numbers number (seen ++ item.names ++ (itemNames rest ++ more)) := by
      simpa [itemNames] using numbers
    have item_read := read item (by simp) .dash fuel seen (itemNames rest ++ more)
      (itemTokens rest ++ tokens) (by simp [contextOf]) (by omega) legible.1 numbers' resolves.1
    have item_present : (endsBlockItem (item.tokens .dash ++ (itemTokens rest ++ tokens)) ||
        endsBlockEntry (item.tokens .dash ++ (itemTokens rest ++ tokens))) = false := by
      rw [endsBlockItem_tokens, endsBlockEntry_tokens]
      rfl
    have rest_read := ih (fun item mem => read item (by simp [mem])) (fuel + 1)
      (seen ++ item.names) more tokens (by omega) legible.2 (by simpa using numbers') resolves.2 ended
    rw [itemTokens, List.cons_append, List.append_assoc,
      looseItems?_cons (optional?_eq item_present item_read), rest_read]
    simp [itemNodes, itemNames]

/-- The entries of a block mapping up to the mark that ends it. -/
theorem blockEntries?_eq {all : List (Piece × Piece)}
    (read : ∀ entry ∈ all, IsRead number entry.1 ∧ IsRead number entry.2) :
    ∀ fuel seen more (tokens : List Token), 4 * (entryTokens all).length + 1 ≤ fuel →
      AreLegibleEntries all → Numbers number (seen ++ entryNames all ++ more) →
      EntriesResolve seen all →
      blockEntries? fuel (reader (entryTokens all ++ .blockEnd :: tokens) seen) =
        some (entryNodes number all, reader tokens (seen ++ entryNames all)) := by
  induction all with
  | nil =>
    intro fuel seen more tokens enough _ _ _
    obtain ⟨fuel, rfl⟩ : ∃ k, fuel = k + 1 := ⟨fuel - 1, by omega⟩
    simp [blockEntries?, entryTokens, entryNodes, entryNames]
  | cons entry rest ih =>
    obtain ⟨k, v⟩ := entry
    intro fuel seen more tokens enough legible numbers resolves
    obtain ⟨behind, behind_eq⟩ : ∃ behind : Behind,
      (if (simpleKey? k).isSome then Behind.key else .mark) = behind := ⟨_, rfl⟩
    have context_eq : contextOf behind = .blockEntry := by
      rw [← behind_eq]
      split <;> rfl
    have tokens_eq : entryTokens ((k, v) :: rest) =
        .key :: (k.tokens .mark ++ .value :: (v.tokens behind ++ entryTokens rest)) := by
      rw [entryTokens, behind_eq]
    -- a value that is a loose sequence ends where no dash follows
    have goes_on : (entryTokens rest ++ .blockEnd :: tokens).head? ≠ some .blockEntry := by
      cases rest <;> simp [entryTokens]
    obtain ⟨read_key, read_value⟩ : IsRead number k ∧ IsRead number v := read (k, v) (by simp)
    simp only [tokens_eq, List.length_cons, List.length_append] at enough
    obtain ⟨fuel, rfl⟩ : ∃ k, fuel = k + 3 := ⟨fuel - 3, by omega⟩
    have key_read := read_key .mark (fuel + 1) seen (v.names ++ (entryNames rest ++ more))
      (.value :: (v.tokens behind ++ (entryTokens rest ++ .blockEnd :: tokens)))
      (by simp) (by omega) legible.1 (by simpa [entryNames] using numbers) resolves.1
    have value_read := read_value behind fuel (seen ++ k.names) (entryNames rest ++ more)
      (entryTokens rest ++ .blockEnd :: tokens) (fun _ => goes_on) (by omega) legible.2.1
      (by simpa [entryNames] using numbers) resolves.2.1
    have key_present := endsBlockEntry_tokens k .mark
      (.value :: (v.tokens behind ++ (entryTokens rest ++ .blockEnd :: tokens)))
    have value_present := endsBlockEntry_tokens v behind (entryTokens rest ++ .blockEnd :: tokens)
    have rest_read := ih (fun entry mem => read entry (by simp [mem])) (fuel + 2)
      (seen ++ k.names ++ v.names) more tokens (by omega) legible.2.2
      (by simpa [entryNames] using numbers) resolves.2.2
    rw [context_eq] at value_read
    have value_found := blockValue?_eq (optional?_eq value_present value_read)
    simp only [tokens_eq, List.cons_append, List.append_assoc]
    rw [blockEntries?_cons (optional?_eq key_present key_read) value_found, rest_read]
    simp [entryNodes, entryNames]

/-- A sequence is read if its items are. -/
theorem isRead_seq {property? : Option Property} {item : Piece} {more : List Piece}
    (read : ∀ e ∈ item :: more, IsRead number e) : IsRead number (.seq property? (item :: more)) := by
  intro behind fuel seen later tokens ended enough legible numbers resolves
  obtain ⟨fuel, rfl⟩ : ∃ k, fuel = k + 1 := ⟨fuel - 1, by omega⟩
  have not_flow : contextOf behind ≠ .flow := by cases behind <;> simp [contextOf]
  have own_numbers : Numbers number (seen ++ ownNames property? ++ (itemNames (item :: more) ++ later)) := by
    simpa [names] using numbers
  have item_numbers : Numbers number (seen ++ ownNames property? ++ itemNames (item :: more) ++ later) := by
    simpa [names] using numbers
  rw [Piece.tokens] at enough ⊢
  -- in the column of the keys around it the sequence has no marks of its own
  · by_cases loose : isLoose behind property?.isSome = true
    · rw [if_pos loose, List.length_append] at enough
      rw [if_pos loose, List.append_assoc]
      have entry : contextOf behind = .blockEntry := by
        cases behind <;> simp_all [isLoose, contextOf]
      have props := props?_reader (itemTokens (item :: more) ++ tokens) legible.1 own_numbers rfl
      have items := looseItems?_eq read fuel (seen ++ ownNames property?) later tokens (by omega)
        legible.2 item_numbers resolves (ended entry)
      rw [node?]
      split
      · next reference => exact absurd reference (ne_alias (by simp))
      · rw [props]
        simp only [itemTokens, List.cons_append, List.append_assoc, tokens_reader, entry] at items ⊢
        simp [items, node, names]
    · rw [if_neg loose, List.length_append, List.length_cons, List.length_append] at enough
      rw [if_neg loose, List.append_assoc]
      have props := props?_reader (.blockSequenceStart ::
        (itemTokens (item :: more) ++ .blockEnd :: tokens)) legible.1 own_numbers rfl
      have items := blockItems?_eq read fuel (seen ++ ownNames property?) later tokens (by omega)
        legible.2 item_numbers resolves
      have tokens_eq : .blockSequenceStart :: (itemTokens (item :: more) ++ [.blockEnd]) ++ tokens =
          .blockSequenceStart :: (itemTokens (item :: more) ++ .blockEnd :: tokens) := by simp
      rw [tokens_eq, node?]
      split
      · next reference => exact absurd reference (ne_alias (by simp))
      · rw [props]
        simp only [tokens_reader, skip_reader, items]
        simp [not_flow, node, names]
  · simp
  · simp

/-- A mapping is read if its keys and values are. -/
theorem isRead_map {property? : Option Property} {entry : Piece × Piece}
    {more : List (Piece × Piece)}
    (read : ∀ e ∈ entry :: more, IsRead number e.1 ∧ IsRead number e.2) :
    IsRead number (.map property? (entry :: more)) := by
  intro behind fuel seen later tokens ended enough legible numbers resolves
  obtain ⟨fuel, rfl⟩ : ∃ k, fuel = k + 1 := ⟨fuel - 1, by omega⟩
  have not_flow : contextOf behind ≠ .flow := by cases behind <;> simp [contextOf]
  -- the properties are read, then the entries up to the mark that closes them
  have own_numbers :
      Numbers number (seen ++ ownNames property? ++ (entryNames (entry :: more) ++ later)) := by
    simpa [names] using numbers
  have entry_numbers :
      Numbers number (seen ++ ownNames property? ++ entryNames (entry :: more) ++ later) := by
    simpa [names] using numbers
  rw [Piece.tokens] at enough ⊢
  · rw [List.length_append, List.length_cons, List.length_append] at enough
    have props := props?_reader (.blockMappingStart ::
      (entryTokens (entry :: more) ++ .blockEnd :: tokens)) legible.1 own_numbers rfl
    have entries := blockEntries?_eq read fuel (seen ++ ownNames property?) later tokens (by omega)
      legible.2 entry_numbers resolves
    have tokens_eq : .blockMappingStart :: (entryTokens (entry :: more) ++ [.blockEnd]) ++ tokens =
        .blockMappingStart :: (entryTokens (entry :: more) ++ .blockEnd :: tokens) := by simp
    rw [List.append_assoc, tokens_eq, node?]
    split
    · next reference => exact absurd reference (ne_alias (by simp))
    · rw [props]
      simp only [tokens_reader, skip_reader, entries]
      simp [not_flow, node, names]
  · simp
  · simp

/-- The tokens of a piece are read as its node. -/
theorem isRead (number : String → Nat) (piece : Piece) : IsRead number piece := by
  induction piece with
  | reference name => exact isRead_reference name
  | scalar property? leaf => exact isRead_scalar property? leaf
  | seq property? all ih =>
    cases all with
    | nil => exact isRead_seq_nil property?
    | cons item more => exact isRead_seq ih
  | map property? all ih =>
    cases all with
    | nil => exact isRead_map_nil property?
    | cons entry more => exact isRead_map ih

end Piece
end DeployManifest.Yaml
