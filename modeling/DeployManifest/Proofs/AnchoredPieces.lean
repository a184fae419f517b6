import DeployManifest.Proofs.PrintedDocuments
import DeployManifest.Proofs.Unmarking
import DeployManifest.Proofs.WrittenMarks

/-!
# Pieces with anchors

A tree is printed with marks, which are turned into anchors and references then.  `Anchored` relates the
piece of the tree, the piece of the tree with marks, and the piece with anchors that is meant.  There is such
a piece for each tree (`exists_anchored`), unless keys have tags or look like marks, and turning the marks in
the text gives the text of this piece (`Anchored.turns`).

- `Anchored`, `AnchoredEntry`: the three pieces of a tree, and those of an entry.
- `IsCounted`: trees whose long strings are those that get anchors.
- `AreAmong`: anchors that stay defined.
- `entryText`, `keyText`, `behindKey`: an entry as it is written.
-/

namespace DeployManifest.Yaml

open Anchors (isAnchorKey isDigest digest? markLong EndsWord HoldsMark Turns)

namespace Piece

variable {Long : String → Prop} {anchors between after final : Anchors} {p m a key : Piece}
  {ps ms as : List Piece} {e f g : Piece × Piece} {es fs gs : List (Piece × Piece)} {text name digest : String}
  {behind : Behind} {column : Nat} {front : List Char}

/-- No property at all is no anchor. -/
theorem isNoAnchor_none : IsNoAnchor none := rfl

/-- The name of the anchor for a text. -/
def anchorName (text : String) : AnchorName where
  text := Digest.ofText text
  nonempty := by
    refine List.ne_nil_of_length_pos ?_
    rw [Digest.length_ofText]
    decide
  valid := by
    have digit : ∀ n < 16, isNameChar (Nat.digitChar n) = true := by decide
    intro c mem
    obtain ⟨n, lt, rfl⟩ := Digest.exists_digitChar_of_mem mem
    exact digit n lt

-- The anchors are those in front of the pieces and behind them.
mutual

/-- Whether a piece is marked and anchored as it should be.  Strings that may get anchors are `Long`. -/
inductive Anchored (Long : String → Prop) : Anchors → Piece → Piece → Piece → Anchors → Prop where
  | scalar {anchors : Anchors} {property? : Option Property} (leaf : Leaf) (own : IsNoAnchor property?) :
    Anchored Long anchors (.scalar property? leaf) (.scalar property? leaf) (.scalar property? leaf) anchors
  | seq {anchors after : Anchors} {property? : Option Property} {ps ms as : List Piece}
    (own : IsNoAnchor property?) (inside : AnchoredItems Long anchors ps ms as after) :
    Anchored Long anchors (.seq property? ps) (.seq property? ms) (.seq property? as) after
  | map {anchors after : Anchors} {property? : Option Property} {es fs gs : List (Piece × Piece)}
    (own : IsNoAnchor property?) (inside : AnchoredEntries Long anchors es fs gs after) :
    Anchored Long anchors (.map property? es) (.map property? fs) (.map property? gs) after

/-- The same for the items of a sequence: what is defined in one is known in the next. -/
inductive AnchoredItems (Long : String → Prop) :
    Anchors → List Piece → List Piece → List Piece → Anchors → Prop where
  | nil {anchors : Anchors} : AnchoredItems Long anchors [] [] [] anchors
  | cons {anchors between after : Anchors} {p m a : Piece} {ps ms as : List Piece}
    (first : Anchored Long anchors p m a between) (rest : AnchoredItems Long between ps ms as after) :
    AnchoredItems Long anchors (p :: ps) (m :: ms) (a :: as) after

/-- What anchors make of an entry.  It keeps its key, refers to a text that is known, or defines one. -/
inductive AnchoredEntry (Long : String → Prop) :
    Anchors → Piece × Piece → Piece × Piece → Piece × Piece → Anchors → Prop where
  | keeps {anchors after : Anchors} {key p m a : Piece} (same : Anchored Long anchors key key key anchors)
    (value : Anchored Long anchors p m a after) : AnchoredEntry Long anchors (key, p) (key, m) (key, a) after
  | refers {anchors : Anchors} {key : Piece} {text : String} (same : Anchored Long anchors key key key anchors)
    (long : Long text) (known : Digest.ofText text ∈ anchors.keys) :
    AnchoredEntry Long anchors (key, .scalar none (.ofString text))
      (key, .scalar none (.ofString ("*" ++ Digest.ofText text))) (key, .reference (anchorName text)) anchors
  | defines {anchors : Anchors} {name text : String} (long : Long text)
    (fresh : Digest.ofText text ∉ anchors.keys) (isKey : isAnchorKey name = true) :
    AnchoredEntry Long anchors (.scalar none (.ofString name), .scalar none (.ofString text))
      (.scalar none (.ofString (name ++ "=" ++ Digest.ofText text)), .scalar none (.ofString text))
      (.scalar none (.ofString name), .scalar (some (.anchor (anchorName text))) (.ofString text))
      (anchors.insert (Digest.ofText text) name)

/-- The same for the entries of a mapping, one after another. -/
inductive AnchoredEntries (Long : String → Prop) : Anchors → List (Piece × Piece) → List (Piece × Piece) →
    List (Piece × Piece) → Anchors → Prop where
  | nil {anchors : Anchors} : AnchoredEntries Long anchors [] [] [] anchors
  | cons {anchors between after : Anchors} {e f g : Piece × Piece} {es fs gs : List (Piece × Piece)}
    (first : AnchoredEntry Long anchors e f g between) (rest : AnchoredEntries Long between es fs gs after) :
    AnchoredEntries Long anchors (e :: es) (f :: fs) (g :: gs) after

end

/-! ## Pieces of trees -/

mutual

/-- Without marks a piece is as it is meant. -/
theorem anchored_ofValue {property? : Option Property} : ∀ v : Value, IsNoAnchor property? →
    Anchored Long anchors (ofValue property? v) (ofValue property? v) (ofValue property? v) anchors
  | .null, own | .bool true, own | .bool false, own | .int _, own | .float _, own | .string _, own =>
    .scalar _ own
  | .seq all, own => .seq own (anchoredItems_ofItems all)
  | .map all, own => .map own (anchoredEntries_ofEntries all)
  | .tagged _ content, _ => anchored_ofValue content rfl

theorem anchoredItems_ofItems : ∀ all : List Value,
    AnchoredItems Long anchors (ofItems all) (ofItems all) (ofItems all) anchors
  | [] => .nil
  | v :: rest => .cons (anchored_ofValue v rfl) (anchoredItems_ofItems rest)

/-- Entries without long strings stay as they are. -/
theorem anchoredEntries_ofEntries : ∀ all : List (Value × Value),
    AnchoredEntries Long anchors (ofEntries all) (ofEntries all) (ofEntries all) anchors
  | [] => .nil
  | (k, v) :: rest =>
    .cons (.keeps (anchored_ofValue k rfl) (anchored_ofValue v rfl)) (anchoredEntries_ofEntries rest)

end

section

open Value (mark markItems markEntries mark_seq mark_map markItems_cons markEntries_of_none markEntries_of_some
  MarksLong marksLong_markLong hasString_seq_cons_iff hasString_map_cons_iff hasString_map_iff AreBare KeysDiffer
  EachMappingOfItems EachMappingOfEntries HasNoMarkKeys keysDiffer_markEntries exists_string_of_digest?
  digest?_string_eq_some)

/-- Whether all long strings of a tree are counted as such, and none of its strings is the mark of a key for
    one that is. -/
def IsCounted (Long : String → Prop) (v : Value) : Prop := ∀ s, v.HasString s →
  (digest? (.string s) ≠ none → Long s) ∧ ∀ name text, Long text → s ≠ name ++ "=" ++ Digest.ofText text

theorem isCounted_seq_cons {v : Value} {rest : List Value} (counted : IsCounted Long (.seq (v :: rest))) :
    IsCounted Long v ∧ IsCounted Long (.seq rest) :=
  ⟨fun s has => counted s (hasString_seq_cons_iff.mpr (.inl has)),
    fun s has => counted s (hasString_seq_cons_iff.mpr (.inr has))⟩

theorem isCounted_map_cons {k v : Value} {rest : Entries} (counted : IsCounted Long (.map ((k, v) :: rest))) :
    IsCounted Long v ∧ IsCounted Long (.map rest) :=
  ⟨fun s has => counted s (hasString_map_cons_iff.mpr (.inl (.inr has))),
    fun s has => counted s (hasString_map_cons_iff.mpr (.inr has))⟩

/-- Where they are counted, no key looks like a mark. -/
theorem hasNoMarkKeys_of_isCounted {entries : Entries} (counted : IsCounted Long (.map entries)) :
    HasNoMarkKeys entries := by
  intro e mem f mem' name digest long same
  obtain ⟨text, is, rfl⟩ := exists_string_of_digest? long
  have key := counted _ (hasString_map_iff.mpr ⟨e, mem, .inl same⟩)
  have value := counted text (hasString_map_iff.mpr ⟨f, mem', .inr (is ▸ .string text)⟩)
  rw [is] at long
  exact key.2 name text (value.1 (by simp [long])) rfl

/-- An entry with a long string, as it is marked. -/
theorem exists_anchoredEntry {k : Value} {marked : (Value × Value) × Anchors}
    (long : digest? (.string text) = some digest) (counted : Long text)
    (bare : Value.IsBare (k, .string text)) (marks : MarksLong anchors k (.string text) digest marked) :
    ∃ put, AnchoredEntry Long anchors (ofValue none k, ofValue none (.string text))
      (ofValue none marked.1.1, ofValue none marked.1.2) put marked.2 := by
  obtain rfl := digest?_string_eq_some long
  cases marks with
  | refers known => exact ⟨_, .refers (anchored_ofValue k rfl) counted known⟩
  | @defines name fresh named isKey =>
    obtain rfl : k = .string name := bare (by simp [long]) name named isKey
    exact ⟨_, .defines counted fresh isKey⟩
  | keeps => exact ⟨_, .keeps (anchored_ofValue k rfl) (.scalar _ rfl)⟩

mutual

/-- For each tree there is a piece with the anchors that are meant by its marks. -/
theorem exists_anchored {property? : Option Property} : ∀ (v : Value) {anchors : Anchors},
    IsNoAnchor property? → IsCounted Long v → v.HasDistinctKeys → v.HasBareAnchorKeys →
    ∃ put, Anchored Long anchors (ofValue property? v) (ofValue property? (v.mark anchors).1) put
      (v.mark anchors).2
  | .seq items, _, own, counted, distinct, bare => by
    obtain ⟨puts, inside⟩ := exists_anchoredItems items counted distinct bare
    exact ⟨_, .seq own inside⟩
  | .map entries, anchors, own, counted, distinct, bare => by
    -- marked keys still differ, so none is overwritten
    have differ : KeysDiffer (markEntries anchors entries).1 :=
      keysDiffer_markEntries (hasNoMarkKeys_of_isCounted counted) distinct.1
    obtain ⟨puts, inside⟩ := exists_anchoredEntries entries counted distinct.2 bare.1 bare.2
    rw [mark_map, Value.insertAll_eq_self differ]
    exact ⟨_, .map own inside⟩
  | .tagged tag content, anchors, _, counted, distinct, bare =>
    exists_anchored content rfl (fun s has => counted s (.content has)) distinct bare
  | .null, _, own, _, _, _ | .bool true, _, own, _, _, _ | .bool false, _, own, _, _, _
  | .int _, _, own, _, _, _ | .float _, _, own, _, _, _ | .string _, _, own, _, _, _ => ⟨_, .scalar _ own⟩

/-- For the items of a sequence there are pieces with anchors. -/
theorem exists_anchoredItems : ∀ (items : List Value) {anchors : Anchors}, IsCounted Long (.seq items) →
    EachMappingOfItems KeysDiffer items → EachMappingOfItems AreBare items →
    ∃ puts, AnchoredItems Long anchors (ofItems items) (ofItems (markItems anchors items).1) puts
      (markItems anchors items).2
  | [], _, _, _, _ => ⟨_, .nil⟩
  | v :: rest, anchors, counted, distinct, bare => by
    obtain ⟨counted_here, counted_later⟩ := isCounted_seq_cons counted
    obtain ⟨put, first⟩ := exists_anchored v isNoAnchor_none counted_here distinct.1 bare.1
    obtain ⟨puts, others⟩ := exists_anchoredItems rest counted_later distinct.2 bare.2
    rw [markItems_cons]
    exact ⟨_, .cons first others⟩

/-- For the entries of a mapping there are, too. -/
theorem exists_anchoredEntries : ∀ (entries : List (Value × Value)) {anchors : Anchors},
    IsCounted Long (.map entries) → EachMappingOfEntries KeysDiffer entries → AreBare entries →
    EachMappingOfEntries AreBare entries →
    ∃ puts, AnchoredEntries Long anchors (ofEntries entries) (ofEntries (markEntries anchors entries).1) puts
      (markEntries anchors entries).2
  | [], _, _, _, _, _ => ⟨_, .nil⟩
  | (k, v) :: rest, anchors, counted, distinct, bare, bare_within => by
    obtain ⟨counted_here, counted_later⟩ := isCounted_map_cons counted
    obtain ⟨bare_here, bare_later⟩ := List.forall_mem_cons.mp bare
    -- an entry keeps its key, or it is marked as its long string asks for
    cases long : digest? v with
    | none =>
      obtain ⟨put, value⟩ := exists_anchored v isNoAnchor_none counted_here distinct.1 bare_within.1
      obtain ⟨puts, others⟩ := exists_anchoredEntries rest counted_later distinct.2 bare_later bare_within.2
      rw [markEntries_of_none anchors long]
      exact ⟨_, .cons (.keeps (anchored_ofValue k rfl) value) others⟩
    | some digest =>
      obtain ⟨text, rfl, -⟩ := exists_string_of_digest? long
      have counted_text := (counted_here text (.string text)).1 (by simp [long])
      obtain ⟨put, here⟩ := exists_anchoredEntry long counted_text bare_here
        (marksLong_markLong anchors k (.string text) digest)
      obtain ⟨puts, others⟩ := exists_anchoredEntries rest counted_later distinct.2 bare_later bare_within.2
      rw [markEntries_of_some anchors long]
      exact ⟨_, .cons here others⟩

end

end

/-! ## Anchors stay -/

/-- Whether anchors are among some others, for the same keys. -/
def AreAmong (anchors after : Anchors) : Prop :=
  ∀ digest name, anchors.get? digest = some name → after.get? digest = some name

theorem AreAmong.trans (first : AreAmong anchors after) (second : AreAmong after final) :
    AreAmong anchors final := fun digest name bound => second digest name (first digest name bound)

theorem AreAmong.mem_keys (among : AreAmong anchors after) (known : digest ∈ anchors.keys) :
    digest ∈ after.keys := by
  obtain ⟨name, bound⟩ := Table.exists_get?_of_mem_keys known
  exact List.mem_map_of_mem (Table.mem_entries_of_get? (among digest name bound))

mutual

/-- Anchors that are defined in front of a piece are defined behind it. -/
theorem Anchored.areAmong : ∀ {anchors after : Anchors} {p m a : Piece}, Anchored Long anchors p m a after →
    AreAmong anchors after
  | _, _, _, _, _, .scalar _ _ => fun _ _ bound => bound
  | _, _, _, _, _, .seq _ inside => inside.areAmong
  | _, _, _, _, _, .map _ inside => inside.areAmong

/-- The same for the items of a sequence. -/
theorem AnchoredItems.areAmong : ∀ {anchors after : Anchors} {ps ms as : List Piece},
    AnchoredItems Long anchors ps ms as after → AreAmong anchors after
  | _, _, _, _, _, .nil => fun _ _ bound => bound
  | _, _, _, _, _, .cons first rest => 
    first.areAmong.trans rest.areAmong

/-- The same for an entry, which defines a digest only if it is fresh. -/
theorem AnchoredEntry.areAmong : ∀ {anchors after : Anchors} {e f g : Piece × Piece},
    AnchoredEntry Long anchors e f g after → AreAmong anchors after
  | _, _, _, _, _, .keeps _ value => value.areAmong
  | _, _, _, _, _, .refers _ _ _ => fun _ _ bound => bound
  | _, _, _, _, _, .defines _ fresh _ => fun digest name bound => by
    rw [Table.get?_insert, if_neg]
    · exact bound
    · rintro rfl
      exact fresh (List.mem_map_of_mem (Table.mem_entries_of_get? bound))

/-- The same for the entries of a mapping. -/
theorem AnchoredEntries.areAmong : ∀ {anchors after : Anchors} {es fs gs : List (Piece × Piece)},
    AnchoredEntries Long anchors es fs gs after → AreAmong anchors after
  | _, _, _, _, _, .nil => fun _ _ bound => bound
  | _, _, _, _, _, .cons first rest => 
    first.areAmong.trans rest.areAmong

end

/-! ## Texts -/

/-- A text ends a word if its last part does. -/
theorem endsWord_append {text : List Char} (ends : EndsWord text) (nonempty : text ≠ []) (front : List Char) :
    EndsWord (front ++ text) := by
  cases ends with
  | nil => exact absurd rfl nonempty
  | concat before ends =>
    rw [← List.append_assoc]
    exact .concat _ ends

/-- A text that ends a line ends a word. -/
theorem endsWord_of_endsLine {text : List Char} (ends : EndsLine text) : EndsWord text := by
  obtain ⟨before, c, rfl, breaks⟩ := ends.exists_concat
  exact .concat before (.inr breaks)

/-- So do spaces, and nothing at all. -/
theorem endsWord_spaces (n : Nat) : EndsWord (spaces n) := by
  cases n with
  | zero => exact .nil
  | succ n =>
    rw [spaces, List.replicate_succ']
    exact .concat _ (.inl rfl)

/-- So does the gap in front of a value. -/
theorem endsWord_gap (inside : behind ≠ .start) (front : List Char) : EndsWord (front ++ behind.gap) := by
  have gap : behind.gap = [' '] := by cases behind <;> simp_all [Behind.gap]
  rw [gap]
  exact .concat front (.inl rfl)

/-- So does the indentation of a new line. -/
theorem endsWord_newLine (front : List Char) (n : Nat) : EndsWord (front ++ '\n' :: spaces n) := by
  cases n with
  | zero => exact .concat front (.inr (by decide))
  | succ n =>
    rw [List.append_cons]
    exact endsWord_append (endsWord_spaces (n + 1)) (by simp [spaces]) _

/-- So does what stands in front of a collection. -/
theorem endsWord_opening {property? : Option Property} (start : behind = .start → EndsWord front) (column : Nat) :
    EndsWord (front ++ opening behind column property?) := by
  cases property? with
  | some property =>
    rw [opening, ← List.append_assoc, ← List.append_assoc]
    exact endsWord_newLine _ column
  | none =>
    rw [opening, Behind.opening]
    split
    · exact endsWord_newLine front column
    · by_cases at_start : behind = .start
      · rw [at_start, Behind.gap, List.append_nil]
        exact start at_start
      · exact endsWord_gap at_start front

/-- A sequence as it is written: its first item behind the dash, then the others. -/
theorem text_seq_cons (behind : Behind) (column : Nat) (property? : Option Property) (item : Piece)
    (more : List Piece) : (Piece.seq property? (item :: more)).text behind column =
      opening behind (behind.dashes property?.isSome column) property? ++
        ('-' :: item.text .dash (behind.dashes property?.isSome column) ++
          items (behind.dashes property?.isSome column) more) := by
  rw [text, items_eq, List.flatMap_cons, List.append_assoc, drop_indentation, items_eq]
  · rfl
  · simp

/-- A mapping as it is written: its first entry, then the others. -/
theorem text_map_cons (behind : Behind) (column : Nat) (property? : Option Property) (entry : Piece × Piece)
    (more : List (Piece × Piece)) : (Piece.map property? (entry :: more)).text behind column =
      opening behind (behind.inner column) property? ++
        (entryText (behind.inner column) entry ++ entries (behind.inner column) more) := by
  rw [text, entries_eq, List.flatMap_cons, List.append_assoc, drop_indentation, entries_eq]
  simp

theorem entries_cons (column : Nat) (entry : Piece × Piece) (more : List (Piece × Piece)) :
    entries column (entry :: more) = spaces column ++ entryText column entry ++ entries column more := by
  rw [entries_eq, entries_eq, List.flatMap_cons]

/-- What stands in front of the value of an entry. -/
def keyText (column : Nat) (key : Piece) : List Char :=
  match simpleKey? key with
  | some text => text ++ [':']
  | none => '?' :: (key.text .mark column ++ (spaces column ++ [':']))

/-- What the value of a key stands behind. -/
def behindKey (key : Piece) : Behind := if (simpleKey? key).isSome then .key else .mark

theorem behindKey_ne_start (key : Piece) : behindKey key ≠ .start := by
  unfold behindKey
  split <;> decide

theorem entryText_eq (column : Nat) (key value : Piece) :
    entryText column (key, value) = keyText column key ++ value.text (behindKey key) column := by
  unfold entryText keyText behindKey
  cases simpleKey? key <;> simp

theorem entryText_of_isPlainKey (plain : IsPlainKey name) (column : Nat) (value : Piece) :
    entryText column (.scalar none (.ofString name), value) = name.toList ++ ':' :: value.text .key column := by
  simp [entryText, plain.simpleKey?]

/-- The text of an entry whose value refers to a text. -/
theorem turns_refers (known : Digest.ofText text ∈ final.keys) (column : Nat) (front : List Char) (key : Piece) :
    Turns final (front ++ entryText column (key, .scalar none (.ofString text)))
      (front ++ entryText column (key, .scalar none (.ofString ("*" ++ Digest.ofText text))))
      (front ++ entryText column (key, .reference (anchorName text))) := by
  have hex := Anchors.isDigest_ofText text
  have gap : (behindKey key).gap = [' '] := by
    unfold behindKey
    split <;> rfl
  have before : EndsWord (front ++ keyText column key ++ (behindKey key).gap) :=
    endsWord_gap (behindKey_ne_start key) _
  have turns := (Turns.plain before).append (.reference hex known
    (endLine (scalarLines (Leaf.ofString text).style (column + 2) text.toList)))
  rw [entryText_eq, entryText_eq, entryText_eq, text_reference hex, Piece.text, Piece.text,
    if_neg (behindKey_ne_start key)]
  simpa [lead, anchorName, Leaf.ofString] using turns

/-- The text of an entry whose value gets an anchor. -/
theorem turns_defines (isKey : isAnchorKey name = true) (bound : final.get? (Digest.ofText text) = some name)
    (column : Nat) (ends : EndsWord front) :
    Turns final (front ++ entryText column (.scalar none (.ofString name), .scalar none (.ofString text)))
      (front ++ entryText column
        (.scalar none (.ofString (name ++ "=" ++ Digest.ofText text)), .scalar none (.ofString text)))
      (front ++ entryText column
        (.scalar none (.ofString name), .scalar (some (.anchor (anchorName text))) (.ofString text))) := by
  have hex := Anchors.isDigest_ofText text
  have value : EndsWord (endLine (scalarLines (Leaf.ofString text).style (column + 2) text.toList)) :=
    endsWord_of_endsLine (endsLine_endLine _)
  have turns := (Turns.plain ends).append ((Turns.definition hex isKey bound).append (Turns.plain value))
  rw [entryText_of_isPlainKey (isPlainKey_of_isAnchorKey isKey),
    entryText_of_isPlainKey (isPlainKey_definition isKey hex),
    entryText_of_isPlainKey (isPlainKey_of_isAnchorKey isKey), Piece.text, Piece.text]
  simpa [lead, Behind.gap, anchorName, Leaf.ofString, Property.text] using turns

-- Induction on the pieces.  What stands in front of a piece is a part of the text only together with the gap
-- that the piece starts with, so it is carried along.
mutual

/-- Turning the marks in the text of a piece gives the text of the piece with anchors. -/
theorem Anchored.turns : ∀ {anchors after : Anchors} {p m a : Piece}, Anchored Long anchors p m a after →
    AreAmong after final → ∀ (behind : Behind) (column : Nat) (front : List Char),
    (behind = .start → EndsWord front) →
    Turns final (front ++ p.text behind column) (front ++ m.text behind column) (front ++ a.text behind column)
  | _, _, _, _, _, .scalar _ _, _, behind, column, front, _
  | _, _, _, _, _, .seq _ .nil, _, behind, column, front, _
  | _, _, _, _, _, .map _ .nil, _, behind, column, front, _ =>
    .plain (endsWord_of_endsLine ((endsLine_text _ behind column).append front))
  | _, _, _, _, _, @Anchored.seq _ _ _ property? _ _ _ _ (.cons first rest), among, behind, column, front, _ => by
    have item := first.turns (rest.areAmong.trans among) .dash (behind.dashes property?.isSome column)
      (front ++ opening behind (behind.dashes property?.isSome column) property? ++ ['-']) nofun
    rw [text_seq_cons, text_seq_cons, text_seq_cons]
    simpa using item.append (rest.turns among (behind.dashes property?.isSome column))
  | _, _, _, _, _, @Anchored.map _ _ _ property? _ _ _ _ (.cons first rest), among, behind, column, front,
    start => by
    have entry := first.turns (rest.areAmong.trans among) (behind.inner column)
      (front ++ opening behind (behind.inner column) property?) (endsWord_opening start _)
    rw [text_map_cons, text_map_cons, text_map_cons]
    simpa using entry.append (rest.turns among (behind.inner column))

/-- The same for the further items of a sequence. -/
theorem AnchoredItems.turns : ∀ {anchors after : Anchors} {ps ms as : List Piece},
    AnchoredItems Long anchors ps ms as after → AreAmong after final → ∀ column : Nat,
    Turns final (items column ps) (items column ms) (items column as)
  | _, _, _, _, _, .nil, _, _ => .plain .nil
  | _, _, _, _, _, .cons first rest, among, column => by
    have item := first.turns (rest.areAmong.trans among) .dash column (spaces column ++ ['-']) nofun
    rw [items, items, items]
    simpa using item.append (rest.turns among column)

/-- The same for an entry.  It is here that marks are turned. -/
theorem AnchoredEntry.turns : ∀ {anchors after : Anchors} {e f g : Piece × Piece},
    AnchoredEntry Long anchors e f g after → AreAmong after final → ∀ (column : Nat) (front : List Char),
    EndsWord front →
    Turns final (front ++ entryText column e) (front ++ entryText column f) (front ++ entryText column g)
  | _, _, _, _, _, @AnchoredEntry.keeps _ _ _ key _ _ _ _ value, among, column, front, _ => by
    have turns := value.turns among (behindKey key) column (front ++ keyText column key)
      fun start => absurd start (behindKey_ne_start key)
    rw [entryText_eq, entryText_eq, entryText_eq, ← List.append_assoc, ← List.append_assoc, ← List.append_assoc]
    exact turns
  | _, _, _, _, _, @AnchoredEntry.refers _ _ key text _ _ known, among, column, front, _ =>
    turns_refers (among.mem_keys known) column front key
  | _, _, _, _, _, @AnchoredEntry.defines _ anchors name text _ _ isKey, among, column, front, ends =>
    turns_defines isKey (among _ _ (by rw [Table.get?_insert, if_pos rfl])) column ends

/-- The same for the further entries of a mapping. -/
theorem AnchoredEntries.turns : ∀ {anchors after : Anchors} {es fs gs : List (Piece × Piece)},
    AnchoredEntries Long anchors es fs gs after → AreAmong after final → ∀ column : Nat,
    Turns final (entries column es) (entries column fs) (entries column gs)
  | _, _, _, _, _, .nil, _, _ => .plain .nil
  | _, _, _, _, _, .cons first rest, among, column => by
    have entry := first.turns (rest.areAmong.trans among) column (spaces column) (endsWord_spaces column)
    rw [entries_cons, entries_cons, entries_cons]
    exact entry.append (rest.turns among column)

end

end Piece
end DeployManifest.Yaml
