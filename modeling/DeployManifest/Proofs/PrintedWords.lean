import DeployManifest.Proofs.PieceLines
import DeployManifest.Proofs.WrittenWords

/-!
# Words in printed trees

Every node of a printed tree ends its line, and a break stands in no word that is looked for.  So no word
reaches from one node into the next: a word in a printed collection stands in one of its items, keys or
values (`infix_node_seq`, `infix_node_map`), wherever these stand in the collection, and a word in a
scalar is one of its text (`infix_of_node_scalar`).

- `EndsLine`, `infix_append_of_endsLine`: a word does not reach over the end of a line.
- `endsLine_node`, `endsLine_items`, `endsLine_entries`: all that is printed ends its line.
- `keyText`, `entryText`, `node_seq_cons`, `node_map_cons`: how collections are put together.
- `infix_items`, `infix_entries`: by induction, a word stands in one of the parts.
-/

namespace DeployManifest.Yaml

open DeployManifest.Yaml.Piece (EndsLine endsLine_endLine)

variable {word text more : List Char}

theorem endsLine_feed (text : List Char) : EndsLine (text ++ ['\n']) := .append text rfl

/-- Whole lines behind a text that ends with a break. -/
theorem endsLine_append (ends : EndsLine text) (lines : more = [] ∨ EndsLine more) : EndsLine (text ++ more) := by
  rcases lines with rfl | ends_more
  · rwa [List.append_nil]
  · exact ends_more.append text

theorem notMem_spaces (n : Nat) : ∀ sign ∈ wordSigns, sign ∉ spaces n := by
  intro sign is_sign mem
  obtain rfl := List.eq_of_mem_replicate mem
  exact absurd is_sign (by decide)

/-- No word that is looked for starts in what stands in front of a collection. -/
theorem notMem_opening (behind : Behind) (tagged : Bool) (column : Nat) :
    ∀ sign ∈ wordSigns, sign ∉ behind.opening tagged column := by
  intro sign is_sign
  unfold Behind.opening
  split
  · refine List.not_mem_cons_of_ne_of_not_mem ?_ (notMem_spaces column sign is_sign)
    rintro rfl
    exact absurd is_sign (by decide)
  · revert sign
    cases behind <;> exact forall_mem_of_all (by decide)

namespace IsWord

variable (is_word : IsWord word)
include is_word

/-- A word stands on one side of the end of a line. -/
theorem infix_append_of_endsLine (ends : EndsLine text) :
    word <:+: text ++ more ↔ word <:+: text ∨ word <:+: more := by
  obtain ⟨before, c, rfl, breaks⟩ := ends.exists_concat
  have outside : c ∉ word := is_word.notMem (.inl breaks)
  have nothing : ¬ word <:+: [] := is_word.not_within fun _ _ => List.not_mem_nil
  rw [List.append_assoc, List.singleton_append, Text.infix_append_cons_iff outside,
    Text.infix_append_cons_iff outside]
  simp [nothing]

/-- The end of a line neither adds nor hides a word. -/
theorem infix_endLine : word <:+: endLine text ↔ word <:+: text := by
  have nothing : ¬ word <:+: [] := is_word.not_within fun _ _ => List.not_mem_nil
  unfold endLine
  split
  · rfl
  · rw [Text.infix_append_cons_iff (is_word.notMem (.inl (by decide)))]
    simp [nothing]

/-- Spaces behind a text neither add nor hide a word. -/
theorem infix_append_spaces (n : Nat) : word <:+: text ++ spaces n ↔ word <:+: text := by
  cases n with
  | zero => rw [spaces, List.replicate_zero, List.append_nil]
  | succ n =>
    rw [spaces, List.replicate_succ, Text.infix_append_cons_iff (is_word.notMem (.inr (by decide)))]
    exact or_iff_left (is_word.not_within (notMem_spaces n))

end IsWord

namespace Value

/-! ## Nodes end their lines -/

/-- The text of a key, without its colon and what stands in front of it. -/
def keyText (column : Nat) (key : Value) : List Char :=
  (simpleKey? key).getD (node .mark false column key)

/-- What the value of a key stands behind. -/
def behindKey (key : Value) : Behind := if (simpleKey? key).isSome then .key else .mark

theorem items_cons (column : Nat) (v : Value) (rest : List Value) :
    items column (v :: rest) =
      spaces column ++ ('-' :: node .dash false column v ++ items column rest) := by
  simp [items]

/-- What stands behind the column of an entry. -/
def entryText (column : Nat) (key v : Value) (rest : List (Value × Value)) : List Char :=
  (if (simpleKey? key).isSome then [] else ['?']) ++ (keyText column key ++
    ((if (simpleKey? key).isSome then [] else spaces column) ++ ':' ::
      (node (behindKey key) false column v ++ entries column rest)))

/-- An entry and those behind it end a line if the value does. -/
theorem endsLine_entryText {column : Nat} {key v : Value} {rest : List (Value × Value)}
    (ends : EndsLine (node (behindKey key) false column v ++ entries column rest)) :
    EndsLine (entryText column key v rest) := by
  unfold Value.entryText
  exact .append _ (.append _ (.append _ (ends.append [':'])))

theorem entries_cons (column : Nat) (key v : Value) (rest : List (Value × Value)) :
    entries column ((key, v) :: rest) = spaces column ++ entryText column key v rest := by
  rw [entries, entryText, keyText, behindKey]
  cases simpleKey? key <;> simp

/-- A printed sequence is its first item and the other ones, behind the opening. -/
theorem node_seq_cons (behind : Behind) (tagged : Bool) (column : Nat) (v : Value) (rest : List Value) :
    node behind tagged column (.seq (v :: rest)) =
      behind.opening tagged (behind.dashes tagged column) ++
        ('-' :: node .dash false (behind.dashes tagged column) v ++
          items (behind.dashes tagged column) rest) := by
  rw [node]
  · rw [items_cons, Piece.drop_indentation]
  · exact nofun

/-- So is a printed mapping. -/
theorem node_map_cons (behind : Behind) (tagged : Bool) (column : Nat) (key v : Value)
    (rest : List (Value × Value)) :
    node behind tagged column (.map ((key, v) :: rest)) =
      behind.opening tagged (behind.inner column) ++ entryText (behind.inner column) key v rest := by
  rw [node]
  · rw [entries_cons, Piece.drop_indentation]
  · exact nofun

mutual

/-- Every printed tree ends its line. -/
theorem endsLine_node (behind : Behind) (tagged : Bool) (column : Nat) :
    ∀ v : Value, EndsLine (node behind tagged column v)
  | .tagged tag content => by
    rw [node]
    exact (endsLine_node behind true column content).append _
  | .seq [] => by
    rw [node]
    exact (endsLine_feed ['[', ']']).append _
  | .map [] => by
    rw [node]
    exact (endsLine_feed ['\x7b', '\x7d']).append _
  -- a collection ends where its last line does
  | .seq (v :: rest) => by
    rw [node_seq_cons]
    exact (endsLine_append ((endsLine_node .dash false _ v).append ['-']) (endsLine_items _ rest)).append _
  | .map ((key, v) :: rest) => by
    rw [node_map_cons]
    have ends := endsLine_append (endsLine_node (behindKey key) false (behind.inner column) v)
      (endsLine_entries (behind.inner column) rest)
    exact (endsLine_entryText ends).append _
  | .null | .bool true | .bool false | .int _ | .float _ | .string _ => by
    simp only [node, scalar?]
    exact (endsLine_endLine _).append _

/-- Printed items end a line unless there are none. -/
theorem endsLine_items (column : Nat) : ∀ all : List Value,
    items column all = [] ∨ EndsLine (items column all)
  | [] => .inl (by rw [items])
  | v :: rest => by
    rw [items_cons]
    exact .inr ((endsLine_append ((endsLine_node .dash false column v).append ['-'])
      (endsLine_items column rest)).append _)

/-- Printed entries end a line unless there are none. -/
theorem endsLine_entries (column : Nat) : ∀ all : List (Value × Value),
    entries column all = [] ∨ EndsLine (entries column all)
  | [] => .inl (by rw [entries])
  | (key, v) :: rest => by
    rw [entries_cons]
    have ends := endsLine_append (endsLine_node (behindKey key) false column v) (endsLine_entries column rest)
    exact .inr ((endsLine_entryText ends).append _)

end

/-! ## Words in collections -/

section

variable (is_word : IsWord word) {behind : Behind} {tagged : Bool} {column : Nat}
include is_word

/-- A word among printed items stands in one of them. -/
theorem infix_items {all : List Value} :
    word <:+: items column all ↔ ∃ v ∈ all, word <:+: node .dash false column v := by
  induction all with
  | nil =>
    rw [items]
    exact ⟨fun within => absurd within (is_word.not_within fun _ _ => List.not_mem_nil), nofun⟩
  | cons v rest ih =>
    rw [items_cons, is_word.infix_append_iff (notMem_spaces column), ← List.singleton_append,
      List.append_assoc, is_word.infix_append_iff (forall_mem_of_all (by decide)),
      is_word.infix_append_of_endsLine (endsLine_node .dash false column v), ih]
    simp

omit is_word in
/-- Whether a word stands in the key or the value of an entry. -/
def InfixOfEntry (word : List Char) (column : Nat) (e : Value × Value) : Prop :=
  word <:+: keyText column e.1 ∨ word <:+: node (behindKey e.1) false column e.2

/-- A word that is found from an entry on stands in the entry, or behind it. -/
theorem infix_entryText {key v : Value} {rest : List (Value × Value)} :
    word <:+: entryText column key v rest ↔
      InfixOfEntry word column (key, v) ∨ word <:+: entries column rest := by
  have colon : ':' ∉ word := is_word.notMem (.inr (by decide))
  have value : word <:+: node (behindKey key) false column v ++ entries column rest ↔ _ :=
    is_word.infix_append_of_endsLine (endsLine_node (behindKey key) false column v)
  unfold entryText InfixOfEntry
  -- a simple key stands in front of a colon, any other behind a question mark
  cases simpleKey? key with
  | some text =>
    simp only [Option.isSome_some, if_true, List.nil_append]
    rw [Text.infix_append_cons_iff colon, value, or_assoc]
  | none =>
    simp only [Option.isSome_none, Bool.false_eq_true, if_false]
    rw [is_word.infix_append_iff (forall_mem_of_all (by decide)), ← List.append_assoc,
      Text.infix_append_cons_iff colon, is_word.infix_append_spaces, value, or_assoc]

/-- A word among printed entries stands in one of them. -/
theorem infix_entries {all : List (Value × Value)} :
    word <:+: entries column all ↔ ∃ e ∈ all, InfixOfEntry word column e := by
  induction all with
  | nil =>
    rw [entries]
    exact ⟨fun within => absurd within (is_word.not_within fun _ _ => List.not_mem_nil), nofun⟩
  | cons e rest ih =>
    rw [entries_cons, is_word.infix_append_iff (notMem_spaces column), infix_entryText is_word, ih]
    simp

/-- A word in a printed sequence stands in one of its items. -/
theorem infix_node_seq {all : List Value} :
    word <:+: node behind tagged column (.seq all) ↔
      ∃ v ∈ all, word <:+: node .dash false (behind.dashes tagged column) v := by
  rw [← infix_items is_word]
  cases all with
  | nil =>
    refine iff_of_false (is_word.not_within ?_) (is_word.not_within (by simp [items]))
    cases tagged <;> cases behind <;> simp [node, Behind.gap, wordSigns]
  | cons v rest =>
    rw [node_seq_cons, items_cons, is_word.infix_append_iff (notMem_opening _ _ _),
      is_word.infix_append_iff (notMem_spaces _)]

/-- A word in a printed mapping stands in one of its entries. -/
theorem infix_node_map {all : List (Value × Value)} :
    word <:+: node behind tagged column (.map all) ↔
      ∃ e ∈ all, InfixOfEntry word (behind.inner column) e := by
  rw [← infix_entries is_word]
  cases all with
  | nil =>
    refine iff_of_false (is_word.not_within ?_) (is_word.not_within (by simp [entries]))
    cases tagged <;> cases behind <;> simp [node, Behind.gap, wordSigns]
  | cons e rest =>
    rw [node_map_cons, entries_cons, is_word.infix_append_iff (notMem_opening _ _ _),
      is_word.infix_append_iff (notMem_spaces _)]

/-! ## Words in scalars -/

omit is_word in
theorem notMem_gap (behind : Behind) (tagged : Bool) :
    ∀ sign ∈ wordSigns, sign ∉ if tagged then [' '] else behind.gap := by
  cases tagged <;> cases behind <;> exact forall_mem_of_all (by decide)

omit is_word in
/-- A printed scalar is its text in some style, behind a gap. -/
theorem node_of_scalar? {v : Value} {text : String} {wanted : Style} (scalar : v.scalar? = some (text, wanted)) :
    node behind tagged column v = (if tagged then [' '] else behind.gap) ++
      endLine (scalarLines (writtenStyle .anyLines wanted text.toList) (if behind = .start then 2 else column + 2)
        text.toList) := by
  cases v with
  | seq | map | tagged => nomatch scalar
  | bool b => cases b <;> (obtain ⟨⟩ := scalar; rfl)
  | null | int | float | string =>
    obtain ⟨⟩ := scalar
    rfl

/-- A word in a printed scalar stands in its text. -/
theorem infix_of_node_scalar {v : Value} {text : String} {wanted : Style}
    (scalar : v.scalar? = some (text, wanted)) (within : word <:+: node behind tagged column v) :
    word <:+: text.toList := by
  rw [node_of_scalar? scalar, is_word.infix_append_iff (notMem_gap behind tagged), is_word.infix_endLine] at within
  exact is_word.infix_of_scalarLines within

/-- A word in a key that is written on its line stands in the text of the key. -/
theorem infix_of_bareKey? {key : Value} {found : List Char} {size : Nat}
    (bare : bareKey? key = some (found, size)) (within : word <:+: found) :
    ∃ text wanted, key.scalar? = some (text, wanted) ∧ word <:+: text.toList := by
  unfold bareKey? at bare
  split at bare
  · obtain ⟨rfl, -⟩ := Prod.mk.inj (Option.some.inj bare)
    exact absurd within (is_word.not_within (forall_mem_of_all (by decide)))
  · obtain ⟨rfl, -⟩ := Prod.mk.inj (Option.some.inj bare)
    exact absurd within (is_word.not_within (forall_mem_of_all (by decide)))
  · obtain ⟨⟨text, wanted⟩, scalar, written⟩ := Option.bind_eq_some_iff.mp bare
    obtain ⟨-, written⟩ := Option.ite_none_left_eq_some.mp written
    obtain ⟨rfl, -⟩ := Prod.mk.inj (Option.some.inj written)
    exact ⟨text, wanted, scalar, is_word.infix_of_scalarLines within⟩

/-- A word in a printed scalar key stands in the text of the key. -/
theorem infix_of_keyText_scalar {key : Value} {text : String} {wanted : Style}
    (scalar : key.scalar? = some (text, wanted)) (within : word <:+: keyText column key) :
    word <:+: text.toList := by
  unfold keyText at within
  cases simple : simpleKey? key with
  | none =>
    rw [simple] at within
    exact infix_of_node_scalar is_word scalar within
  | some written =>
    rw [simple] at within
    obtain ⟨⟨found, size⟩, kept, rfl⟩ := Option.map_eq_some_iff.mp simple
    have bare := (Option.filter_eq_some_iff.mp kept).1
    split at bare
    · nomatch scalar
    · obtain ⟨text', wanted', scalar', within⟩ := infix_of_bareKey? is_word bare within
      obtain ⟨rfl, -⟩ := Prod.mk.inj (Option.some.inj (scalar.symm.trans scalar'))
      exact within

end

end Value
end DeployManifest.Yaml
