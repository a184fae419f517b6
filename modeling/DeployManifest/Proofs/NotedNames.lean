import DeployManifest.Evaluation.Interpolation
import DeployManifest.Proofs.Occurrences

/-!
# What is noted on the way through a tree

A tree has strings among its values and among its keys (`Value.HasString`); values are put into those
and into nothing else.  Looking a name up may note names in a set that is kept on the way.  Whatever
such a set is for, it grows by just what is noted for the placeholders in the strings of the tree
(`mem_kept_tree`), whatever stands in the rest of the tree and whether or not a placeholder gives way.

- `Value.HasString`: the strings of a tree.
- `Notes`: how a set grows when a name is looked up.
- `IsNotedIn`: the names noted for placeholders that stand in the strings of a tree.
- `mem_kept_pieceText`, `mem_kept_text`, `mem_kept_tree`: what one piece, one string and a whole tree add.
-/

namespace DeployManifest

open Yaml (Value)

namespace Yaml.Value

/-- Whether a string is among the values or the keys of a tree.  Keys that are not strings are not
    looked into. -/
inductive HasString : Value → String → Prop where
  | string (s : String) : HasString (.string s) s
  | item {items : List Value} {v : Value} {s : String} (mem : v ∈ items) (inside : HasString v s) :
    HasString (.seq items) s
  | key {entries : Entries} {v : Value} {s : String} (mem : (.string s, v) ∈ entries) :
    HasString (.map entries) s
  | value {entries : Entries} {k v : Value} {s : String} (mem : (k, v) ∈ entries)
    (inside : HasString v s) : HasString (.map entries) s
  | content {tag : String} {v : Value} {s : String} (inside : HasString v s) :
    HasString (.tagged tag v) s

variable {s : String}

theorem hasString_string_iff {t : String} : HasString (.string t) s ↔ t = s :=
  ⟨fun | .string _ => rfl, fun same => same ▸ .string t⟩

theorem hasString_seq_iff {items : List Value} :
    HasString (.seq items) s ↔ ∃ v ∈ items, v.HasString s :=
  ⟨fun | .item mem inside => ⟨_, mem, inside⟩, fun ⟨_, mem, inside⟩ => .item mem inside⟩

/-- A mapping has its keys that are strings, and the strings of its values. -/
theorem hasString_map_iff {entries : Entries} :
    HasString (.map entries) s ↔ ∃ e ∈ entries, e.1 = .string s ∨ e.2.HasString s := by
  constructor
  · intro has
    cases has with
    | key mem => exact ⟨_, mem, .inl rfl⟩
    | value mem inside => exact ⟨_, mem, .inr inside⟩
  · rintro ⟨⟨k, v⟩, mem, rfl | inside⟩
    · exact .key mem
    · exact .value mem inside

theorem hasString_tagged_iff {tag : String} {content : Value} :
    HasString (.tagged tag content) s ↔ content.HasString s :=
  ⟨fun | .content inside => inside, .content⟩

end Yaml.Value

namespace Interpolation

variable {b : Bindings} {kept : Usage → NameSet} {noted : List Char → String → Prop}
variable {usage after : Usage} {name : String}

/-- Whether a set that is kept on the way grows, with each name looked up, by what is noted for that
    name. -/
def Notes (b : Bindings) (kept : Usage → NameSet) (noted : List Char → String → Prop) : Prop :=
  ∀ usage text name, name ∈ (kept (resolve b usage text).2).toList ↔
    name ∈ (kept usage).toList ∨ noted text name

/-- Whether a name is noted for a placeholder among some pieces. -/
def IsNoted (noted : List Char → String → Prop) (parts : List Piece) (name : String) : Prop :=
  ∃ p : Placeholder, .placeholder p ∈ parts ∧ noted p.name name

/-- Whether a name is noted for a placeholder that stands anywhere in the strings of a tree. -/
def IsNotedIn (noted : List Char → String → Prop) (t : Value) (name : String) : Prop :=
  ∃ s, t.HasString s ∧ ∃ p : Placeholder, p.StandsIn s.toList ∧ noted p.name name

/-! ## Strings -/

theorem isNoted_cons {piece : Piece} {parts : List Piece} :
    IsNoted noted (piece :: parts) name ↔ IsNoted noted [piece] name ∨ IsNoted noted parts name := by
  unfold IsNoted
  simp only [List.mem_cons, List.not_mem_nil, or_false, or_and_right, exists_or]

theorem isNoted_singleton {p : Placeholder} :
    IsNoted noted [.placeholder p] name ↔ noted p.name name := by
  unfold IsNoted
  simp

/-- One piece of a longer string adds what is noted for it, even if its value has no text. -/
theorem mem_kept_pieceText (notes : Notes b kept noted) {piece : Piece} :
    name ∈ (kept (pieceText b usage piece).2).toList ↔
      name ∈ (kept usage).toList ∨ IsNoted noted [piece] name := by
  cases piece with
  | char c =>
    refine ⟨.inl, fun mem => mem.elim id ?_⟩
    rintro ⟨p, mem, -⟩
    nomatch List.mem_singleton.mp mem
  | placeholder p =>
    -- whether the value has a text plays no part in what is noted
    have same : (pieceText b usage (.placeholder p)).2 = (resolve b usage p.name).2 := by
      rw [pieceText]
      rcases resolve b usage p.name with ⟨_ | v, after⟩
      · rfl
      · dsimp only
        split <;> rfl
    rw [same, notes, isNoted_singleton]

/-- All pieces of a longer string add what is noted for any of them, even behind one that fails. -/
theorem mem_kept_piecesText (notes : Notes b kept noted) {parts : List Piece} :
    name ∈ (kept (piecesText b usage parts).2).toList ↔
      name ∈ (kept usage).toList ∨ IsNoted noted parts name := by
  induction parts generalizing usage with
  | nil =>
    refine ⟨.inl, fun mem => mem.elim id ?_⟩
    rintro ⟨p, mem, -⟩
    nomatch mem
  | cons piece parts ih =>
    -- what is kept does not depend on what the text turns out to be
    have same : (piecesText b usage (piece :: parts)).2 =
        (piecesText b (pieceText b usage piece).2 parts).2 := by
      rw [piecesText]
      dsimp only
      split <;> rfl
    rw [same, ih, mem_kept_pieceText notes, or_assoc, ← isNoted_cons]

/-- A string adds what is noted for its pieces. -/
theorem mem_kept_text (notes : Notes b kept noted) {s : String} {last : Value}
    (put : text b usage s = .ok (last, after)) :
    name ∈ (kept after).toList ↔
      name ∈ (kept usage).toList ∨ IsNoted noted (Piece.pieces s.toList) name := by
  unfold text at put
  split at put
  · next p only =>
    -- nothing but a placeholder: only its name is looked up
    rw [only, isNoted_singleton, ← notes]
    generalize resolve b usage p.name = resolved at put
    obtain ⟨-, rfl⟩ := Prod.mk.inj (Except.ok.inj put)
    rfl
  · split at put
    · next chars _ found =>
      obtain ⟨-, rfl⟩ := Prod.mk.inj (Except.ok.inj put)
      have grown := @mem_kept_piecesText b kept noted usage name notes (Piece.pieces s.toList)
      rwa [found] at grown
    · nomatch put

/-- A key adds what is noted for its pieces, if it is a string. -/
theorem mem_kept_key (notes : Notes b kept noted) {k last : Value}
    (put : key b usage k = .ok (last, after)) :
    name ∈ (kept after).toList ↔ name ∈ (kept usage).toList ∨
      ∃ s, k = .string s ∧ IsNoted noted (Piece.pieces s.toList) name := by
  unfold key at put
  split at put
  · rw [mem_kept_text notes put]
    simp only [Value.string.injEq, exists_eq_left']
  · next other =>
    obtain ⟨-, rfl⟩ := Prod.mk.inj (Except.ok.inj put)
    refine ⟨.inl, fun mem => mem.elim id ?_⟩
    rintro ⟨s, rfl, -⟩
    exact absurd rfl (other s)

/-! ## Trees -/

/-- The pieces of a text hold the placeholders that stand in it, so it is for those that a walk through
    the pieces notes names. -/
theorem isNoted_pieces {s : String} : IsNoted noted (Piece.pieces s.toList) name ↔
    ∃ p : Placeholder, p.StandsIn s.toList ∧ noted p.name name := by
  unfold IsNoted
  simp only [Placeholder.standsIn_iff_mem_all, Placeholder.mem_all]

/-- In a string, names are noted for its pieces. -/
theorem isNotedIn_string {s : String} :
    IsNotedIn noted (.string s) name ↔ IsNoted noted (Piece.pieces s.toList) name := by
  rw [isNoted_pieces]
  unfold IsNotedIn
  simp only [Value.hasString_string_iff, exists_eq_left']

/-- In a sequence, names are noted for its items. -/
theorem isNotedIn_seq {list : List Value} :
    IsNotedIn noted (.seq list) name ↔ ∃ v ∈ list, IsNotedIn noted v name := by
  unfold IsNotedIn
  simp only [Value.hasString_seq_iff]
  constructor
  · rintro ⟨s, ⟨v, mem, has⟩, here⟩
    exact ⟨v, mem, s, has, here⟩
  · rintro ⟨v, mem, s, has, here⟩
    exact ⟨s, ⟨v, mem, has⟩, here⟩

/-- Whether a name is noted for an entry: for its key, if that is a string, or for its value. -/
def IsNotedInEntry (noted : List Char → String → Prop) (entry : Value × Value) (name : String) : Prop :=
  (∃ s, entry.1 = .string s ∧ IsNoted noted (Piece.pieces s.toList) name) ∨
    IsNotedIn noted entry.2 name

/-- In a mapping, names are noted for its entries. -/
theorem isNotedIn_map {list : List (Value × Value)} :
    IsNotedIn noted (.map list) name ↔ ∃ entry ∈ list, IsNotedInEntry noted entry name := by
  unfold IsNotedInEntry IsNotedIn
  simp only [Value.hasString_map_iff, isNoted_pieces]
  constructor
  · rintro ⟨s, ⟨entry, mem, is_key | has⟩, here⟩
    · exact ⟨entry, mem, .inl ⟨s, is_key, here⟩⟩
    · exact ⟨entry, mem, .inr ⟨s, has, here⟩⟩
  · rintro ⟨entry, mem, ⟨s, is_key, here⟩ | ⟨s, has, here⟩⟩
    · exact ⟨s, ⟨entry, mem, .inl is_key⟩, here⟩
    · exact ⟨s, ⟨entry, mem, .inr has⟩, here⟩

theorem isNotedIn_tagged {tag : String} {content : Value} :
    IsNotedIn noted (.tagged tag content) name ↔ IsNotedIn noted content name := by
  unfold IsNotedIn
  simp only [Value.hasString_tagged_iff]

/-- A tree without strings has nothing to note. -/
theorem mem_kept_scalar {t : Value} (scalar : ∀ s, ¬ t.HasString s) :
    name ∈ (kept usage).toList ↔ name ∈ (kept usage).toList ∨ IsNotedIn noted t name :=
  ⟨.inl, fun mem => mem.elim id fun ⟨s, has, _⟩ => absurd has (scalar s)⟩

mutual

/-- What is noted on the way through a tree is what is noted for its placeholders. -/
theorem mem_kept_tree (notes : Notes b kept noted) : ∀ {t last : Value} {usage after : Usage},
    tree b usage t = .ok (last, after) →
      (name ∈ (kept after).toList ↔ name ∈ (kept usage).toList ∨ IsNotedIn noted t name)
  | .null, _, _, _, put => by
    obtain ⟨-, rfl⟩ := Prod.mk.inj (Except.ok.inj put)
    exact mem_kept_scalar nofun
  | .bool _, _, _, _, put => by
    obtain ⟨-, rfl⟩ := Prod.mk.inj (Except.ok.inj put)
    exact mem_kept_scalar nofun
  | .int _, _, _, _, put => by
    obtain ⟨-, rfl⟩ := Prod.mk.inj (Except.ok.inj put)
    exact mem_kept_scalar nofun
  | .float _, _, _, _, put => by
    obtain ⟨-, rfl⟩ := Prod.mk.inj (Except.ok.inj put)
    exact mem_kept_scalar nofun
  | .string s, _, _, _, put => by
    rw [tree] at put
    rw [mem_kept_text notes put, isNotedIn_string]
  -- in a collection the names noted inside are added to those noted before
  | .seq list, _, _, _, put => by
    rw [tree] at put
    split at put
    · nomatch put
    · next inside =>
      obtain ⟨-, rfl⟩ := Prod.mk.inj (Except.ok.inj put)
      rw [mem_kept_items notes inside, isNotedIn_seq]
  | .map list, _, _, _, put => by
    rw [tree] at put
    split at put
    · nomatch put
    · next inside =>
      obtain ⟨-, rfl⟩ := Prod.mk.inj (Except.ok.inj put)
      rw [mem_kept_entries notes inside, isNotedIn_map]
  | .tagged _ content, _, _, _, put => by
    rw [tree] at put
    split at put
    · nomatch put
    · next inside =>
      obtain ⟨-, rfl⟩ := Prod.mk.inj (Except.ok.inj put)
      rw [mem_kept_tree notes inside, isNotedIn_tagged]

/-- The items of a sequence add what is noted for any of them. -/
theorem mem_kept_items (notes : Notes b kept noted) : ∀ {list lasts : List Value} {usage after : Usage},
    items b usage list = .ok (lasts, after) →
      (name ∈ (kept after).toList ↔
        name ∈ (kept usage).toList ∨ ∃ v ∈ list, IsNotedIn noted v name)
  | [], _, _, _, put => by
    obtain ⟨-, rfl⟩ := Prod.mk.inj (Except.ok.inj put)
    exact ⟨.inl, fun mem => mem.elim id nofun⟩
  | v :: rest, _, _, _, put => by
    rw [items] at put
    split at put
    · nomatch put
    · next first =>
      split at put
      · nomatch put
      -- what is kept after the first item is where the others start from
      · next others =>
        obtain ⟨-, rfl⟩ := Prod.mk.inj (Except.ok.inj put)
        rw [mem_kept_items notes others, mem_kept_tree notes first, or_assoc]
        simp only [List.mem_cons, exists_eq_or_imp]

/-- The entries of a mapping add what is noted for any of them, keys included. -/
theorem mem_kept_entries (notes : Notes b kept noted) :
    ∀ {list lasts : List (Value × Value)} {usage after : Usage},
    entries b usage list = .ok (lasts, after) →
      (name ∈ (kept after).toList ↔
        name ∈ (kept usage).toList ∨ ∃ entry ∈ list, IsNotedInEntry noted entry name)
  | [], _, _, _, put => by
    obtain ⟨-, rfl⟩ := Prod.mk.inj (Except.ok.inj put)
    exact ⟨.inl, fun mem => mem.elim id nofun⟩
  | (k, v) :: rest, _, _, _, put => by
    -- key, value and further entries each add to what was noted before them
    rw [entries] at put
    split at put
    · nomatch put
    · next named =>
      split at put
      · nomatch put
      · next valued =>
        split at put
        · nomatch put
        · next others =>
          obtain ⟨-, rfl⟩ := Prod.mk.inj (Except.ok.inj put)
          rw [mem_kept_entries notes others, mem_kept_tree notes valued, mem_kept_key notes named,
            or_assoc, or_assoc]
          simp only [List.mem_cons, exists_eq_or_imp]
          rw [IsNotedInEntry, or_assoc]

end

/-- Where nothing was noted before, what is noted is for placeholders of the tree. -/
theorem mem_kept_iff (notes : Notes b kept noted) (blank : kept .none = .empty) {t last : Value}
    (put : interpolate b t = .ok (last, usage)) :
    name ∈ (kept usage).toList ↔ IsNotedIn noted t name := by
  rw [mem_kept_tree notes put, blank]
  exact or_iff_right nofun

end Interpolation
end DeployManifest
