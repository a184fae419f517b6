import DeployManifest.Proofs.KeyOrder
import DeployManifest.Proofs.PlaceholderScan
import DeployManifest.Proofs.Resolution

/-!
# Putting values in is one substitution

`Becomes` says what a tree becomes when the values of some tables are put in, without saying how: every
string among its values, and every string among its keys, becomes something by itself
(`TextBecomes`), and the tree is built again from that.  What is put in does not occur on the left of
any of these relations, so it is never looked at again.

A string that is a placeholder and nothing else becomes the value the name stands for.  Any other string
is cut into its pieces by *some* list of pieces that holds every placeholder which stands in the string;
there is only one such list (`Piece.Covers.eq_pieces`), so the order of the search plays no part.

Main statement: `interpolateChecked_eq_ok_iff`, with options that expect nothing.

- `PieceBecomes`, `TextBecomes`, `KeyBecomes`: pieces, strings and keys.
- `Becomes`, `ItemsBecome`, `EntriesBecome`: trees.
- `Becomes.exists_of_map`: which entries a mapping has in the end, if several keys become the same.
- `Interpolation.text_eq_ok_iff`, `Interpolation.tree_eq_ok_iff`: the walk does what the relations say.
-/

namespace DeployManifest

open Yaml (Value)
open Bindings (StandsFor)
open Piece (Covers)

/-! ## What a tree becomes -/

/-- What a piece of a longer string becomes. -/
inductive PieceBecomes (b : Bindings) : Piece → List Char → Prop where
  | char (c : Char) : PieceBecomes b (.char c) [c]
  | kept {p : Placeholder} (free : ∀ v, ¬ StandsFor b p.name v) :
    PieceBecomes b (.placeholder p) p.written
  | replaced {p : Placeholder} {v : Value} {text : String} (stands : StandsFor b p.name v)
    (scalar : v.scalarText? = some text) : PieceBecomes b (.placeholder p) text.toList

/-- What the pieces of a longer string become. -/
inductive PiecesBecome (b : Bindings) : List Piece → List Char → Prop where
  | nil : PiecesBecome b [] []
  | cons {piece : Piece} {parts : List Piece} {first rest : List Char}
    (head : PieceBecomes b piece first) (tail : PiecesBecome b parts rest) :
    PiecesBecome b (piece :: parts) (first ++ rest)

/-- What a string becomes. -/
inductive TextBecomes (b : Bindings) : String → Value → Prop where
  | whole {s : String} {p : Placeholder} {v : Value} (proper : p.IsProper)
    (only : s.toList = p.written) (stands : StandsFor b p.name v) : TextBecomes b s v
  | unresolved {s : String} {p : Placeholder} (proper : p.IsProper) (only : s.toList = p.written)
    (free : ∀ v, ¬ StandsFor b p.name v) : TextBecomes b s (.string s)
  | within {s : String} {parts : List Piece} {text : List Char}
    (more : ∀ p : Placeholder, p.IsProper → s.toList ≠ p.written) (covers : Covers parts s.toList)
    (become : PiecesBecome b parts text) : TextBecomes b s (.string (String.ofList text))

/-- What a key becomes: nothing but strings change. -/
inductive KeyBecomes (b : Bindings) : Value → Value → Prop where
  | string {s : String} {k : Value} (become : TextBecomes b s k) : KeyBecomes b (.string s) k
  | other {k : Value} (other : ∀ s, k ≠ .string s) : KeyBecomes b k k

mutual

/-- What a tree becomes. -/
inductive Becomes (b : Bindings) : Value → Value → Prop where
  | null : Becomes b .null .null
  | bool (x : Bool) : Becomes b (.bool x) (.bool x)
  | int (n : Int) : Becomes b (.int n) (.int n)
  | float (x : Number.Double) : Becomes b (.float x) (.float x)
  | string {s : String} {v : Value} (become : TextBecomes b s v) : Becomes b (.string s) v
  | seq {items last : List Value} (become : ItemsBecome b items last) :
    Becomes b (.seq items) (.seq last)
  | map {entries last : List (Value × Value)} (become : EntriesBecome b entries last) :
    Becomes b (.map entries) (.map (Value.insertAll last))
  | tagged {tag : String} {content last : Value} (become : Becomes b content last) :
    Becomes b (.tagged tag content) (.tagged tag last)

/-- What the items of a sequence become, each by itself. -/
inductive ItemsBecome (b : Bindings) : List Value → List Value → Prop where
  | nil : ItemsBecome b [] []
  | cons {v last : Value} {items lasts : List Value} (head : Becomes b v last)
    (tail : ItemsBecome b items lasts) : ItemsBecome b (v :: items) (last :: lasts)

/-- What the entries of a mapping become, before they are put together: each key and each value by itself.
    -/
inductive EntriesBecome (b : Bindings) :
    List (Value × Value) → List (Value × Value) → Prop where
  | nil : EntriesBecome b [] []
  | cons {k key v last : Value} {entries lasts : List (Value × Value)} (name : KeyBecomes b k key)
    (value : Becomes b v last) (tail : EntriesBecome b entries lasts) :
    EntriesBecome b ((k, v) :: entries) ((key, last) :: lasts)

end

/-- The keys of a mapping may become the same one.  It then stands where it comes up first, and the last
    value that comes up for it is bound to it. -/
theorem Becomes.exists_of_map {b : Bindings} {entries : List (Value × Value)} {last : Value}
    (become : Becomes b (.map entries) last) :
    ∃ all bound, last = .map bound ∧ EntriesBecome b entries all ∧
      bound.map (·.1) = (all.map (·.1)).eraseDupsBy (fun key old => old.same key) ∧
      ∀ key, key.IsScalar → Value.lookup? key bound = Value.lookup? key all.reverse := by
  cases become with
  | @map _ all become =>
    exact ⟨all, Value.insertAll all, rfl, become, Value.keys_insertAll all,
      fun key scalar => Value.lookup?_insertAll scalar all⟩

/-! ## Strings -/

namespace Interpolation

variable {b : Bindings} {usage : Usage} {s : String}

/-- Whatever has been used so far, a piece has the text that it becomes, and none if its value has no text.
    -/
theorem pieceText_eq_ok_iff {piece : Piece} {text : List Char} :
    (pieceText b usage piece).1 = .ok text ↔ PieceBecomes b piece text := by
  cases piece with
  | char c =>
    constructor
    · intro done
      obtain rfl := Except.ok.inj done
      exact .char c
    · rintro ⟨⟩
      rfl
  | placeholder p =>
    rw [pieceText]
    -- a name that stands for something is replaced by its text, and any other one is kept
    rcases resolve_cases b usage p.name with ⟨v, after, found, stands⟩ | ⟨after, found, free⟩
    · rw [found]
      dsimp only
      constructor
      · intro done
        split at done
        · next text scalar =>
          obtain rfl := Except.ok.inj done
          exact .replaced stands scalar
        · nomatch done
      · intro becomes
        cases becomes with
        | kept free => exact absurd stands (free v)
        | replaced stands_also scalar =>
          obtain rfl := standsFor_unique stands stands_also
          rw [scalar]
    · rw [found]
      constructor
      · intro done
        obtain rfl := Except.ok.inj done
        exact .kept free
      · intro becomes
        cases becomes with
        | kept => rfl
        | replaced stands => exact absurd stands (free _)

/-- Pieces have the texts that they become, one behind the other. -/
theorem piecesText_eq_ok_iff {parts : List Piece} {text : List Char} :
    (piecesText b usage parts).1 = .ok text ↔ PiecesBecome b parts text := by
  induction parts generalizing usage text with
  | nil =>
    constructor
    · intro done
      obtain rfl := Except.ok.inj done
      exact .nil
    · rintro ⟨⟩
      rfl
  | cons piece parts ih =>
    -- both texts are named by what is known of them, so that failures need no cases of their own
    have head : ∀ first, (pieceText b usage piece).1 = .ok first ↔ PieceBecomes b piece first :=
      fun first => pieceText_eq_ok_iff
    have tail : ∀ rest, (piecesText b (pieceText b usage piece).2 parts).1 = .ok rest ↔
        PiecesBecome b parts rest := fun rest => ih
    rw [piecesText]
    dsimp only
    generalize pieceText b usage piece = start at head tail ⊢
    generalize piecesText b start.2 parts = behind at tail ⊢
    obtain ⟨first, _⟩ := start
    obtain ⟨rest, _⟩ := behind
    constructor
    · intro done
      cases first with
      | error name => nomatch done
      | ok first =>
        cases rest with
        | error name => nomatch done
        | ok rest =>
          obtain rfl := Except.ok.inj done
          exact .cons ((head first).mp rfl) ((tail rest).mp rfl)
    · rintro (_ | ⟨first_becomes, rest_become⟩)
      obtain rfl : first = .ok _ := (head _).mpr first_becomes
      obtain rfl : rest = .ok _ := (tail _).mpr rest_become
      rfl

/-- Whatever has been used so far, a string becomes what the values of its placeholders make of it. -/
theorem text_eq_ok_iff {v : Value} : (∃ after, text b usage s = .ok (v, after)) ↔ TextBecomes b s v := by
  unfold text
  split
  · next p pieces_eq =>
    obtain ⟨proper, only⟩ := Piece.pieces_eq_singleton_iff.mp pieces_eq
    -- no other placeholder is written in the same way
    have unique : ∀ q : Placeholder, q.IsProper → s.toList = q.written → q = p := by
      intro q q_proper q_only
      have again := Piece.pieces_eq_singleton_iff.mpr ⟨q_proper, q_only⟩
      rw [pieces_eq] at again
      exact (Piece.placeholder.inj (List.cons.inj again).1).symm
    -- the whole string is one placeholder, and the value keeps its type
    rcases resolve_cases b usage p.name with ⟨w, after, found, stands⟩ | ⟨after, found, free⟩
    · rw [found]
      constructor
      · rintro ⟨_, done⟩
        obtain ⟨rfl, -⟩ := Prod.mk.inj (Except.ok.inj done)
        exact .whole proper only stands
      · intro becomes
        refine ⟨after, ?_⟩
        cases becomes with
        | whole q_proper q_only q_stands =>
          obtain rfl := unique _ q_proper q_only
          rw [standsFor_unique q_stands stands]
          rfl
        | unresolved q_proper q_only free =>
          obtain rfl := unique _ q_proper q_only
          exact absurd stands (free w)
        | within more => exact absurd only (more p proper)
    · rw [found]
      constructor
      · rintro ⟨_, done⟩
        obtain ⟨rfl, -⟩ := Prod.mk.inj (Except.ok.inj done)
        exact .unresolved proper only free
      · intro becomes
        refine ⟨after, ?_⟩
        cases becomes with
        | whole q_proper q_only q_stands =>
          obtain rfl := unique _ q_proper q_only
          exact absurd q_stands (free v)
        | unresolved => rfl
        | within more => exact absurd only (more p proper)
  · next other =>
    -- the string is longer than any placeholder in it
    have more : ∀ p : Placeholder, p.IsProper → s.toList ≠ p.written := fun p proper only =>
      other p (Piece.pieces_eq_singleton_iff.mpr ⟨proper, only⟩)
    have become : ∀ text, (piecesText b usage (Piece.pieces s.toList)).1 = .ok text ↔
        PiecesBecome b (Piece.pieces s.toList) text := fun text => piecesText_eq_ok_iff
    generalize piecesText b usage (Piece.pieces s.toList) = outcome at become ⊢
    obtain ⟨outcome, after⟩ := outcome
    constructor
    · rintro ⟨_, done⟩
      cases outcome with
      | error name => nomatch done
      | ok text =>
        obtain ⟨rfl, -⟩ := Prod.mk.inj (Except.ok.inj done)
        exact .within more (Piece.covers_pieces _) ((become text).mp rfl)
    · intro becomes
      cases becomes with
      | whole proper only => exact absurd only (more _ proper)
      | unresolved proper only => exact absurd only (more _ proper)
      | within _ covers parts_become =>
        -- the pieces of the relation are those that the search finds
        obtain rfl := covers.eq_pieces
        obtain rfl : outcome = .ok _ := (become _).mpr parts_become
        exact ⟨after, rfl⟩

/-! ## Trees -/

/-- Whatever has been used so far, a key becomes what the values make of it. -/
theorem key_eq_ok_iff {k last : Value} :
    (∃ after, key b usage k = .ok (last, after)) ↔ KeyBecomes b k last := by
  unfold key
  split
  · constructor
    · intro done
      exact .string (text_eq_ok_iff.mp done)
    · intro becomes
      cases becomes with
      | string become => exact text_eq_ok_iff.mpr become
      | other other => exact absurd rfl (other _)
  -- only strings are looked at as keys
  · next other =>
    constructor
    · rintro ⟨_, done⟩
      obtain ⟨rfl, -⟩ := Prod.mk.inj (Except.ok.inj done)
      exact .other other
    · intro becomes
      refine ⟨usage, ?_⟩
      cases becomes with
      | string => exact absurd rfl (other _)
      | other => rfl

/-- A step that changes nothing succeeds with what it was given. -/
theorem exists_ok_iff {α ε : Type} {x last : α} :
    (∃ after, (.ok (x, usage) : Except ε (α × Usage)) = .ok (last, after)) ↔ x = last := by
  constructor
  · rintro ⟨_, done⟩
    exact (Prod.mk.inj (Except.ok.inj done)).1
  · rintro rfl
    exact ⟨usage, rfl⟩

mutual

/-- Whatever has been used so far, a tree becomes what the values make of it. -/
theorem tree_eq_ok_iff (b : Bindings) : ∀ (t last : Value) (usage : Usage),
    (∃ after, tree b usage t = .ok (last, after)) ↔ Becomes b t last
  | .null, last, usage => by
    simp only [tree, exists_ok_iff]
    exact ⟨fun same => same ▸ .null, fun | .null => rfl⟩
  | .bool x, last, usage => by
    simp only [tree, exists_ok_iff]
    exact ⟨fun same => same ▸ .bool x, fun | .bool _ => rfl⟩
  | .int n, last, usage => by
    simp only [tree, exists_ok_iff]
    exact ⟨fun same => same ▸ .int n, fun | .int _ => rfl⟩
  | .float x, last, usage => by
    simp only [tree, exists_ok_iff]
    exact ⟨fun same => same ▸ .float x, fun | .float _ => rfl⟩
  | .string s, last, usage => by
    rw [tree, text_eq_ok_iff]
    exact ⟨.string, fun | .string become => become⟩
  -- collections succeed just if all that is inside does, with any use noted before it
  | .seq list, last, usage => by
    have inside := fun lasts => items_eq_ok_iff b list lasts usage
    rw [tree]
    generalize items b usage list = outcome at inside ⊢
    constructor
    · rintro ⟨after, done⟩
      cases outcome with
      | error e => nomatch done
      | ok found =>
        obtain ⟨rfl, rfl⟩ := Prod.mk.inj (Except.ok.inj done)
        exact .seq ((inside found.1).mp ⟨found.2, rfl⟩)
    · rintro (_ | _ | _ | _ | _ | become)
      obtain ⟨after, rfl⟩ := (inside _).mpr become
      exact ⟨after, rfl⟩
  | .map list, last, usage => by
    have inside := fun lasts => entries_eq_ok_iff b list lasts usage
    rw [tree]
    generalize entries b usage list = outcome at inside ⊢
    constructor
    · rintro ⟨after, done⟩
      cases outcome with
      | error e => nomatch done
      | ok found =>
        obtain ⟨rfl, rfl⟩ := Prod.mk.inj (Except.ok.inj done)
        exact .map ((inside found.1).mp ⟨found.2, rfl⟩)
    · rintro (_ | _ | _ | _ | _ | _ | become)
      obtain ⟨after, rfl⟩ := (inside _).mpr become
      exact ⟨after, rfl⟩
  | .tagged tag content, last, usage => by
    have inside := fun last => tree_eq_ok_iff b content last usage
    rw [tree]
    generalize tree b usage content = outcome at inside ⊢
    constructor
    · rintro ⟨after, done⟩
      cases outcome with
      | error e => nomatch done
      | ok found =>
        obtain ⟨rfl, rfl⟩ := Prod.mk.inj (Except.ok.inj done)
        exact .tagged ((inside found.1).mp ⟨found.2, rfl⟩)
    · rintro (_ | _ | _ | _ | _ | _ | _ | become)
      obtain ⟨after, rfl⟩ := (inside _).mpr become
      exact ⟨after, rfl⟩

/-- The items of a sequence become what the values make of each of them. -/
theorem items_eq_ok_iff (b : Bindings) : ∀ (list lasts : List Value) (usage : Usage),
    (∃ after, items b usage list = .ok (lasts, after)) ↔ ItemsBecome b list lasts
  | [], lasts, usage => by
    rw [items, exists_ok_iff]
    exact ⟨fun same => same ▸ .nil, fun | .nil => rfl⟩
  | v :: rest, lasts, usage => by
    have head := fun last => tree_eq_ok_iff b v last usage
    have tail := fun lasts usage => items_eq_ok_iff b rest lasts usage
    rw [items]
    -- the first item may fail, and so may the others behind it
    generalize tree b usage v = outcome at head ⊢
    constructor
    · rintro ⟨after, done⟩
      cases outcome with
      | error e => nomatch done
      | ok found =>
        dsimp only at done
        split at done
        · nomatch done
        · next others behind =>
          obtain ⟨rfl, rfl⟩ := Prod.mk.inj (Except.ok.inj done)
          exact .cons ((head found.1).mp ⟨found.2, rfl⟩) ((tail _ _).mp ⟨_, behind⟩)
    · rintro (_ | ⟨first, others⟩)
      obtain ⟨middle, rfl⟩ := (head _).mpr first
      obtain ⟨after, behind⟩ := (tail _ middle).mpr others
      dsimp only
      rw [behind]
      exact ⟨after, rfl⟩

/-- The entries of a mapping become what the values make of each of them, as a list. -/
theorem entries_eq_ok_iff (b : Bindings) : ∀ (list lasts : List (Value × Value)) (usage : Usage),
    (∃ after, entries b usage list = .ok (lasts, after)) ↔ EntriesBecome b list lasts
  | [], lasts, usage => by
    rw [entries, exists_ok_iff]
    exact ⟨fun same => same ▸ .nil, fun | .nil => rfl⟩
  | (k, v) :: rest, lasts, usage => by
    have name := fun last => @key_eq_ok_iff b usage k last
    have value := fun last usage => tree_eq_ok_iff b v last usage
    have tail := fun lasts usage => entries_eq_ok_iff b rest lasts usage
    rw [entries]
    -- the key, the value and the other entries come one behind the other, and each may fail
    generalize key b usage k = outcome at name ⊢
    constructor
    · rintro ⟨after, done⟩
      cases outcome with
      | error e => nomatch done
      | ok found =>
        dsimp only at done
        split at done
        · nomatch done
        · next last middle valued =>
          split at done
          · nomatch done
          · next others behind =>
            obtain ⟨rfl, rfl⟩ := Prod.mk.inj (Except.ok.inj done)
            exact .cons ((name found.1).mp ⟨found.2, rfl⟩) ((value _ _).mp ⟨_, valued⟩)
              ((tail _ _).mp ⟨_, behind⟩)
    · rintro (_ | ⟨first, second, others⟩)
      obtain ⟨start, rfl⟩ := (name _).mpr first
      obtain ⟨middle, valued⟩ := (value _ start).mpr second
      obtain ⟨after, behind⟩ := (tail _ middle).mpr others
      dsimp only
      rw [valued]
      dsimp only
      rw [behind]
      exact ⟨after, rfl⟩

end

end Interpolation

/-- Where nothing is expected of the variables, values can be put into a tree just if it becomes
    something, and that is what it becomes. -/
theorem interpolateChecked_eq_ok_iff {b : Bindings} {t last : Value} :
    interpolateChecked b ⟨false, false⟩ t = .ok last ↔ Becomes b t last := by
  rw [← Interpolation.tree_eq_ok_iff b t last .none]
  unfold interpolateChecked interpolate
  constructor
  · intro done
    split at done
    · nomatch done
    · next found after put =>
      obtain rfl : found = last := by simpa using done
      exact ⟨after, put⟩
  · rintro ⟨after, put⟩
    rw [put]
    rfl

end DeployManifest
