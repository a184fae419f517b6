import DeployManifest.Proofs.CanonicalForm
import DeployManifest.Proofs.Missing
import DeployManifest.Proofs.Outcome
import DeployManifest.Proofs.Substitution

/-!
# Entries that are kept

Keys take part in the putting in of values, and the entries of a mapping are inserted again under what their
keys have become.  Where two keys become the same (`Meet`) the later entry overwrites the earlier one, and
the mapping has fewer entries than before.

`Keeps` says of a tree and what it has become that nothing is lost: each mapping has as many entries as
before, and among them, for every old entry, the one that its key and its value have become.  Trees keep
their entries just if no two keys of a mapping meet (`KeysStayApart`).

Main statement: `keeps_iff_keysStayApart`.

- `length_insertAll_eq_iff`: a list of entries is kept just if no two keys are the same.
- `Meet`, `KeysStayApart`: keys that become the same, and mappings without such keys.
- `Keeps`: trees that lose nothing.
-/

namespace DeployManifest

open Yaml (Value Entries)
open Yaml.Value (EachMapping EachMappingOfItems EachMappingOfEntries)

/-! ## Inserting entries -/

namespace Yaml.Value

variable {key value : Value} {entries : Entries}

/-- Binding a key makes a mapping longer by one entry at most. -/
theorem length_insert_le (key value : Value) (entries : Entries) :
    (insert key value entries).length ≤ entries.length + 1 := by
  induction entries with
  | nil => exact Nat.le_refl _
  | cons first rest ih =>
    obtain ⟨k, v⟩ := first
    unfold insert
    split
    · exact Nat.le_succ _
    · exact Nat.succ_le_succ ih

/-- A key that is bound already makes no new entry. -/
theorem length_insert_of_bound {e : Value × Value} (mem : e ∈ entries) (bound : e.1.same key = true) :
    (insert key value entries).length = entries.length := by
  induction entries with
  | nil => nomatch mem
  | cons first rest ih =>
    obtain ⟨k, v⟩ := first
    unfold insert
    split
    · rfl
    · next differs =>
      rcases List.mem_cons.mp mem with rfl | later
      · exact absurd bound differs
      · exact congrArg Nat.succ (ih later)

/-- Putting entries in one after another makes at most as many. -/
theorem length_insertAll_le (entries : Entries) : (insertAll entries).length ≤ entries.length := by
  induction entries using List.reverseRecOn with
  | nil => exact Nat.le_refl _
  | append_singleton entries last ih =>
    have step := length_insert_le last.1 last.2 (insertAll entries)
    rw [insertAll_concat, List.length_append, List.length_singleton]
    omega

/-- No entry is lost just if no two keys are the same. -/
theorem length_insertAll_eq_iff :
    (insertAll entries).length = entries.length ↔ entries.Pairwise fun a b => a.1.same b.1 = false := by
  constructor
  · intro all
    induction entries using List.reverseRecOn with
    | nil => exact .nil
    | append_singleton entries last ih =>
      rw [insertAll_concat, List.length_append, List.length_singleton] at all
      have most := length_insertAll_le entries
      have step := length_insert_le last.1 last.2 (insertAll entries)
      have distinct := ih (by omega)
      rw [insertAll_eq_self distinct] at all
      refine List.pairwise_append.mpr ⟨distinct, List.pairwise_singleton _ _, fun e mem other is_last => ?_⟩
      rw [List.mem_singleton.mp is_last, Bool.eq_false_iff]
      -- overwriting an entry, the last one would not make the mapping longer
      intro bound
      have stays : (insert last.1 last.2 entries).length = entries.length := length_insert_of_bound mem bound
      omega
  · intro distinct
    rw [insertAll_eq_self distinct]

end Yaml.Value

/-- A relation of the items of one list is one of those of another list, if the items are related one by
    one. -/
theorem pairwise_iff_of_forall₂ {α β : Type} {related : α → β → Prop} {P : α → α → Prop} {Q : β → β → Prop}
    {items : List α} {found : List β} (all : List.Forall₂ related items found)
    (agree : ∀ x y x' y', related x x' → related y y' → (P x y ↔ Q x' y')) :
    items.Pairwise P ↔ found.Pairwise Q := by
  induction all with
  | nil => exact ⟨fun _ => .nil, fun _ => .nil⟩
  | cons here rest ih =>
    rw [List.pairwise_cons, List.pairwise_cons, ih]
    refine and_congr_left fun _ => ⟨fun each y' mem => ?_, fun each y mem => ?_⟩
    · obtain ⟨y, mem, there⟩ := exists_of_mem_right rest mem
      exact (agree _ _ _ _ here there).mp (each y mem)
    · obtain ⟨y', mem, there⟩ := exists_of_mem_left rest mem
      exact (agree _ _ _ _ here there).mpr (each y' mem)

/-! ## Keys that become the same -/

variable {b : Bindings}

/-- Whether two keys become the same one. -/
def Meet (b : Bindings) (k l : Value) : Prop :=
  ∃ key other, KeyBecomes b k key ∧ KeyBecomes b l other ∧ key.same other = true

/-- Whether no two keys of a mapping become the same one. -/
def KeysStayApart (b : Bindings) (entries : Entries) : Prop := entries.Pairwise fun e f => ¬ Meet b e.1 f.1

/-- A key becomes one key only. -/
theorem KeyBecomes.unique {k key other : Value} (first : KeyBecomes b k key) (second : KeyBecomes b k other) :
    key = other := by
  obtain ⟨_, found⟩ := (@Interpolation.key_eq_ok_iff b .none k key).mpr first
  obtain ⟨_, found_too⟩ := (@Interpolation.key_eq_ok_iff b .none k other).mpr second
  exact (Prod.mk.inj (Except.ok.inj (found.symm.trans found_too))).1

/-- Two keys meet just if what they become is the same. -/
theorem meet_iff {k l key other : Value} (first : KeyBecomes b k key) (second : KeyBecomes b l other) :
    Meet b k l ↔ key.same other = true := by
  constructor
  · rintro ⟨key', other', first', second', same⟩
    rwa [first.unique first', second.unique second']
  · intro same
    exact ⟨key, other, first, second, same⟩

/-- The entries of a mapping become others one by one. -/
theorem EntriesBecome.forall₂ {list lasts : List (Value × Value)} (become : EntriesBecome b list lasts) :
    List.Forall₂ (fun e f => KeyBecomes b e.1 f.1 ∧ Becomes b e.2 f.2) list lasts := by
  induction list generalizing lasts with
  | nil =>
    cases become with
    | nil => exact .nil
  | cons first rest ih =>
    cases become with
    | cons name value tail => exact .cons ⟨name, value⟩ (ih tail)

/-- The keys of a mapping stay apart just if its entries are inserted again under distinct keys. -/
theorem keysStayApart_iff {list lasts : List (Value × Value)} (become : EntriesBecome b list lasts) :
    KeysStayApart b list ↔ lasts.Pairwise fun e f => e.1.same f.1 = false := by
  refine pairwise_iff_of_forall₂ become.forall₂ fun e f e' f' ⟨first, _⟩ ⟨second, _⟩ => ?_
  rw [meet_iff first second, Bool.not_eq_true]

/-! ## Trees that keep their entries -/

mutual

/-- Whether a tree has kept all its entries: each mapping of the first tree, those within keys apart, stands
    for a mapping of the second one that has as many entries, and has what each of the entries becomes. -/
inductive Keeps (b : Bindings) : Value → Value → Prop where
  | scalar {t last : Value} (scalar : t.IsScalar) : Keeps b t last
  | seq {items lasts : List Value} (each : KeepsItems b items lasts) : Keeps b (.seq items) (.seq lasts)
  | map {entries lasts : Entries} (size : lasts.length = entries.length)
    (each : KeepsEntries b entries lasts) : Keeps b (.map entries) (.map lasts)
  | tagged {tag : String} {content last : Value} (inside : Keeps b content last) :
    Keeps b (.tagged tag content) (.tagged tag last)

/-- Nothing is lost of the items of a sequence. -/
inductive KeepsItems (b : Bindings) : List Value → List Value → Prop where
  | nil : KeepsItems b [] []
  | cons {v last : Value} {items lasts : List Value} (head : Keeps b v last)
    (tail : KeepsItems b items lasts) : KeepsItems b (v :: items) (last :: lasts)

/-- Whether some entries are all kept among others. -/
inductive KeepsEntries (b : Bindings) : List (Value × Value) → List (Value × Value) → Prop where
  | nil {lasts : List (Value × Value)} : KeepsEntries b [] lasts
  | cons {k key v last : Value} {entries lasts : List (Value × Value)} (name : KeyBecomes b k key)
    (value : Becomes b v last) (there : (key, last) ∈ lasts) (inside : Keeps b v last)
    (tail : KeepsEntries b entries lasts) : KeepsEntries b ((k, v) :: entries) lasts

end

mutual

/-- Where no keys meet, all entries are kept. -/
theorem Becomes.keeps : ∀ {t last : Value}, Becomes b t last → EachMapping (KeysStayApart b) t → Keeps b t last
  | .null, _, _, _ => .scalar .null
  | .bool x, _, _, _ => .scalar (.bool x)
  | .int n, _, _, _ => .scalar (.int n)
  | .float x, _, _, _ => .scalar (.float x)
  | .string s, _, _, _ => .scalar (.string s)
  | .seq _, _, .seq become, apart => .seq (ItemsBecome.keeps become apart)
  | .map _, _, .map become, apart => by
    -- entries with distinct keys are inserted one behind the other
    rw [Value.insertAll_eq_self ((keysStayApart_iff become).mp apart.1)]
    exact .map become.forall₂.length_eq.symm (EntriesBecome.keeps become apart.2 fun _ mem => mem)
  | .tagged _ _, _, .tagged become, apart => .tagged (Becomes.keeps become apart)

/-- The same for the items of a sequence. -/
theorem ItemsBecome.keeps : ∀ {items lasts : List Value}, ItemsBecome b items lasts →
    EachMappingOfItems (KeysStayApart b) items → KeepsItems b items lasts
  | [], _, .nil, _ => .nil
  | _ :: _, _, .cons head tail, apart =>
    .cons (Becomes.keeps head apart.1) (ItemsBecome.keeps tail apart.2)

/-- The same for the entries of a mapping, which are found among all that the mapping becomes. -/
theorem EntriesBecome.keeps : ∀ {entries lasts all : List (Value × Value)}, EntriesBecome b entries lasts →
    EachMappingOfEntries (KeysStayApart b) entries → (∀ e ∈ lasts, e ∈ all) → KeepsEntries b entries all
  | [], _, _, .nil, _, _ => .nil
  | (_, _) :: _, _, _, .cons name value tail, apart, sub =>
    .cons name value (sub _ List.mem_cons_self) (Becomes.keeps value apart.1)
      (EntriesBecome.keeps tail apart.2 fun e mem => sub e (List.mem_cons_of_mem _ mem))

end

mutual

/-- Where all entries are kept, no keys meet. -/
theorem Keeps.keysStayApart : ∀ {t last : Value}, Keeps b t last → Becomes b t last →
    EachMapping (KeysStayApart b) t
  | .null, _, _, _ | .bool _, _, _, _ | .int _, _, _, _ | .float _, _, _, _ | .string _, _, _, _ => trivial
  | .seq _, _, .seq each, .seq become => KeepsItems.keysStayApart each become
  | .map _, _, keeps, .map become => by
    cases keeps with
    | scalar scalar => nomatch scalar
    | map size each =>
      refine ⟨(keysStayApart_iff become).mpr ?_, KeepsEntries.keysStayApart each⟩
      rw [← Value.length_insertAll_eq_iff, size, become.forall₂.length_eq]
  | .tagged _ content, _, .tagged inside, .tagged become =>
    have within : EachMapping (KeysStayApart b) content := Keeps.keysStayApart inside become
    within

/-- The same for the items of a sequence. -/
theorem KeepsItems.keysStayApart : ∀ {items lasts : List Value}, KeepsItems b items lasts →
    ItemsBecome b items lasts → EachMappingOfItems (KeysStayApart b) items
  | [], _, _, _ => trivial
  | _ :: _, _, .cons head tail, .cons first rest =>
    ⟨Keeps.keysStayApart head first, KeepsItems.keysStayApart tail rest⟩

/-- The same for the values of a mapping. -/
theorem KeepsEntries.keysStayApart : ∀ {entries lasts : List (Value × Value)}, KeepsEntries b entries lasts →
    EachMappingOfEntries (KeysStayApart b) entries
  | [], _, _ => trivial
  | (_, _) :: _, _, .cons _ value _ inside tail =>
    ⟨Keeps.keysStayApart inside value, KeepsEntries.keysStayApart tail⟩

end

/-- When values are put into a tree, all its entries are kept just if no two keys of a mapping, those within
    keys apart, become the same. -/
theorem keeps_iff_keysStayApart {options : EvaluateOptions} {t last : Value}
    (put : interpolateChecked b options t = .ok last) :
    Keeps b t last ↔ EachMapping (KeysStayApart b) t := by
  obtain ⟨usage, put, -, -⟩ := interpolateChecked_eq_ok.mp put
  have become : Becomes b t last := (Interpolation.tree_eq_ok_iff b t last .none).mp ⟨usage, put⟩
  exact ⟨fun keeps => keeps.keysStayApart become, become.keeps⟩

/-! ## Keys that meet -/

/-- Keys that become different ones do not meet. -/
theorem not_meet_of_key {k l key other : Value} {usage usage' : Usage}
    (first : Interpolation.key b .none k = .ok (key, usage))
    (second : Interpolation.key b .none l = .ok (other, usage')) (differ : key.same other = false) :
    ¬ Meet b k l := by
  rw [meet_iff (Interpolation.key_eq_ok_iff.mp ⟨_, first⟩) (Interpolation.key_eq_ok_iff.mp ⟨_, second⟩), differ]
  exact Bool.false_ne_true

/-- Two mappings, one within the other, that both have a key. -/
def keyedTree (key : String) : Value :=
  .map [(.string key, .int 1), (.string "y", .seq [.map [(.string "z", .null), (.string key, .null)]])]

/-- The key `((a))` becomes `x` in both mappings, where there is no other `x`. -/
theorem keeps_iff_keysStayApart_nested :
    interpolateChecked [.single "a" (.string "x")] ⟨true, true⟩ (keyedTree "((a))") = .ok (keyedTree "x") ∧
      Keeps [.single "a" (.string "x")] (keyedTree "((a))") (keyedTree "x") := by
  have put : interpolateChecked [.single "a" (.string "x")] ⟨true, true⟩ (keyedTree "((a))") =
      .ok (keyedTree "x") := rfl
  refine ⟨put, (keeps_iff_keysStayApart put).mpr ⟨?_, trivial, ⟨⟨?_, trivial, trivial, trivial⟩, trivial⟩, trivial⟩⟩
  · exact List.pairwise_pair.mpr (not_meet_of_key rfl rfl (by decide))
  · exact List.pairwise_pair.mpr (not_meet_of_key rfl rfl (by decide))

/-- The key `((a))` becomes `x`, and its entry gives way to the one that has been called `x` before. -/
theorem not_forall_keeps :
    ¬ ∀ (b : Bindings) (options : EvaluateOptions) (t last : Value),
      interpolateChecked b options t = .ok last → Keeps b t last := by
  intro all
  have put : interpolateChecked [.single "a" (.string "x")] ⟨false, false⟩
      (.map [(.string "((a))", .int 1), (.string "x", .int 2)]) = .ok (.map [(.string "x", .int 2)]) := rfl
  cases all _ _ _ _ put with
  | scalar scalar => nomatch scalar
  | map size => nomatch size

end DeployManifest
