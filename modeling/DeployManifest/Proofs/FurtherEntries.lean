import DeployManifest.Proofs.Marking
import DeployManifest.Proofs.PlaceholderEchoes

/-!
# Trees with further entries

A tree is extended if entries are put into its mappings.  The entries that come in are quiet: their
strings are too short to be given anchors, and hold no placeholders but known ones (`IsQuiet`).  A quiet
string may also take the place of a string without placeholders.

Sorting and marking treat the other entries as if there were no quiet ones: both commute with leaving
entries out (`filter_sortEntries`, `filter_markEntries`).  So they take an extended tree to an extension
(`Extends.sorted`, `Extends.mark`).

- `IsQuiet`, `IsQuietBesides`: trees and entries that may come in unnoticed.
- `Extends`, `ExtendsEntries`: trees with further entries, and entries with extended values.
- `isKept`: the entries of a mapping that were there before.
-/

namespace DeployManifest.Yaml.Value

variable {p : Placeholder} {known : Placeholder → Prop} {v w : Value} {kept : String → Bool}
  {entries others : Entries}

/-! ## Quiet entries -/

/-- Whether all keys are strings. -/
def HasStringKeys (entries : Entries) : Prop := ∀ e ∈ entries, ∃ s, e.1 = .string s

theorem hasStringKeys_cons {e : Value × Value} :
    HasStringKeys (e :: entries) ↔ (∃ s, e.1 = .string s) ∧ HasStringKeys entries := List.forall_mem_cons

theorem hasStringKeys_concat {e : Value × Value} :
    HasStringKeys (entries ++ [e]) ↔ HasStringKeys entries ∧ ∃ s, e.1 = .string s := by
  unfold HasStringKeys
  rw [List.forall_mem_append, List.forall_mem_singleton]

/-- Whether a key is a string without placeholders that are not known. -/
def IsQuietKey (known : Placeholder → Prop) (key : Value) : Prop :=
  ∃ s, key = .string s ∧ ∀ p, p.StandsIn s.toList → known p

/-- Whether a tree consists of mappings and of strings that are given no anchors, and holds no
    placeholder that is not known. -/
inductive IsQuiet (known : Placeholder → Prop) : Value → Prop where
  | string {s : String} (short : s.utf8ByteSize ≤ Anchors.minSize)
    (heard : ∀ p, p.StandsIn s.toList → known p) : IsQuiet known (.string s)
  | map {entries : Entries} (keys : ∀ e ∈ entries, IsQuietKey known e.1)
    (values : ∀ e ∈ entries, IsQuiet known e.2) : IsQuiet known (.map entries)

/-- Whether an entry is one of those that are kept. -/
def isKept (kept : String → Bool) (e : Value × Value) : Bool :=
  match e.1 with
  | .string s => kept s
  | _ => true

/-- Whether all keys are strings and the entries that are not kept are quiet. -/
structure IsQuietBesides (kept : String → Bool) (known : Placeholder → Prop) (entries : Entries) :
    Prop where
  strings : HasStringKeys entries
  keys : ∀ e ∈ entries, isKept kept e = false → IsQuietKey known e.1
  values : ∀ e ∈ entries, isKept kept e = false → IsQuiet known e.2

theorem IsQuietBesides.of_mem (quiet : IsQuietBesides kept known entries)
    (sub : ∀ e ∈ others, e ∈ entries) : IsQuietBesides kept known others :=
  ⟨fun e mem => quiet.strings e (sub e mem), fun e mem => quiet.keys e (sub e mem),
    fun e mem => quiet.values e (sub e mem)⟩

/-- Entries are quiet, the first one and the others, or kept. -/
theorem IsQuietBesides.cons {e : Value × Value} (string : ∃ s, e.1 = .string s)
    (here : isKept kept e = false → IsQuietKey known e.1 ∧ IsQuiet known e.2)
    (quiet : IsQuietBesides kept known entries) : IsQuietBesides kept known (e :: entries) :=
  ⟨hasStringKeys_cons.mpr ⟨string, quiet.strings⟩,
    List.forall_mem_cons.mpr ⟨fun left => (here left).1, quiet.keys⟩,
    List.forall_mem_cons.mpr ⟨fun left => (here left).2, quiet.values⟩⟩

mutual

/-- Whether the second tree is the first with quiet entries put into its mappings, and perhaps quiet
    strings in place of strings without placeholders.  Keys that may be marks are kept. -/
inductive Extends (known : Placeholder → Prop) : Value → Value → Prop where
  | refl (v : Value) : Extends known v v
  | string {s t : String} (short : s.utf8ByteSize ≤ Anchors.minSize) (silent : '(' ∉ s.toList)
    (quiet : IsQuiet known (.string t)) : Extends known (.string s) (.string t)
  | seq {items others : List Value} (each : ExtendsItems known items others) :
    Extends known (.seq items) (.seq others)
  | map {entries others : Entries} (kept : String → Bool)
    (marks : ∀ s : String, '=' ∈ s.toList → kept s = true)
    (quiet : IsQuietBesides kept known others)
    (each : ExtendsEntries known entries (others.filter (isKept kept))) :
    Extends known (.map entries) (.map others)

/-- Items of which the later ones extend the earlier ones, one by one. -/
inductive ExtendsItems (known : Placeholder → Prop) : List Value → List Value → Prop where
  | nil : ExtendsItems known [] []
  | cons {v w : Value} {items others : List Value} (first : Extends known v w)
    (rest : ExtendsItems known items others) : ExtendsItems known (v :: items) (w :: others)

/-- Entries under the same keys in the same order, whose values are extended one by one. -/
inductive ExtendsEntries (known : Placeholder → Prop) :
    List (Value × Value) → List (Value × Value) → Prop where
  | nil : ExtendsEntries known [] []
  | cons {v w : Value} {entries others : List (Value × Value)} (key : Value) (first : Extends known v w)
    (rest : ExtendsEntries known entries others) :
    ExtendsEntries known ((key, v) :: entries) ((key, w) :: others)

end

/-- The keys of the entries stay as they are. -/
theorem ExtendsEntries.strings (each : ExtendsEntries known entries others)
    (strings : HasStringKeys others) : HasStringKeys entries := by
  induction entries generalizing others with
  | nil => exact nofun
  | cons e rest ih =>
    obtain - | ⟨key, _, later⟩ := each
    rw [hasStringKeys_cons] at strings ⊢
    exact ⟨strings.1, ih later strings.2⟩

theorem ExtendsEntries.refl (entries : List (Value × Value)) : ExtendsEntries known entries entries := by
  induction entries with
  | nil => exact .nil
  | cons e rest ih => exact .cons e.1 (.refl e.2) ih

/-- Entries that are extended in two parts are extended together. -/
theorem ExtendsEntries.append {entries others more more' : Entries}
    (first : ExtendsEntries known entries others) (second : ExtendsEntries known more more') :
    ExtendsEntries known (entries ++ more) (others ++ more') := by
  induction entries generalizing others with
  | nil =>
    cases first
    exact second
  | cons e rest ih =>
    obtain - | ⟨key, here, later⟩ := first
    exact .cons key here (ih later)

/-! ## Entries that are left out -/

/-- Leaving entries out before or behind an insertion in order makes no difference. -/
theorem filter_insertSorted (keep : Value × Value → Bool) (e : Value × Value)
    (ordered : entries.Pairwise MayPrecede) :
    (insertSorted e entries).filter keep =
      if keep e then insertSorted e (entries.filter keep) else entries.filter keep := by
  induction entries with
  | nil => cases here : keep e <;> simp [insertSorted, here]
  | cons first rest ih =>
    have ⟨above, ordered_rest⟩ := List.pairwise_cons.mp ordered
    by_cases may : precedes (rank first.1) (rank e.1) = true
    · have passes : ∀ more, insertSorted e (first :: more) = first :: insertSorted e more :=
        fun more => if_pos may
      rw [passes, List.filter_cons, ih ordered_rest, List.filter_cons]
      cases first_kept : keep first <;> cases here : keep e <;> simp [passes]
    · -- nothing that is left behind the entry may stand in front of it
      have stays : ∀ more, (∀ f ∈ more, f ∈ first :: rest) → insertSorted e more = e :: more := by
        intro more sub
        cases more with
        | nil => rfl
        | cons f more =>
          refine if_neg fun before => may ?_
          rcases List.mem_cons.mp (sub f List.mem_cons_self) with rfl | mem
          · exact before
          · exact precedes_trans (above f mem) before
      rw [stays _ fun f mem => mem, stays _ fun f mem => List.mem_of_mem_filter mem, List.filter_cons]

/-- Neither does it before or behind sorting. -/
theorem filter_sortEntries (keep : Value × Value → Bool) (entries : Entries) :
    (sortEntries entries).filter keep = sortEntries (entries.filter keep) := by
  have from_sorted : ∀ (entries sorted : Entries), sorted.Pairwise MayPrecede →
      (entries.foldl (fun sorted e => insertSorted e sorted) sorted).filter keep =
        (entries.filter keep).foldl (fun sorted e => insertSorted e sorted) (sorted.filter keep) := by
    intro entries
    induction entries with
    | nil => exact fun _ _ => rfl
    | cons e rest ih =>
      intro sorted ordered
      rw [List.foldl_cons, ih _ (pairwise_insertSorted ordered), filter_insertSorted keep e ordered]
      cases here : keep e <;> simp [here]
  exact from_sorted entries [] .nil

/-- Binding a name brings in nothing but its new entry. -/
theorem mem_insert_string {s : String} {e : Value × Value} (mem : e ∈ insert (.string s) v entries) :
    e = (.string s, v) ∨ e ∈ entries := by
  induction entries with
  | nil => exact .inl (List.mem_singleton.mp mem)
  | cons first rest ih =>
    unfold insert at mem
    split at mem
    · next same =>
      rw [same_string_iff.mp same] at mem
      exact (List.mem_cons.mp mem).imp_right (List.mem_cons_of_mem first)
    · rcases List.mem_cons.mp mem with rfl | mem
      · exact .inr List.mem_cons_self
      · exact (ih mem).imp_right (List.mem_cons_of_mem first)

/-- Leaving entries out before or behind the binding of a name makes no difference. -/
theorem filter_insert_string {s : String} :
    (insert (.string s) v entries).filter (isKept kept) =
      if kept s then insert (.string s) v (entries.filter (isKept kept))
      else entries.filter (isKept kept) := by
  induction entries with
  | nil => cases here : kept s <;> simp [insert, isKept, here]
  | cons first rest ih =>
    obtain ⟨key, value⟩ := first
    by_cases same : key.same (.string s) = true
    · obtain rfl := same_string_iff.mp same
      have replaced : ∀ more, insert (.string s) v ((.string s, value) :: more) = (.string s, v) :: more :=
        fun more => if_pos same
      rw [replaced]
      cases here : kept s <;> simp [isKept, here, replaced]
    -- an entry with another key stays in front, whether it is kept or not
    · have passes : ∀ more, insert (.string s) v ((key, value) :: more) =
          (key, value) :: insert (.string s) v more := fun more => if_neg same
      rw [passes, List.filter_cons, ih, List.filter_cons]
      cases first_kept : isKept kept (key, value) <;> cases here : kept s <;> simp [passes]

/-- Inserting entries puts in nothing but them. -/
theorem mem_of_mem_insertAll (strings : HasStringKeys entries) {e : Value × Value}
    (mem : e ∈ insertAll entries) : e ∈ entries := by
  induction entries using List.reverseRecOn with
  | nil => exact mem
  | append_singleton entries last ih =>
    obtain ⟨key, value⟩ := last
    obtain ⟨before, s, rfl⟩ := hasStringKeys_concat.mp strings
    rw [insertAll_concat] at mem
    rcases mem_insert_string mem with rfl | mem
    · exact List.mem_append_right _ (List.mem_singleton_self _)
    · exact List.mem_append_left _ (ih before mem)

/-- Leaving entries out before or behind the insertion of all makes no difference. -/
theorem filter_insertAll (strings : HasStringKeys entries) :
    (insertAll entries).filter (isKept kept) = insertAll (entries.filter (isKept kept)) := by
  induction entries using List.reverseRecOn with
  | nil => rfl
  | append_singleton entries last ih =>
    obtain ⟨key, value⟩ := last
    obtain ⟨before, s, rfl⟩ := hasStringKeys_concat.mp strings
    have isKept_here : isKept kept (.string s, value) = kept s := rfl
    rw [insertAll_concat, filter_insert_string, ih before, List.filter_append]
    cases here : kept s with
    | true => rw [if_pos rfl, List.filter_singleton, isKept_here, here, cond_true, insertAll_concat]
    | false => rw [if_neg nofun, List.filter_singleton, isKept_here, here, cond_false, List.append_nil]

/-! ## Sorting -/

/-- The entries of a sorted mapping are those of the mapping, with their values sorted. -/
theorem mem_sorted_map {e : Value × Value} (strings : HasStringKeys entries)
    (mem : e ∈ insertAll (sortEntries (sortedEntries entries))) :
    ∃ f ∈ entries, (f.1, f.2.sorted) = e := by
  rw [sortedEntries_eq_map] at mem
  have sub : ∀ e ∈ sortEntries (entries.map fun e => (e.1, e.2.sorted)),
      ∃ f ∈ entries, (f.1, f.2.sorted) = e := fun e mem =>
    List.mem_map.mp ((perm_sortEntries _).mem_iff.mp mem)
  refine sub e (mem_of_mem_insertAll (fun e mem => ?_) mem)
  obtain ⟨f, there, rfl⟩ := sub e mem
  exact strings f there

/-- A quiet tree stays quiet when it is sorted. -/
theorem IsQuiet.sorted (quiet : IsQuiet known v) : IsQuiet known v.sorted := by
  induction quiet with
  | string short heard => exact .string short heard
  | map keys _ ih =>
    have strings : HasStringKeys _ := fun e mem => (keys e mem).imp fun _ => And.left
    refine .map (fun e mem => ?_) (fun e mem => ?_)
    all_goals obtain ⟨f, there, rfl⟩ := mem_sorted_map strings mem
    · exact keys f there
    · exact ih f there

/-- Entries that are quiet besides the kept ones stay so when they are sorted. -/
theorem IsQuietBesides.sorted (quiet : IsQuietBesides kept known entries) :
    IsQuietBesides kept known (insertAll (sortEntries (sortedEntries entries))) := by
  refine ⟨fun e mem => ?_, fun e mem left => ?_, fun e mem left => ?_⟩
  all_goals obtain ⟨f, there, rfl⟩ := mem_sorted_map quiet.strings mem
  · exact quiet.strings f there
  · exact quiet.keys f there left
  · exact (quiet.values f there left).sorted

/-- Leaving entries out before or behind the sorting of a mapping makes no difference. -/
theorem filter_sorted_map (strings : HasStringKeys entries) :
    (insertAll (sortEntries (sortedEntries entries))).filter (isKept kept) =
      insertAll (sortEntries (sortedEntries (entries.filter (isKept kept)))) := by
  have sorted_strings : HasStringKeys (sortEntries (sortedEntries entries)) := by
    intro e mem
    rw [sortedEntries_eq_map] at mem
    obtain ⟨f, there, rfl⟩ := List.mem_map.mp ((perm_sortEntries _).mem_iff.mp mem)
    exact strings f there
  rw [filter_insertAll sorted_strings, filter_sortEntries, sortedEntries_eq_map,
    sortedEntries_eq_map, List.filter_map]
  rfl

/-- An entry whose value is extended may be inserted in order. -/
theorem ExtendsEntries.insertSorted (each : ExtendsEntries known entries others) (key : Value)
    (first : Extends known v w) :
    ExtendsEntries known (insertSorted (key, v) entries) (insertSorted (key, w) others) := by
  induction entries generalizing others with
  | nil =>
    cases each
    exact .cons key first .nil
  | cons e rest ih =>
    obtain - | ⟨other, here, later⟩ := each
    unfold Value.insertSorted
    split
    · exact .cons other here (ih later)
    · exact .cons key first (.cons other here later)

/-- A key may be bound to a value and to its extension. -/
theorem ExtendsEntries.insert (each : ExtendsEntries known entries others) (key : Value)
    (first : Extends known v w) :
    ExtendsEntries known (key.insert v entries) (key.insert w others) := by
  induction entries generalizing others with
  | nil =>
    cases each
    exact .cons key first .nil
  | cons e rest ih =>
    obtain - | ⟨other, here, later⟩ := each
    unfold Value.insert
    split
    · exact .cons other first later
    · exact .cons other here (ih later)

/-- What each step of putting entries in keeps, putting in all of them keeps. -/
theorem ExtendsEntries.foldl {put : Value × Value → Entries → Entries}
    (step : ∀ {entries others : Entries} {v w : Value} (key : Value), ExtendsEntries known entries others →
      Extends known v w → ExtendsEntries known (put (key, v) entries) (put (key, w) others))
    (each : ExtendsEntries known entries others) :
    ExtendsEntries known (entries.foldl (fun before e => put e before) [])
      (others.foldl (fun before e => put e before) []) := by
  -- for the induction, some entries may be there already
  have onto : ∀ entries others before before' : Entries, ExtendsEntries known entries others →
      ExtendsEntries known before before' →
      ExtendsEntries known (entries.foldl (fun before e => put e before) before)
        (others.foldl (fun before e => put e before) before') := by
    intro entries
    induction entries with
    | nil =>
      intro others before before' each so_far
      cases each
      exact so_far
    | cons e rest ih =>
      intro others before before' each so_far
      obtain - | ⟨key, here, later⟩ := each
      rw [List.foldl_cons, List.foldl_cons]
      exact ih _ _ _ later (step key so_far here)
  exact onto entries others [] [] each .nil

theorem ExtendsEntries.sortEntries (each : ExtendsEntries known entries others) :
    ExtendsEntries known (sortEntries entries) (sortEntries others) :=
  each.foldl fun key so_far first => so_far.insertSorted key first

theorem ExtendsEntries.insertAll (each : ExtendsEntries known entries others) :
    ExtendsEntries known (insertAll entries) (insertAll others) :=
  each.foldl (fun key so_far first => so_far.insert key first)

mutual

/-- Sorting keeps an extension. -/
theorem Extends.sorted : ∀ {v w : Value}, Extends known v w → Extends known v.sorted w.sorted
  | _, _, .refl v => .refl v.sorted
  | _, _, .string short silent quiet => .string short silent quiet
  | _, _, .seq each => .seq each.sorted
  | _, _, .map kept marks quiet each => by
    refine .map kept marks quiet.sorted ?_
    rw [filter_sorted_map quiet.strings]
    exact each.sorted.sortEntries.insertAll

theorem ExtendsItems.sorted : ∀ {items others : List Value}, ExtendsItems known items others →
    ExtendsItems known (sortedItems items) (sortedItems others)
  | _, _, .nil => .nil
  | _, _, .cons first rest => .cons first.sorted rest.sorted

theorem ExtendsEntries.sorted : ∀ {entries others : List (Value × Value)},
    ExtendsEntries known entries others → ExtendsEntries known (sortedEntries entries) (sortedEntries others)
  | _, _, .nil => .nil
  | _, _, .cons key first rest => .cons key first.sorted rest.sorted

end

/-! ## Marks -/

open Anchors (digest? markLong)

variable {key : Value} {rest : List (Value × Value)}

/-- How an entry is marked depends on what stands in front of it only. -/
theorem markEntries_cons (anchors : Anchors) (key v : Value) : ∃ (e : Value × Value) (before : Anchors),
    ∀ rest, markEntries anchors ((key, v) :: rest) =
      (e :: (markEntries before rest).1, (markEntries before rest).2) := by
  cases long : digest? v with
  | none => exact ⟨_, _, fun rest => markEntries_of_none anchors long⟩
  | some digest => exact ⟨_, _, fun rest => markEntries_of_some anchors long⟩

theorem IsQuiet.digest?_eq_none (quiet : IsQuiet known v) : digest? v = none := by
  cases quiet with
  | string short _ => exact if_neg (Nat.not_lt.mpr short)
  | map => rfl

/-- Nothing in a quiet tree gets an anchor or refers to one. -/
theorem IsQuiet.mark (quiet : IsQuiet known v) (anchors : Anchors) :
    (v.mark anchors).2 = anchors ∧ IsQuiet known (v.mark anchors).1 := by
  induction quiet with
  | string short heard => exact ⟨rfl, .string short heard⟩
  | @map entries keys values ih =>
    -- by induction over some of the entries, as marking goes through them one by one
    have all : ∀ some_entries : Entries, (∀ e ∈ some_entries, e ∈ entries) →
        (markEntries anchors some_entries).2 = anchors ∧
        ∀ e ∈ (markEntries anchors some_entries).1, IsQuietKey known e.1 ∧ IsQuiet known e.2 := by
      intro some_entries
      induction some_entries with
      | nil => exact fun _ => ⟨rfl, nofun⟩
      | cons e rest ih_rest =>
        intro sub
        have here : e ∈ entries := sub e List.mem_cons_self
        obtain ⟨same, quiet⟩ := ih e here
        obtain ⟨rest_same, rest_quiet⟩ := ih_rest fun f mem => sub f (List.mem_cons_of_mem e mem)
        rw [markEntries_of_none anchors (values e here).digest?_eq_none, same]
        exact ⟨rest_same, List.forall_mem_cons.mpr ⟨⟨keys e here, quiet⟩, rest_quiet⟩⟩
    obtain ⟨same, quiet⟩ := all entries fun _ mem => mem
    have strings : HasStringKeys _ := fun e mem => (quiet e mem).1.imp fun _ => And.left
    have inserted := fun e => mem_of_mem_insertAll (e := e) strings
    rw [mark_map]
    exact ⟨same, .map (fun e mem => (quiet e (inserted e mem)).1) fun e mem => (quiet e (inserted e mem)).2⟩

/-- A kept key stays kept when it is marked. -/
theorem isKept_markLong (marks : ∀ s : String, '=' ∈ s.toList → kept s = true) {s : String}
    (here : kept s = true) (anchors : Anchors) (digest : String) :
    (∃ t, (markLong anchors (.string s) v digest).1.1 = .string t) ∧
      isKept kept (markLong anchors (.string s) v digest).1 = true := by
  unfold markLong
  split
  · exact ⟨⟨s, rfl⟩, here⟩
  · split
    · exact ⟨⟨_, rfl⟩, marks _ (by simp)⟩
    · exact ⟨⟨s, rfl⟩, here⟩

/-- Entries that are quiet are marked without any effect on the others. -/
theorem filter_markEntries (marks : ∀ s : String, '=' ∈ s.toList → kept s = true)
    (quiet : IsQuietBesides kept known entries) (anchors : Anchors) :
    (markEntries anchors entries).1.filter (isKept kept) =
        (markEntries anchors (entries.filter (isKept kept))).1 ∧
      (markEntries anchors entries).2 = (markEntries anchors (entries.filter (isKept kept))).2 ∧
      IsQuietBesides kept known (markEntries anchors entries).1 := by
  induction entries generalizing anchors with
  | nil => exact ⟨rfl, rfl, nofun, nofun, nofun⟩
  | cons e rest ih =>
    have ih := ih (quiet.of_mem fun f mem => List.mem_cons_of_mem e mem)
    obtain ⟨key, v⟩ := e
    obtain ⟨s, rfl⟩ := quiet.strings _ List.mem_cons_self
    -- an entry that is left out has no long string, so it defines nothing that others refer to
    cases here : isKept kept (.string s, v) with
    | false =>
      have key_here := quiet.keys _ List.mem_cons_self here
      have quiet_here := quiet.values _ List.mem_cons_self here
      obtain ⟨same, quiet_marked⟩ := quiet_here.mark anchors
      obtain ⟨filtered, same_rest, quiet_rest⟩ := ih anchors
      have left : isKept kept (.string s, (v.mark anchors).1) = false := here
      rw [markEntries_of_none anchors quiet_here.digest?_eq_none, same, List.filter_cons_of_neg (by simp [left]),
        List.filter_cons_of_neg (by simp [here])]
      exact ⟨filtered, same_rest, quiet_rest.cons ⟨s, rfl⟩ fun _ => ⟨key_here, quiet_marked⟩⟩
    | true =>
      rw [List.filter_cons_of_pos here]
      -- an entry that is kept is marked alike on both sides, for the same digests are known
      cases long : digest? v with
      | none =>
        obtain ⟨filtered, same_rest, quiet_rest⟩ := ih (v.mark anchors).2
        have is_kept : isKept kept (.string s, (v.mark anchors).1) = true := here
        rw [markEntries_of_none anchors long, markEntries_of_none anchors long, List.filter_cons_of_pos is_kept,
          filtered]
        exact ⟨rfl, same_rest, quiet_rest.cons ⟨s, rfl⟩ fun left => by simp [is_kept] at left⟩
      | some digest =>
        obtain ⟨filtered, same_rest, quiet_rest⟩ := ih (markLong anchors (.string s) v digest).2
        obtain ⟨string, is_kept⟩ := isKept_markLong (v := v) marks here anchors digest
        rw [markEntries_of_some anchors long, markEntries_of_some anchors long, List.filter_cons_of_pos is_kept,
          filtered]
        exact ⟨rfl, same_rest, quiet_rest.cons string fun left => by simp [is_kept] at left⟩

theorem IsQuietBesides.insertAll (quiet : IsQuietBesides kept known entries) :
    IsQuietBesides kept known (insertAll entries) :=
  quiet.of_mem fun _ => mem_of_mem_insertAll quiet.strings

/-- A long string is not changed by an extension. -/
theorem Extends.digest? (extended : Extends known v w) :
    (digest? v = none ∧ digest? w = none) ∨ v = w := by
  cases extended with
  | refl => exact .inr rfl
  | string short _ quiet => exact .inl ⟨if_neg (Nat.not_lt.mpr short), quiet.digest?_eq_none⟩
  | seq | map => exact .inl ⟨rfl, rfl⟩

mutual

/-- Marking keeps an extension and defines the same anchors. -/
theorem Extends.mark : ∀ {v w : Value}, Extends known v w → ∀ anchors : Anchors,
    (v.mark anchors).2 = (w.mark anchors).2 ∧ Extends known (v.mark anchors).1 (w.mark anchors).1
  | _, _, .refl v, _ => ⟨rfl, .refl _⟩
  | _, _, .string short silent quiet, _ => ⟨rfl, .string short silent quiet⟩
  | _, _, .seq each, anchors => by
    rw [mark_seq, mark_seq]
    exact ⟨(each.mark anchors).1, .seq (each.mark anchors).2⟩
  | _, _, .map kept marks quiet each, anchors => by
    obtain ⟨filtered, same, quiet_marked⟩ := filter_markEntries marks quiet anchors
    obtain ⟨same_kept, each_marked⟩ := each.mark anchors
    rw [mark_map, mark_map]
    refine ⟨same_kept.trans same.symm, .map kept marks quiet_marked.insertAll ?_⟩
    rw [filter_insertAll quiet_marked.strings, filtered]
    exact each_marked.insertAll

/-- The same for the items of a sequence. -/
theorem ExtendsItems.mark : ∀ {items others : List Value}, ExtendsItems known items others →
    ∀ anchors : Anchors, (markItems anchors items).2 = (markItems anchors others).2 ∧
      ExtendsItems known (markItems anchors items).1 (markItems anchors others).1
  | _, _, .nil, _ => ⟨rfl, .nil⟩
  | _, _, .cons first rest, anchors => by
    obtain ⟨same, first_marked⟩ := first.mark anchors
    rw [markItems_cons, markItems_cons, ← same]
    obtain ⟨rest_same, rest_marked⟩ := rest.mark (Value.mark anchors _).2
    exact ⟨rest_same, .cons first_marked rest_marked⟩

/-- The same for the entries of a mapping. -/
theorem ExtendsEntries.mark : ∀ {entries others : List (Value × Value)},
    ExtendsEntries known entries others → ∀ anchors : Anchors,
    (markEntries anchors entries).2 = (markEntries anchors others).2 ∧
      ExtendsEntries known (markEntries anchors entries).1 (markEntries anchors others).1
  | _, _, .nil, _ => ⟨rfl, .nil⟩
  | _, _, .cons key first rest, anchors => by
    rcases first.digest? with ⟨short, short'⟩ | rfl
    · obtain ⟨same, first_marked⟩ := first.mark anchors
      rw [markEntries_of_none anchors short, markEntries_of_none anchors short', ← same]
      obtain ⟨rest_same, rest_marked⟩ := rest.mark (Value.mark anchors _).2
      exact ⟨rest_same, .cons key first_marked rest_marked⟩
    · -- the values are equal, so they are marked in the same way
      obtain ⟨e, before, step⟩ := markEntries_cons anchors key _
      rw [step, step]
      obtain ⟨rest_same, rest_marked⟩ := rest.mark before
      exact ⟨rest_same, .cons e.1 (.refl e.2) rest_marked⟩

end

end DeployManifest.Yaml.Value
