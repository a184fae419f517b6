import DeployManifest.Proofs.FurtherEntries
import DeployManifest.Proofs.PrintedPlaceholders

/-!
# Texts of trees with further entries

Quiet entries that come into a tree neither keep it from being printed nor bring placeholders in that are
not known: the canonical text has none beside the known ones and those that it had without these entries
(`Extends.canonical?_eq_some`).

The anchors that are put into a printed tree do not matter for this.  Neither their names nor their
digests have parentheses (`AreClean`).

- `Extends.isPrintable`, `Extends.standsIn`: an extension before anchors are put in.
- `AreClean`: anchors without parentheses, which bring in no placeholders.
-/

namespace DeployManifest.Yaml.Value

variable {p : Placeholder} {known : Placeholder → Prop} {v w key : Value} {kept : String → Bool}
  {entries others : Entries}

/-! ## Printing -/

/-- A mapping whose keys are strings can be printed if its values can. -/
theorem isPrintable_map_strings (strings : HasStringKeys entries) :
    isPrintable .free (.map entries) = entries.all fun e => e.2.isPrintable .free := by
  have all : ∀ entries : List (Value × Value), HasStringKeys entries →
      arePrintableEntries entries = entries.all fun e => e.2.isPrintable .free := by
    intro entries
    induction entries with
    | nil => exact fun _ => rfl
    | cons e rest ih =>
      intro strings
      obtain ⟨key, v⟩ := e
      obtain ⟨⟨s, rfl⟩, later⟩ := hasStringKeys_cons.mp strings
      rw [arePrintableEntries, ih later]
      simp [isPrintable]
  -- The key of a sole entry is looked at in another way.
  cases entries with
  | nil => rfl
  | cons first rest =>
    cases rest with
    | nil =>
      obtain ⟨key, v⟩ := first
      obtain ⟨s, rfl⟩ := strings _ List.mem_cons_self
      simp [isPrintable]
    | cons second rest => exact all _ strings

/-- A quiet tree can be printed. -/
theorem IsQuiet.isPrintable (quiet : IsQuiet known v) : v.isPrintable .free = true := by
  induction quiet with
  | string => rfl
  | map keys _ ih =>
    rw [isPrintable_map_strings fun e mem => (keys e mem).imp fun _ => And.left, List.all_eq_true]
    exact ih

/-- Quiet entries can be printed whatever the others are. -/
theorem IsQuietBesides.isPrintable (quiet : IsQuietBesides kept known entries) :
    Value.isPrintable .free (.map entries) =
      (entries.filter (isKept kept)).all fun e => e.2.isPrintable .free := by
  rw [isPrintable_map_strings quiet.strings, List.all_filter, Bool.eq_iff_iff, List.all_eq_true,
    List.all_eq_true]
  refine forall₂_congr fun e mem => ?_
  cases here : isKept kept e with
  | false => simp [(quiet.values e mem here).isPrintable]
  | true => simp

mutual

/-- A tree can be printed just if its extension can. -/
theorem Extends.isPrintable : ∀ {v w : Value}, Extends known v w →
    v.isPrintable .free = w.isPrintable .free
  | _, _, .refl _ | _, _, .string .. => rfl
  | _, _, .seq each => each.arePrintable
  | _, _, .map kept _ quiet each => by
    have strings := each.strings fun e mem => quiet.strings e (List.mem_of_mem_filter mem)
    rw [isPrintable_map_strings strings, quiet.isPrintable]
    exact each.isPrintable

/-- The same for the items of a sequence. -/
theorem ExtendsItems.arePrintable : ∀ {items others : List Value}, ExtendsItems known items others →
    Value.arePrintable items = Value.arePrintable others
  | _, _, .nil => rfl
  | _, _, .cons first rest => congrArg₂ and first.isPrintable rest.arePrintable

/-- The same for the values of a mapping. -/
theorem ExtendsEntries.isPrintable : ∀ {entries others : List (Value × Value)},
    ExtendsEntries known entries others →
    (entries.all fun e => e.2.isPrintable .free) = others.all fun e => e.2.isPrintable .free
  | _, _, .nil => rfl
  | _, _, .cons _ first rest => congrArg₂ and first.isPrintable rest.isPrintable

end

/-- In a quiet tree there are known placeholders only. -/
theorem IsQuiet.known_of_standsIn (quiet : IsQuiet known v) {behind : Behind} {tagged : Bool} {column : Nat}
    (stands : p.StandsIn (node behind tagged column v)) : known p := by
  induction quiet generalizing behind tagged column with
  | string _ heard => exact heard p (standsIn_node_string stands)
  | map keys _ ih =>
    obtain ⟨e, mem, stands | stands⟩ := standsIn_node_map.mp stands
    · obtain ⟨s, key, heard⟩ := keys e mem
      exact heard p (standsIn_keyText_string (key ▸ stands))
    · exact ih e mem stands

/-- In the quiet entries of a mapping there are known placeholders only. -/
theorem IsQuietBesides.known_of_standsIn (quiet : IsQuietBesides kept known entries) {e : Value × Value}
    (mem : e ∈ entries) (left : isKept kept e = false) {column : Nat} (stands : StandsInEntry p column e) :
    known p := by
  rcases stands with stands | stands
  · obtain ⟨s, key, heard⟩ := quiet.keys e mem left
    exact heard p (standsIn_keyText_string (key ▸ stands))
  · exact (quiet.values e mem left).known_of_standsIn stands

mutual

/-- An extension has the placeholders of the tree, and further ones only if they are known. -/
theorem Extends.standsIn : ∀ {v w : Value}, Extends known v w →
    ∀ (behind : Behind) (tagged : Bool) (column : Nat),
    (p.StandsIn (node behind tagged column v) → p.StandsIn (node behind tagged column w)) ∧
    (p.StandsIn (node behind tagged column w) → p.StandsIn (node behind tagged column v) ∨ known p)
  | _, _, .refl _, _, _, _ => ⟨id, .inl⟩
  -- a text may only be extended if nothing stood in it, and only by what is known
  | _, _, .string _ silent quiet, _, _, _ =>
    ⟨fun stands => absurd (standsIn_node_string stands) (Placeholder.not_standsIn silent),
      fun stands => .inr (quiet.known_of_standsIn stands)⟩
  | _, _, .seq each, behind, inTag, column => by
    rw [standsIn_node_seq, standsIn_node_seq]
    exact each.standsIn _
  | _, _, .map kept _ quiet each, behind, inTag, column => by
    obtain ⟨into, back⟩ := each.standsIn (behind.inner column)
    rw [standsIn_node_map, standsIn_node_map]
    constructor
    · intro stands
      obtain ⟨e, mem, stands⟩ := into stands
      exact ⟨e, List.mem_of_mem_filter mem, stands⟩
    · rintro ⟨e, mem, stands⟩
      cases here : isKept kept e with
      | false => exact .inr (quiet.known_of_standsIn mem here stands)
      | true => exact back ⟨e, List.mem_filter.mpr ⟨mem, here⟩, stands⟩

/-- The same for the items of a sequence. -/
theorem ExtendsItems.standsIn : ∀ {items others : List Value}, ExtendsItems known items others →
    ∀ column : Nat,
    ((∃ v ∈ items, p.StandsIn (node .dash false column v)) →
      ∃ v ∈ others, p.StandsIn (node .dash false column v)) ∧
    ((∃ v ∈ others, p.StandsIn (node .dash false column v)) →
      (∃ v ∈ items, p.StandsIn (node .dash false column v)) ∨ known p)
  | _, _, .nil, _ => ⟨id, .inl⟩
  | _, _, .cons first rest, column => by
    have first := first.standsIn .dash false column
    have rest := rest.standsIn column
    simp only [List.exists_mem_cons_iff]
    exact ⟨Or.imp first.1 rest.1, fun stands => stands.elim
      (fun here => (first.2 here).imp_left .inl) fun later => (rest.2 later).imp_left .inr⟩

/-- The same for the entries of a mapping. -/
theorem ExtendsEntries.standsIn : ∀ {entries others : List (Value × Value)},
    ExtendsEntries known entries others → ∀ column : Nat,
    ((∃ e ∈ entries, StandsInEntry p column e) → ∃ e ∈ others, StandsInEntry p column e) ∧
    ((∃ e ∈ others, StandsInEntry p column e) → (∃ e ∈ entries, StandsInEntry p column e) ∨ known p)
  | _, _, .nil, _ => ⟨id, .inl⟩
  | _, _, .cons key first rest, column => by
    have first := first.standsIn (behindKey key) false column
    have rest := rest.standsIn column
    simp only [List.exists_mem_cons_iff]
    refine ⟨Or.imp (Or.imp_right first.1) rest.1, fun stands => ?_⟩
    rcases stands with (in_key | in_value) | later
    · exact .inl (.inl (.inl in_key))
    · exact (first.2 in_value).imp_left fun stands => .inl (.inr stands)
    · exact (rest.2 later).imp_left .inr

end

/-! ## Canonical texts -/

open Anchors (digest? markLong)

/-- Whether no key and no digest of anchors has parentheses. -/
def AreClean (anchors : Anchors) : Prop :=
  ∀ e ∈ anchors.entries, Placeholder.HasNoParens e.1 ∧ Placeholder.HasNoParens e.2

theorem areClean_empty : AreClean .empty := fun _ mem => absurd mem List.not_mem_nil

/-- Anchors stay clean, for neither digests nor keys of anchors have parentheses. -/
theorem isInvariant_areClean : IsInvariant AreClean := by
  intro anchors key v digest long clean
  have marks := marksLong_markLong anchors key v digest
  generalize markLong anchors key v digest = result at marks ⊢
  cases marks with
  | refers | keeps => exact clean
  | defines _ _ isKey =>
    intro e mem
    rcases Table.mem_insertEntry mem with rfl | mem
    · obtain ⟨text, -, rfl⟩ := exists_string_of_digest? long
      exact ⟨Placeholder.hasNoParens_digest text, Placeholder.hasNoParens_of_isAnchorKey isKey⟩
    · exact clean e mem

/-- What stands in a canonical text stands in the printed tree with its marks. -/
theorem canonical?_eq_some {text : String} :
    v.canonical? = some text → (v.sorted.mark .empty).1.isPrintable .free = true ∧
      ∀ p : Placeholder, p.StandsIn text.toList ↔
        p.StandsIn (node .start false 0 (v.sorted.mark .empty).1) := by
  intro printed
  obtain ⟨marked, print, rfl⟩ := Option.map_eq_some_iff.mp printed
  unfold print? at print
  split at print
  · next printable =>
    refine ⟨printable, fun p => ?_⟩
    have clean := isInvariant_areClean.mark v.sorted areClean_empty
    rw [Placeholder.standsIn_putInAll clean, ← Option.some.inj print, render, String.toList_ofList]
  · nomatch print

/-- A tree has a canonical text just if the sorted tree can be printed with its marks. -/
theorem exists_canonical?_iff :
    (∃ text, v.canonical? = some text) ↔ (v.sorted.mark .empty).1.isPrintable .free = true := by
  constructor
  · exact fun ⟨text, printed⟩ => (canonical?_eq_some printed).1
  · intro printable
    have print : (v.sorted.mark .empty).1.print? = some (render (v.sorted.mark .empty).1) :=
      if_pos printable
    exact ⟨_, Option.map_eq_some_iff.mpr ⟨_, print, rfl⟩⟩

/-- Further quiet entries neither keep a tree from being printed nor bring placeholders in, except for
    those that are known. -/
theorem Extends.canonical?_eq_some (extended : Extends known v w) {text : String}
    (printed : v.canonical? = some text) :
    ∃ text', w.canonical? = some text' ∧ ∀ p : Placeholder,
      (p.StandsIn text.toList → p.StandsIn text'.toList) ∧
      (p.StandsIn text'.toList → p.StandsIn text.toList ∨ known p) := by
  obtain ⟨-, marked⟩ := extended.sorted.mark .empty
  obtain ⟨printable, stands⟩ := Value.canonical?_eq_some printed
  obtain ⟨text', printed'⟩ := exists_canonical?_iff.mpr (marked.isPrintable.symm.trans printable)
  refine ⟨text', printed', fun p => ?_⟩
  rw [stands p, (Value.canonical?_eq_some printed').2 p]
  exact marked.standsIn .start false 0

/-- Where a tree has no canonical text, its extension has none. -/
theorem Extends.canonical?_eq_none (extended : Extends known v w) (failed : v.canonical? = none) :
    w.canonical? = none := by
  obtain ⟨-, marked⟩ := extended.sorted.mark .empty
  refine Option.eq_none_iff_forall_ne_some.mpr fun text printed => ?_
  have printable := (Value.canonical?_eq_some printed).1
  obtain ⟨text', printed'⟩ := exists_canonical?_iff.mpr (marked.isPrintable.trans printable)
  rw [failed] at printed'
  nomatch printed'

end DeployManifest.Yaml.Value
