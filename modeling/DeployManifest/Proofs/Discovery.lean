import DeployManifest.Proofs.Occurrences
import DeployManifest.Proofs.Missing

/-!
# Discovered variables and placeholders that are replaced

`Placeholder.names` discovers which variables a text needs: a name with a slash as it is, and of any
other name the first part between dots that is not empty.  Putting values in looks a name up as a
whole, and then its first part, which is empty if the name starts with a dot.

`Offers` says that a table has what a text was discovered to need.  Every placeholder whose name
starts with no dot then stands for a value (`Offers.stands`).  One whose name starts with a dot and
has no slash is discovered under a name that is never looked up, so it may be reported as missing
although the table has its variable.

Main statement: `missing_iff_leading_dot`.

- `not_forall_offers_not_missing`: having everything that was discovered is not enough.
- `missing_dotFoo`: the name with a dot in front that shows it.
-/

namespace DeployManifest

open Yaml (Value)
open Bindings (StandsFor Leads)
open Placeholder (isSlashed)

/-- Whether a table has the variables that a text was discovered to need, and in their values the
    fields that its placeholders choose.  Dots in front of a name choose no field. -/
structure Offers (table : Table Value) (s : String) : Prop where
  discovered : ∀ p ∈ Placeholder.all s.toList, ∃ name, Placeholder.root? p.name = some name
  bound : ∀ name ∈ (Placeholder.names s).toList, ∃ v, table.get? name = some v ∧
    (v.scalarText?.isSome = true ∨ ∃ entries, v = .map entries)
  fields : ∀ p ∈ Placeholder.all s.toList, isSlashed p.name = false → '.' ∈ p.name →
    ∀ first path, (Text.splitAt '.' p.name).dropWhile List.isEmpty = first :: path →
      ∀ v, table.get? (String.ofList first) = some v → ∃ last, Leads v path last

namespace Placeholder

variable {p : Placeholder} {s : String}

/-- A name that starts with no dot refers to its first part. -/
theorem root?_of_no_leading_dot {name first : List Char} {parts : List (List Char)}
    (plain : isSlashed name = false) (nonempty : name ≠ []) (no_dot : name.head? ≠ some '.')
    (split : Text.splitAt '.' name = first :: parts) :
    root? name = some (String.ofList first) ∧ first ≠ [] := by
  have first_some : first ≠ [] := by
    rintro rfl
    obtain ⟨name_eq, -⟩ := Text.splitAt_eq_cons_iff.mp split
    cases parts with
    | nil => exact nonempty name_eq
    | cons part parts => exact no_dot (by rw [name_eq]; rfl)
  refine ⟨?_, first_some⟩
  have not_empty : (!first.isEmpty) = true := by simpa using first_some
  unfold root?
  rw [if_neg (by rw [plain]; exact Bool.false_ne_true), split, List.find?_cons, not_empty]
  rfl

end Placeholder

namespace Offers

variable {table : Table Value} {s : String} {p : Placeholder}

/-- A placeholder whose name starts with no dot, or has a slash, stands for a value. -/
theorem stands (offers : Offers table s) (mem : p ∈ Placeholder.all s.toList)
    (found_whole : isSlashed p.name = true ∨ p.name.head? ≠ some '.') :
    ∃ v, StandsFor [table] p.name v := by
  -- a slash makes the whole name the one that is discovered; otherwise it is the first part
  obtain ⟨root, root_eq⟩ := offers.discovered p mem
  obtain ⟨v, bound, -⟩ := offers.bound root (Placeholder.mem_names.mpr ⟨p, mem, root_eq⟩)
  by_cases slashed : isSlashed p.name = true
  · obtain rfl : String.ofList p.name = root := by
      unfold Placeholder.root? at root_eq
      rw [if_pos slashed] at root_eq
      exact Option.some.inj root_eq
    exact ⟨v, .whole (Bindings.binds_singleton_iff.mpr bound)⟩
  · have plain : isSlashed p.name = false := Bool.eq_false_iff.mpr slashed
    have no_dot := found_whole.resolve_left slashed
    have proper : p.IsProper :=
      (Piece.covers_pieces s.toList).proper p (Placeholder.mem_all.mp mem)
    obtain ⟨first, parts, split⟩ := List.exists_cons_of_ne_nil (Text.splitAt_ne_nil '.' p.name)
    have ⟨first_root, first_some⟩ :=
      Placeholder.root?_of_no_leading_dot plain proper.nonempty no_dot split
    obtain rfl : String.ofList first = root := by
      rw [first_root] at root_eq
      exact Option.some.inj root_eq
    obtain ⟨name_eq, clean⟩ := Text.splitAt_eq_cons_iff.mp split
    cases parts with
    | nil =>
      refine ⟨v, .whole (Bindings.binds_singleton_iff.mpr ?_)⟩
      rw [name_eq, List.flatMap_nil, List.append_nil]
      exact bound
    | cons field path =>
      -- the table may bind the dotted name as a whole; if not, the fields are looked for
      by_cases whole : ∃ w, Bindings.Binds [table] (String.ofList p.name) w
      · obtain ⟨w, whole⟩ := whole
        exact ⟨w, .whole whole⟩
      · have dotted : '.' ∈ p.name := by
          rw [name_eq]
          simp
        have from_first : (Text.splitAt '.' p.name).dropWhile List.isEmpty = first :: field :: path := by
          rw [split, List.dropWhile_cons, if_neg (by simpa using first_some)]
        obtain ⟨last, leads⟩ := offers.fields p mem plain dotted _ _ from_first v bound
        refine ⟨last, ?_⟩
        rw [name_eq] at whole ⊢
        exact .field (not_exists.mp whole) clean (Bindings.binds_singleton_iff.mpr bound) leads

end Offers

/-- Putting values into a string fails for a value without a text only. -/
theorem interpolate_string_eq_error {b : Bindings} {s : String} {e : InterpolationError}
    (failed : interpolate b (.string s) = .error e) : ∃ name, e = .nonScalarValue name s := by
  have failed : Interpolation.text b .none s = .error e := failed
  unfold Interpolation.text at failed
  split at failed
  · nomatch failed
  · split at failed
    · nomatch failed
    · next name _ _ => exact ⟨name, (Except.error.inj failed).symm⟩

/-- A string into which values are put from a table with everything it was discovered to need has
    missing variables just if values can be put in at all and one of its placeholders stands for
    nothing.  Such a placeholder has a name that starts with a dot and has no slash. -/
theorem missing_iff_leading_dot {table : Table Value} {s : String} {all_used : Bool}
    (offers : Offers table s) :
    (∃ names, interpolateChecked [table] ⟨true, all_used⟩ (.string s) =
        .error (.missingVariables names)) ↔
      (∃ found, interpolate [table] (.string s) = .ok found) ∧
        ∃ p ∈ Placeholder.all s.toList, p.name.head? = some '.' ∧ isSlashed p.name = false ∧
          ∀ v, ¬ StandsFor [table] p.name v := by
  unfold interpolateChecked
  constructor
  · rintro ⟨names, missing⟩
    cases put : interpolate [table] (.string s) with
    | error e =>
      obtain ⟨name, rfl⟩ := interpolate_string_eq_error put
      rw [put] at missing
      nomatch missing
    | ok found =>
      obtain ⟨last, usage⟩ := found
      rw [put] at missing
      dsimp only at missing
      refine ⟨⟨_, rfl⟩, ?_⟩
      have nonempty : ¬ usage.missing.isEmpty = true := by
        intro empty
        rw [empty] at missing
        simp only [Bool.not_true, Bool.and_false, Bool.false_eq_true, if_false] at missing
        split at missing <;> nomatch missing
      rw [isEmpty_missing_iff put] at nonempty
      obtain ⟨name, missing⟩ := Classical.not_forall_not.mp nonempty
      obtain ⟨p, stands, -, free⟩ := Interpolation.isMissingIn_string.mp missing
      have mem := Placeholder.standsIn_iff_mem_all.mp stands
      -- any other placeholder has its value in the table
      have not_found : ¬ (isSlashed p.name = true ∨ p.name.head? ≠ some '.') := by
        intro found
        obtain ⟨v, stands⟩ := offers.stands mem found
        exact free v stands
      obtain ⟨plain, dot⟩ := not_or.mp not_found
      exact ⟨p, mem, Classical.not_not.mp dot, Bool.eq_false_iff.mpr plain, free⟩
  · rintro ⟨⟨⟨last, usage⟩, put⟩, p, mem, -, -, free⟩
    have missing : Interpolation.IsMissingIn [table] (.string s) (String.ofList p.name) :=
      Interpolation.isMissingIn_string.mpr
        ⟨p, Placeholder.standsIn_iff_mem_all.mpr mem, rfl, free⟩
    have nonempty : usage.missing.isEmpty = false := by
      rw [Bool.eq_false_iff, ne_eq, isEmpty_missing_iff put]
      exact fun nothing => nothing _ missing
    rw [put]
    dsimp only
    rw [nonempty]
    exact ⟨_, rfl⟩

/-! ## A name that starts with a dot -/

theorem all_dotFoo : Placeholder.all "((.foo))".toList = [⟨false, ".foo".toList⟩] := by
  decide +kernel

/-- The text needs the variable `foo`, and a table with it has everything. -/
theorem offers_dotFoo : Offers (.single "foo" (.string "x")) "((.foo))" where
  discovered := by
    intro p mem
    rw [all_dotFoo] at mem
    obtain rfl := List.mem_singleton.mp mem
    exact ⟨"foo", by decide +kernel⟩
  bound := by
    intro name mem
    have names : (Placeholder.names "((.foo))").toList = ["foo"] := by decide +kernel
    rw [names] at mem
    obtain rfl := List.mem_singleton.mp mem
    exact ⟨.string "x", by decide +kernel, .inl rfl⟩
  fields := by
    intro p mem _ _ first path split v _
    rw [all_dotFoo] at mem
    obtain rfl := List.mem_singleton.mp mem
    have parts : (Text.splitAt '.' ".foo".toList).dropWhile List.isEmpty = ["foo".toList] := by
      decide +kernel
    obtain ⟨-, rfl⟩ := List.cons.inj (parts.symm.trans split)
    exact ⟨v, .here⟩

/-- It is not looked up under that name, though, and the string stays as it is. -/
theorem not_forall_offers_not_missing :
    ¬ ∀ (table : Table Value) (s : String), Offers table s → ∀ names,
      interpolateChecked [table] ⟨true, false⟩ (.string s) ≠ .error (.missingVariables names) := by
  intro never
  exact never _ _ offers_dotFoo [".foo"] rfl

/-- The table has what was discovered, and the placeholder is missing nevertheless. -/
theorem missing_dotFoo :
    Offers (.single "foo" (.string "x")) "((.foo))" ∧
      ∃ names, interpolateChecked [.single "foo" (.string "x")] ⟨true, false⟩ (.string "((.foo))") =
        .error (.missingVariables names) := by
  refine ⟨offers_dotFoo, (missing_iff_leading_dot offers_dotFoo).mpr ⟨⟨_, rfl⟩, ?_⟩⟩
  refine ⟨⟨false, ".foo".toList⟩, ?_, rfl, by decide +kernel, ?_⟩
  · rw [all_dotFoo]
    exact List.mem_singleton_self _
  · have nothing :
        (Interpolation.resolve [.single "foo" (.string "x")] .none ".foo".toList).1 = none := by
      decide +kernel
    exact Interpolation.resolve_eq_none_iff.mp nothing

end DeployManifest
