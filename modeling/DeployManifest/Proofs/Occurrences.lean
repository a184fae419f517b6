import DeployManifest.Proofs.PlaceholderScan
import DeployManifest.Proofs.TableLaws
import DeployManifest.Proofs.TextSearch
import Mathlib.Data.List.Infix

/-!
# Placeholders that stand in a text

A placeholder may stand anywhere in a text (`StandsIn`), between other parentheses, behind another
placeholder or behind parentheses that are never closed.  Of two placeholders in a text one ends before the
other starts (`IsProper.same_or_apart`), so the search finds each one as if the text started or ended there:
the pieces of a text are those in front of a placeholder, the placeholder and those behind it
(`pieces_append`).  A character that stands in no placeholder (`isApart`) parts a text as well.

The name of a placeholder refers to a variable (`RefersTo`): one with a slash to the variable of that name,
any other to the first part between its dots, for the further parts choose a field.  A name of dots only
refers to nothing (`not_refersTo_iff`).

Main statement: `names_of_occurrences`.

- `Piece.pieces_append`, `Placeholder.all_append`: a text taken apart at a placeholder.
- `Placeholder.StandsIn`, `Placeholder.standsIn_iff_mem_all`: placeholders that stand in a text are those
  that are found.
- `Placeholder.standsIn_append_cons`: a text taken apart at a character outside of all placeholders.
- `Placeholder.RefersTo`, `Placeholder.root?_eq_some_iff`: the variable that a name refers to.
-/

namespace DeployManifest

namespace Placeholder

variable {p q : Placeholder} {before after start rest : List Char}

/-! ## One placeholder and another -/

/-- No placeholder starts where another one does. -/
theorem IsProper.eq_of_append (p_proper : p.IsProper) (q_proper : q.IsProper)
    (same : p.written ++ after = q.written ++ rest) : p = q ∧ after = rest := by
  have found : first? (p.written ++ after) = some p := first?_eq_some_iff.mpr ⟨p_proper, after, rfl⟩
  have other : first? (p.written ++ after) = some q := first?_eq_some_iff.mpr ⟨q_proper, rest, same⟩
  obtain rfl : p = q := Option.some.inj (found.symm.trans other)
  exact ⟨rfl, List.append_cancel_left same⟩

/-- Two placeholders in a text are the same one, or one of them ends before the other starts. -/
theorem IsProper.same_or_apart (p_proper : p.IsProper) (q_proper : q.IsProper)
    (whole : before ++ p.written ++ after = start ++ q.written ++ rest) :
    (start = before ∧ q = p ∧ rest = after) ∨
      (∃ between, start = before ++ p.written ++ between ∧ after = between ++ q.written ++ rest) ∨
      ∃ between, before = start ++ q.written ++ between ∧ rest = between ++ p.written ++ after := by
  rw [List.append_assoc, List.append_assoc] at whole
  -- one of them starts first, or both start in the same place
  rcases List.append_eq_append_iff.mp whole with ⟨gap, start_eq, later⟩ | ⟨gap, before_eq, later⟩
  · by_cases here : gap = []
    · rw [here, List.nil_append] at later
      have ⟨same, behind⟩ := p_proper.eq_of_append q_proper later
      exact .inl ⟨by rw [start_eq, here, List.append_nil], same.symm, behind.symm⟩
    · rw [← List.append_assoc] at later
      obtain ⟨between, gap_eq, after_eq⟩ := exists_append_of_append_eq p_proper later here
      exact .inr (.inl ⟨between, by rw [start_eq, gap_eq, List.append_assoc], after_eq⟩)
  · by_cases here : gap = []
    · rw [here, List.nil_append] at later
      have ⟨same, behind⟩ := q_proper.eq_of_append p_proper later
      exact .inl ⟨by rw [before_eq, here, List.append_nil], same, behind⟩
    · rw [← List.append_assoc] at later
      obtain ⟨between, gap_eq, rest_eq⟩ := exists_append_of_append_eq q_proper later here
      exact .inr (.inr ⟨between, by rw [before_eq, gap_eq, List.append_assoc], rest_eq⟩)

end Placeholder

namespace Piece

variable {p : Placeholder}

/-- A placeholder hides neither what stands in front of it nor what stands behind it. -/
theorem pieces_append (proper : p.IsProper) (before after : List Char) :
    pieces (before ++ p.written ++ after) = pieces before ++ .placeholder p :: pieces after := by
  have in_front := covers_pieces before
  have behind := covers_pieces after
  -- it is enough that these pieces cover the text, for only its own do
  refine (Covers.eq_pieces ⟨?_, ?_, ?_⟩).symm
  · rw [List.flatMap_append, List.flatMap_cons, in_front.whole, behind.whole, List.append_assoc]
    rfl
  · intro q mem
    rcases List.mem_append.mp mem with mem | mem
    · exact in_front.proper q mem
    · rcases List.mem_cons.mp mem with same | mem
      · exact Piece.placeholder.inj same ▸ proper
      · exact behind.proper q mem
  · intro start q rest q_proper whole
    -- an occurrence is the one in the middle, or stands wholly behind or in front of it
    rcases proper.same_or_apart q_proper whole with
      ⟨rfl, rfl, rfl⟩ | ⟨between, rfl, later⟩ | ⟨between, earlier, rfl⟩
    · exact ⟨pieces start, pieces rest, rfl, in_front.whole, behind.whole⟩
    · obtain ⟨front, back, split, front_eq, back_eq⟩ := behind.every between q rest q_proper later
      refine ⟨pieces before ++ .placeholder p :: front, back, by rw [split]; simp, ?_, back_eq⟩
      rw [List.flatMap_append, List.flatMap_cons, in_front.whole, front_eq, List.append_assoc]
      rfl
    · obtain ⟨front, back, split, front_eq, back_eq⟩ := in_front.every start q between q_proper earlier
      refine ⟨front, back ++ .placeholder p :: pieces after, by rw [split]; simp, front_eq, ?_⟩
      rw [List.flatMap_append, List.flatMap_cons, back_eq, behind.whole, List.append_assoc]
      rfl

end Piece

namespace Placeholder

variable {p : Placeholder} {a b : List Char} {c : Char} {s : String}

/-! ## All placeholders of a text -/

/-- All placeholders of a text are those among its pieces. -/
theorem mem_all : p ∈ all s.toList ↔ .placeholder p ∈ Piece.pieces s.toList := by
  unfold all
  rw [List.mem_filterMap]
  constructor
  · rintro ⟨piece, mem, same⟩
    cases piece with
    | char c => nomatch same
    | placeholder q => exact Option.some.inj same ▸ mem
  · intro mem
    exact ⟨_, mem, rfl⟩

theorem mem_names {name : String} :
    name ∈ (names s).toList ↔ ∃ p ∈ all s.toList, root? p.name = some name := by
  unfold names
  rw [NameSet.mem_ofNames, List.mem_filterMap]

/-- All placeholders of a text are those in front of any one of them, that one, and those behind it. -/
theorem all_append (proper : p.IsProper) (before after : List Char) :
    all (before ++ p.written ++ after) = all before ++ p :: all after := by
  unfold all
  rw [Piece.pieces_append proper, List.filterMap_append]
  rfl

/-- Whether a placeholder stands anywhere in a text. -/
def StandsIn (p : Placeholder) (text : List Char) : Prop := p.IsProper ∧ p.written <:+: text

/-- The search finds just the placeholders that stand in a text. -/
theorem standsIn_iff_mem_all : p.StandsIn s.toList ↔ p ∈ all s.toList := by
  have covers := Piece.covers_pieces s.toList
  rw [mem_all]
  constructor
  · rintro ⟨proper, before, after, whole⟩
    obtain ⟨front, back, split, -, -⟩ := covers.every before p after proper whole.symm
    exact split ▸ List.mem_append_right front List.mem_cons_self
  · intro mem
    refine ⟨covers.proper p mem, ?_⟩
    obtain ⟨front, back, split⟩ := List.append_of_mem mem
    have whole := covers.whole
    rw [split, List.flatMap_append, List.flatMap_cons, ← List.append_assoc] at whole
    exact ⟨_, _, whole⟩

theorem mem_names_iff {name : String} :
    name ∈ (names s).toList ↔ ∃ p, StandsIn p s.toList ∧ root? p.name = some name := by
  simp only [mem_names, standsIn_iff_mem_all]

/-! ## Characters that stand in no placeholder -/

/-- Whether a character stands in no placeholder. -/
def isApart (c : Char) : Bool := !(isNameChar c || c == '(' || c == ')' || c == '!')

/-- A placeholder contains no character that parts texts. -/
theorem IsProper.isApart_of_mem (proper : p.IsProper) (mem : c ∈ p.written) : isApart c = false := by
  rw [written_eq] at mem
  unfold inner at mem
  have named := proper.named c
  unfold isApart
  cases marked : p.marked <;> simp [marked] at mem ⊢ <;> grind

/-- A character that parts a text has every placeholder on one of its two sides. -/
theorem standsIn_append_cons (apart : isApart c = true) :
    p.StandsIn (a ++ c :: b) ↔ p.StandsIn a ∨ p.StandsIn b := by
  unfold StandsIn
  rw [← and_or_left, and_congr_right_iff]
  intro proper
  refine Text.infix_append_cons_iff fun mem => ?_
  rw [proper.isApart_of_mem mem] at apart
  nomatch apart

/-- A placeholder does not stand where no parenthesis opens. -/
theorem not_standsIn (no_opening : '(' ∉ a) : ¬ p.StandsIn a := by
  rintro ⟨-, within⟩
  rw [written_eq] at within
  exact no_opening (within.subset List.mem_cons_self)

/-! ## The variable a placeholder refers to -/

/-- Which variable the name of a placeholder refers to. -/
inductive RefersTo : List Char → String → Prop where
  | whole {name : List Char} (slash : '/' ∈ name) : RefersTo name (String.ofList name)
  -- dots in front of a name do not count
  | part {name first : List Char} {front back : List (List Char)} (plain : '/' ∉ name)
    (split : Text.splitAt '.' name = front ++ first :: back) (blank : ∀ part ∈ front, part = [])
    (nonempty : first ≠ []) : RefersTo name (String.ofList first)

section

variable {name : List Char} {root : String}

/-- The root of a name is the variable that it refers to. -/
theorem root?_eq_some_iff : root? name = some root ↔ RefersTo name root := by
  unfold root?
  -- a name with a slash is the variable itself, of any other it is the first part that is not empty
  by_cases slash : '/' ∈ name
  · rw [if_pos (by simpa [isSlashed] using slash), Option.some.injEq]
    constructor
    · rintro rfl
      exact .whole slash
    · intro refers
      cases refers with
      | whole => rfl
      | part plain => exact absurd slash plain
  · rw [if_neg (by simpa [isSlashed] using slash), Option.map_eq_some_iff]
    constructor
    · rintro ⟨first, found, rfl⟩
      obtain ⟨nonempty, front, back, split, blank⟩ := List.find?_eq_some_iff_append.mp found
      exact .part slash split (by simpa using blank) (by simpa using nonempty)
    · intro refers
      cases refers with
      | whole slashed => exact absurd slashed slash
      | @part first front back _ split blank nonempty =>
        refine ⟨first, List.find?_eq_some_iff_append.mpr ⟨by simpa using nonempty, front, back, split, ?_⟩, rfl⟩
        simpa using blank

/-- A name with a slash and a name without dots refer to themselves. -/
theorem RefersTo.eq_ofList (refers : RefersTo name root) (entire : '/' ∈ name ∨ '.' ∉ name) :
    root = String.ofList name := by
  cases refers with
  | whole => rfl
  | @part first front back plain split blank nonempty =>
    rw [Text.splitAt_of_notMem (entire.resolve_left plain)] at split
    rcases List.cons_eq_append_iff.mp split with ⟨rfl, same⟩ | ⟨_, rfl, last⟩
    · rw [(List.cons.inj same).1]
    · exact absurd last.symm (by simp)

/-- All parts of a name are empty just if it consists of dots. -/
theorem blank_parts_iff : (∀ part ∈ Text.splitAt '.' name, part = []) ↔ ∀ c ∈ name, c = '.' := by
  obtain ⟨first, parts, split⟩ := List.exists_cons_of_ne_nil (Text.splitAt_ne_nil '.' name)
  have ⟨name_eq, clean⟩ := Text.splitAt_eq_cons_iff.mp split
  rw [split]
  constructor
  · intro blank c mem
    rw [name_eq, blank first List.mem_cons_self, List.nil_append] at mem
    obtain ⟨part, part_mem, mem⟩ := List.mem_flatMap.mp mem
    rw [blank part (List.mem_cons_of_mem _ part_mem)] at mem
    exact List.mem_singleton.mp mem
  · intro dots part part_mem
    -- a character of the part would be a dot, and a part has none
    refine List.eq_nil_iff_forall_not_mem.mpr fun c mem => clean part part_mem ?_
    have within : c ∈ name := by
      rw [name_eq]
      rcases List.mem_cons.mp part_mem with rfl | later
      · exact List.mem_append_left _ mem
      · exact List.mem_append_right first (List.mem_flatMap.mpr ⟨part, later, List.mem_cons_of_mem _ mem⟩)
    rwa [← dots c within]

/-- A name that refers to nothing has no slash and nothing between its dots. -/
theorem not_refersTo_iff : (∀ root, ¬ RefersTo name root) ↔ '/' ∉ name ∧ ∀ c ∈ name, c = '.' := by
  simp only [← root?_eq_some_iff, ← ne_eq, ← Option.eq_none_iff_forall_ne_some, ← blank_parts_iff]
  unfold root?
  by_cases slash : '/' ∈ name
  · simp [isSlashed, slash]
  · rw [if_neg (by simpa [isSlashed] using slash), Option.map_eq_none_iff, List.find?_eq_none]
    simp [slash]

end

/-! ## The names of a text -/

/-- The names in two texts with a line feed between them are those in both. -/
theorem names_newline (s t : String) :
    names (s ++ "\n" ++ t) = .ofNames ((names s).toList ++ (names t).toList) := by
  refine NameSet.ext_of_mem fun name => ?_
  have line_end : (s ++ "\n" ++ t).toList = s.toList ++ '\n' :: t.toList := by simp
  rw [NameSet.mem_ofNames, List.mem_append, mem_names_iff, mem_names_iff, mem_names_iff, line_end]
  simp only [standsIn_append_cons (show isApart '\n' = true by decide +kernel), or_and_right, exists_or]

/-- The names of a text are those that its placeholders refer to, wherever they stand.  The search goes on
    behind each of them as if the text started there, and a line end parts a text into two with names of
    their own. -/
theorem names_of_occurrences (s : String) :
    (∀ name, name ∈ (names s).toList ↔ ∃ p : Placeholder, p.StandsIn s.toList ∧ RefersTo p.name name) ∧
    (∀ p : Placeholder, (∀ name, ¬ RefersTo p.name name) ↔ '/' ∉ p.name ∧ ∀ c ∈ p.name, c = '.') ∧
    (∀ before (p : Placeholder) after, p.IsProper → s.toList = before ++ p.written ++ after →
      all s.toList = all before ++ p :: all after) ∧
    ∀ t, names (s ++ "\n" ++ t) = .ofNames ((names s).toList ++ (names t).toList) := by
  refine ⟨fun name => ?_, fun p => not_refersTo_iff, fun before p after proper whole => ?_, names_newline s⟩
  · simp only [mem_names_iff, root?_eq_some_iff]
  · rw [whole, all_append proper]

/-- Neither parentheses that are never closed nor one parenthesis too many hide a placeholder. -/
theorem names_of_occurrences_unclosed :
    (names "((a((.b))(((!c/d)))").toList = ["b", "c/d"] ∧
      all "((a((.b))(((!c/d)))".toList = all "((a".toList ++ ⟨false, ".b".toList⟩ :: all "(((!c/d)))".toList := by
  have proper : IsProper ⟨false, ".b".toList⟩ := ⟨by decide, List.all_eq_true.mp (by decide +kernel)⟩
  have ⟨_, _, around, _⟩ := names_of_occurrences "((a((.b))(((!c/d)))"
  exact ⟨by decide +kernel, around "((a".toList _ _ proper (by decide)⟩

end Placeholder
end DeployManifest
