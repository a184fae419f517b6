import DeployManifest.Proofs.FloatText
import DeployManifest.Proofs.Missing
import DeployManifest.Proofs.Substitution

/-!
# Placeholders that are left

Where every placeholder is expected to have a value, all placeholders of a tree are replaced.  What is
put in is not searched again, so a placeholder in the result is either part of a value that was put in
or it comes about where such a value meets the text around it.  If the values have no parentheses, only
the second is possible: the outer parentheses of the placeholder are characters of one string of the
tree, and between them a placeholder of that string was replaced.

Main statement: `left_placeholder_spans`.

- `Becomes.origin`: where the strings of a result come from.
- `Bindings.AreFreeOfParens`: tables whose values have no parentheses.
- `PiecesBecome.eq_append_of_paren`: a parenthesis of a result is a character of the string it comes from.
- `left_placeholder_xfooy`: a placeholder that comes about around the value of another one.
-/

namespace DeployManifest

open Yaml (Value Entries)
open Bindings (Binds Leads StandsFor)

/-! ## Where the strings of a result come from -/

namespace Yaml.Value

variable {s : String}

theorem hasString_untagged : ∀ {v : Value}, v.untagged.HasString s → v.HasString s
  | .tagged _ _, has => .content (hasString_untagged has)
  | .null, has | .bool _, has | .int _, has | .float _, has | .string _, has | .seq _, has
  | .map _, has => has

/-- What is bound to a key is the value of an entry. -/
theorem mem_of_lookup? {key value : Value} {entries : Entries}
    (found : lookup? key entries = some value) : ∃ k, (k, value) ∈ entries := by
  induction entries with
  | nil => nomatch found
  | cons first rest ih =>
    obtain ⟨k, v⟩ := first
    unfold lookup? at found
    split at found
    · obtain rfl := Option.some.inj found
      exact ⟨k, List.mem_cons_self⟩
    · obtain ⟨k, mem⟩ := ih found
      exact ⟨k, List.mem_cons_of_mem _ mem⟩

end Yaml.Value

variable {b : Bindings}

/-- What fields lead to is a part of the value they start from, so its strings are. -/
theorem Bindings.Leads.hasString {v last : Value} {path : List (List Char)} {s : String}
    (leads : Leads v path last) (has : last.HasString s) : v.HasString s := by
  induction leads with
  | here => exact has
  | @field v inner _ name _ entry _ ih =>
    apply Value.hasString_untagged
    unfold Value.field? at entry
    split at entry
    · next entries untagged =>
      obtain ⟨k, mem⟩ := Value.mem_of_lookup? entry
      rw [untagged]
      exact .value mem (ih has)
    · nomatch entry

/-- The strings of what a name stands for are strings of a value that is bound. -/
theorem Bindings.StandsFor.hasString {name : List Char} {v : Value} {s : String}
    (stands : StandsFor b name v) (has : v.HasString s) :
    ∃ bound w, b.Binds bound w ∧ w.HasString s := by
  cases stands with
  | whole bound => exact ⟨_, _, bound, has⟩
  | field _ _ bound leads => exact ⟨_, _, bound, leads.hasString has⟩

/-- A key of a result that is a string is what a key that is a string has become. -/
theorem EntriesBecome.origin_key {k : String} {last : Value} {list lasts : List (Value × Value)}
    (become : EntriesBecome b list lasts) (mem : (.string k, last) ∈ lasts) :
    ∃ source v, (.string source, v) ∈ list ∧ TextBecomes b source (.string k) := by
  induction list generalizing lasts with
  | nil =>
    cases become with
    | nil => nomatch mem
  | cons first rest ih =>
    cases become with
    | cons name _ tail =>
      rcases List.mem_cons.mp mem with same | later
      · obtain ⟨rfl, -⟩ := Prod.mk.inj same
        cases name with
        | string become => exact ⟨_, _, List.mem_cons_self, become⟩
        | other other => exact absurd rfl (other k)
      · obtain ⟨source, v, mem, become⟩ := ih tail later
        exact ⟨source, v, List.mem_cons_of_mem _ mem, become⟩

mutual

/-- Every string of a result is one that a string of the tree has become, or is part of what it has
    become. -/
theorem Becomes.origin {s : String} : ∀ {t last : Value}, Becomes b t last → last.HasString s →
    ∃ source v, t.HasString source ∧ TextBecomes b source v ∧ v.HasString s
  | .null, _, .null, has => nomatch has
  | .bool _, _, .bool _, has => nomatch has
  | .int _, _, .int _, has => nomatch has
  | .float _, _, .float _, has => nomatch has
  | .string source, v, .string become, has => ⟨source, v, .string source, become, has⟩
  | .seq list, _, .seq become, has => by
    obtain ⟨last, mem, has⟩ := Value.hasString_seq_iff.mp has
    obtain ⟨u, mem, source, v, from_u, become, has⟩ := ItemsBecome.origin become mem has
    exact ⟨source, v, .item mem from_u, become, has⟩
  | .map list, _, .map become, has => by
    obtain ⟨⟨key, last⟩, mem, is_key | has⟩ := Value.hasString_map_iff.mp has
    -- a key and a value that were inserted need not be of the same entry
    · obtain ⟨⟨⟨k, w⟩, mem, same⟩, -⟩ := Value.key_and_value_of_mem_insertAll mem
      obtain rfl : k = .string s := same.trans is_key
      obtain ⟨source, u, mem, become⟩ := become.origin_key mem
      exact ⟨source, .string s, .key mem, become, .string s⟩
    · obtain ⟨-, ⟨k, w⟩, there, same⟩ := Value.key_and_value_of_mem_insertAll mem
      obtain rfl : w = last := same
      obtain ⟨e, mem, source, v, from_e, become, has⟩ := EntriesBecome.origin become there has
      exact ⟨source, v, .value mem from_e, become, has⟩
  | .tagged _ content, _, .tagged become, has => by
    obtain ⟨source, v, from_content, become, has⟩ :=
      Becomes.origin become (Value.hasString_tagged_iff.mp has)
    exact ⟨source, v, .content from_content, become, has⟩

/-- The same for the items of a sequence. -/
theorem ItemsBecome.origin {s : String} : ∀ {list lasts : List Value}, ItemsBecome b list lasts →
    ∀ {last : Value}, last ∈ lasts → last.HasString s →
      ∃ u ∈ list, ∃ source v, u.HasString source ∧ TextBecomes b source v ∧ v.HasString s
  | [], _, .nil, _, mem, _ => nomatch mem
  | u :: _, _, .cons head tail, last, mem, has => by
    rcases List.mem_cons.mp mem with rfl | later
    · exact ⟨u, List.mem_cons_self, Becomes.origin head has⟩
    · obtain ⟨w, mem, found⟩ := ItemsBecome.origin tail later has
      exact ⟨w, List.mem_cons_of_mem _ mem, found⟩

/-- The same for the values of a mapping. -/
theorem EntriesBecome.origin {s : String} : ∀ {list lasts : List (Value × Value)},
    EntriesBecome b list lasts → ∀ {k last : Value}, (k, last) ∈ lasts → last.HasString s →
      ∃ e ∈ list, ∃ source v, e.2.HasString source ∧ TextBecomes b source v ∧ v.HasString s
  | [], _, .nil, _, _, mem, _ => nomatch mem
  | (j, u) :: _, _, .cons _ value tail, k, last, mem, has => by
    rcases List.mem_cons.mp mem with same | later
    · obtain ⟨-, rfl⟩ := Prod.mk.inj same
      exact ⟨(j, u), List.mem_cons_self, Becomes.origin value has⟩
    · obtain ⟨w, mem, found⟩ := EntriesBecome.origin tail later has
      exact ⟨w, List.mem_cons_of_mem _ mem, found⟩

end

/-! ## Where the parentheses of a result come from -/

/-- Whether a text has no parentheses. -/
def HasNoParens (text : List Char) : Prop := ∀ c ∈ text, c ≠ '(' ∧ c ≠ ')'

/-- Whether no string of a value that is bound has a parenthesis. -/
def Bindings.AreFreeOfParens (b : Bindings) : Prop :=
  ∀ name v, b.Binds name v → ∀ s, v.HasString s → HasNoParens s.toList

theorem hasNoParens_of_isNumberChar {text : List Char}
    (number : ∀ c ∈ text, Number.IsNumberChar c) : HasNoParens text := by
  intro c mem
  constructor <;> rintro rfl <;> exact absurd (number _ mem) (by unfold Number.IsNumberChar; decide)

/-- The text of a scalar has no parentheses unless its string has. -/
theorem hasNoParens_scalarText {v : Value} {text : String}
    (clean : ∀ s, v.HasString s → HasNoParens s.toList) (scalar : v.scalarText? = some text) :
    HasNoParens text.toList := by
  cases v with
  | string s =>
    obtain rfl := Option.some.inj scalar
    exact clean s (.string s)
  | int n =>
    obtain rfl := Option.some.inj scalar
    exact hasNoParens_of_isNumberChar (Number.isNumberChar_int n)
  | float x =>
    obtain rfl := Option.some.inj scalar
    exact hasNoParens_of_isNumberChar x.isNumberChar_text
  | bool x =>
    cases x <;>
      (obtain rfl := Option.some.inj scalar
       exact hasNoParens_of_isNumberChar (Number.isNumberChar_of_isAlphanum (by decide)))
  | null | seq | map | tagged => nomatch scalar

variable {parts : List Piece} {text before after : List Char}

/-- Where a character is found behind a text without it, it is found in what stands behind that text. -/
theorem exists_append_of_notMem {c : Char} {first rest : List Char} (clean : c ∉ first)
    (split : first ++ rest = before ++ c :: after) :
    ∃ between, before = first ++ between ∧ rest = between ++ c :: after := by
  rcases List.append_eq_append_iff.mp split with ⟨between, rfl, rest_eq⟩ | ⟨cut, first_eq, cut_eq⟩
  · exact ⟨between, rfl, rest_eq⟩
  · cases cut with
    | nil => exact ⟨[], by rw [first_eq, List.append_nil, List.append_nil], cut_eq.symm⟩
    | cons d cut =>
      obtain ⟨rfl, -⟩ := List.cons.inj cut_eq
      exact absurd (first_eq ▸ List.mem_append_right before List.mem_cons_self) clean

/-- A parenthesis in a text into which all values have been put is a character of the string. -/
theorem PiecesBecome.eq_append_of_paren {c : Char} (free : b.AreFreeOfParens)
    (stands : ∀ p : Placeholder, .placeholder p ∈ parts → ∃ v, StandsFor b p.name v)
    (become : PiecesBecome b parts text) (paren : c = '(' ∨ c = ')')
    (split : text = before ++ c :: after) :
    ∃ front back, parts = front ++ .char c :: back ∧ PiecesBecome b front before ∧
      PiecesBecome b back after := by
  induction become generalizing before with
  | nil => simp at split
  | @cons piece parts first rest head tail ih =>
    have later := fun p mem => stands p (List.mem_cons_of_mem _ mem)
    -- only a character can become a parenthesis
    cases head with
    | char d =>
      cases before with
      | nil =>
        obtain ⟨rfl, rfl⟩ := List.cons.inj split
        exact ⟨[], parts, rfl, .nil, tail⟩
      | cons e before =>
        obtain ⟨rfl, rest_eq⟩ := List.cons.inj split
        obtain ⟨front, back, rfl, front_becomes, back_becomes⟩ := ih later rest_eq
        exact ⟨.char d :: front, back, rfl, .cons (.char d) front_becomes, back_becomes⟩
    | @kept p unbound =>
      obtain ⟨v, found⟩ := stands p List.mem_cons_self
      exact absurd found (unbound v)
    | @replaced p v text found scalar =>
      have clean : HasNoParens text.toList := by
        refine hasNoParens_scalarText (fun s has => ?_) scalar
        obtain ⟨name, w, bound, inside⟩ := found.hasString has
        exact free name w bound s inside
      have not_inside : c ∉ text.toList := fun mem =>
        paren.elim (clean c mem).1 (clean c mem).2
      obtain ⟨between, rfl, rest_eq⟩ := exists_append_of_notMem not_inside split
      obtain ⟨front, back, rfl, front_becomes, back_becomes⟩ := ih later rest_eq
      exact ⟨.placeholder p :: front, back, rfl, .cons (.replaced found scalar) front_becomes,
        back_becomes⟩

/-- Characters become themselves. -/
theorem PiecesBecome.eq_written (become : PiecesBecome b parts text)
    (no_placeholder : ∀ p : Placeholder, .placeholder p ∉ parts) : text = parts.flatMap Piece.written := by
  induction become with
  | nil => rfl
  | @cons piece parts first rest head tail ih =>
    have rest_eq := ih fun p mem => no_placeholder p (List.mem_cons_of_mem _ mem)
    cases head with
    | char c => rw [List.flatMap_cons, ← rest_eq]; rfl
    | @kept p | @replaced p => exact absurd List.mem_cons_self (no_placeholder p)

/-- Pieces at the start of the same text with the same length are the same. -/
theorem Piece.eq_of_written_eq {front back others behind : List Piece}
    (same : front ++ back = others ++ behind)
    (written : front.flatMap Piece.written = others.flatMap Piece.written) : front = others := by
  rcases List.append_eq_append_iff.mp same with ⟨between, rfl, -⟩ | ⟨between, rfl, -⟩
  · rw [List.flatMap_append, List.self_eq_append_right] at written
    rw [Piece.eq_nil_of_flatMap_written written, List.append_nil]
  · rw [List.flatMap_append, eq_comm, List.self_eq_append_right] at written
    rw [Piece.eq_nil_of_flatMap_written written, List.append_nil]

/-- Where every placeholder is expected to have a value and no value has a parenthesis, a placeholder
    that is left in the result has its outer parentheses from one string of the tree, and between them
    at least one placeholder was replaced. -/
theorem left_placeholder_spans {t last : Value} {s : String} {p : Placeholder} {all_used : Bool}
    (free : b.AreFreeOfParens) (strict : interpolateChecked b ⟨true, all_used⟩ t = .ok last)
    (has : last.HasString s) (proper : p.IsProper) (left : s.toList = before ++ p.written ++ after) :
    ∃ source front inside back, t.HasString source ∧
      Piece.pieces source.toList = front ++ .char '(' :: (inside ++ .char ')' :: back) ∧
      PiecesBecome b front before ∧ PiecesBecome b inside ('(' :: (p.inner ++ [')'])) ∧
      PiecesBecome b back after ∧ ∃ q v, .placeholder q ∈ inside ∧ StandsFor b q.name v := by
  obtain ⟨usage, put, present, -⟩ := interpolateChecked_eq_ok.mp strict
  have nothing := (isEmpty_missing_iff put).mp (present rfl)
  have become : Becomes b t last := (Interpolation.tree_eq_ok_iff b t last .none).mp ⟨usage, put⟩
  obtain ⟨source, v, from_tree, become, inside⟩ := become.origin has
  -- a string with a parenthesis is no part of a value, and no scalar's text either
  have open_paren : '(' ∈ s.toList := by
    rw [left, Placeholder.written_eq]
    simp
  have stands : ∀ q : Placeholder, .placeholder q ∈ Piece.pieces source.toList →
      ∃ v, StandsFor b q.name v := fun q mem =>
    exists_standsFor nothing from_tree (Placeholder.standsIn_iff_mem_all.mpr (Placeholder.mem_all.mpr mem))
  cases become with
  | whole _ _ found =>
    -- the string is part of a value
    obtain ⟨name, w, bound, has⟩ := found.hasString inside
    exact absurd rfl (free name w bound s has '(' open_paren).1
  -- everything is resolved
  | @unresolved q q_proper only unbound =>
    have mem : .placeholder q ∈ Piece.pieces source.toList := by
      rw [Piece.pieces_eq_singleton_iff.mpr ⟨q_proper, only⟩]
      exact List.mem_singleton_self _
    obtain ⟨w, found⟩ := stands q mem
    exact absurd found (unbound w)
  | @within parts text more covers become =>
    obtain rfl := covers.eq_pieces
    obtain rfl := Value.hasString_string_iff.mp inside
    have opened : text = before ++ '(' :: ('(' :: (p.inner ++ [')']) ++ ')' :: after) := by
      rw [String.toList_ofList, Placeholder.written_eq] at left
      simpa using left
    -- both outer parentheses are characters of the string
    obtain ⟨front, behind, parts_eq, front_becomes, behind_becomes⟩ :=
      become.eq_append_of_paren free stands (.inl rfl) opened
    have behind_stands : ∀ q : Placeholder, .placeholder q ∈ behind → ∃ v, StandsFor b q.name v :=
      fun q mem => stands q (by rw [parts_eq]; exact List.mem_append_right _ (List.mem_cons_of_mem _ mem))
    obtain ⟨inside, back, rfl, inside_becomes, back_becomes⟩ :=
      behind_becomes.eq_append_of_paren free behind_stands (.inr rfl) rfl
    refine ⟨source, front, inside, back, from_tree, parts_eq, front_becomes, inside_becomes,
      back_becomes, ?_⟩
    refine Classical.byContradiction fun none_inside => ?_
    -- without a placeholder in between, the same one would stand in the string already
    have only_chars : ∀ q : Placeholder, .placeholder q ∉ inside := by
      intro q mem
      obtain ⟨w, found⟩ := behind_stands q (List.mem_append_left _ mem)
      exact none_inside ⟨q, w, mem, found⟩
    have inside_eq := inside_becomes.eq_written only_chars
    have covers := Piece.covers_pieces source.toList
    have there : source.toList =
        front.flatMap Piece.written ++ p.written ++ back.flatMap Piece.written := by
      rw [← covers.whole, parts_eq, Placeholder.written_eq]
      simp only [List.flatMap_append, List.flatMap_cons, ← inside_eq, Piece.written]
      simp
    obtain ⟨others, behind, same, others_eq, -⟩ := covers.every _ p _ proper there
    have heads := same.symm.trans parts_eq
    obtain rfl := Piece.eq_of_written_eq heads others_eq
    have first := (List.cons.inj (List.append_cancel_left heads)).1
    cases first

/-! ## A placeholder that comes about -/

/-- The only value of the table has no parentheses. -/
theorem areFreeOfParens_foo : Bindings.AreFreeOfParens [.single "a" (.string "foo")] := by
  intro name v bound s has
  have bound := Bindings.binds_singleton_iff.mp bound
  have only : v = .string "foo" := by
    have entries : (Table.single "a" (Value.string "foo")).entries = [("a", .string "foo")] := rfl
    unfold Table.get? at bound
    rw [entries, List.lookup_cons] at bound
    split at bound
    · exact (Option.some.inj bound).symm
    · nomatch bound
  subst only
  obtain rfl := Value.hasString_string_iff.mp has
  exact hasNoParens_of_isNumberChar (Number.isNumberChar_of_isAlphanum (by decide))

theorem isProper_xfooy : (⟨false, "xfooy".toList⟩ : Placeholder).IsProper where
  nonempty := by decide
  named := List.all_eq_true.mp (by decide +kernel)

/-- What is put in for a placeholder can complete another one around it. -/
theorem not_forall_nothing_left :
    ¬ ∀ (b : Bindings) (t last : Value), b.AreFreeOfParens →
      interpolateChecked b ⟨true, false⟩ t = .ok last → ∀ s, last.HasString s →
        ∀ (p : Placeholder) (before after : List Char), p.IsProper →
          s.toList ≠ before ++ p.written ++ after := by
  intro nothing_left
  have put : interpolateChecked [.single "a" (.string "foo")] ⟨true, false⟩ (.string "((x((a))y))") =
      .ok (.string "((xfooy))") := rfl
  exact nothing_left _ _ _ areFreeOfParens_foo put _ (.string _) ⟨false, "xfooy".toList⟩ [] []
    isProper_xfooy (by decide +kernel)

/-- Between its outer parentheses the placeholder `((a))` was replaced. -/
theorem left_placeholder_xfooy :
    (Bindings.AreFreeOfParens [.single "a" (.string "foo")] ∧
      interpolateChecked [.single "a" (.string "foo")] ⟨true, false⟩ (.string "((x((a))y))") =
        .ok (.string "((xfooy))") ∧
      (Value.string "((xfooy))").HasString "((xfooy))" ∧
      (⟨false, "xfooy".toList⟩ : Placeholder).IsProper ∧
      "((xfooy))".toList = [] ++ (⟨false, "xfooy".toList⟩ : Placeholder).written ++ []) ∧
    ∃ source front inside back, (Value.string "((x((a))y))").HasString source ∧
      Piece.pieces source.toList = front ++ .char '(' :: (inside ++ .char ')' :: back) ∧
      PiecesBecome [.single "a" (.string "foo")] front [] ∧
      PiecesBecome [.single "a" (.string "foo")] inside ('(' :: ("xfooy".toList ++ [')'])) ∧
      PiecesBecome [.single "a" (.string "foo")] back [] ∧
      ∃ q v, .placeholder q ∈ inside ∧ StandsFor [.single "a" (.string "foo")] q.name v := by
  have put : interpolateChecked [.single "a" (.string "foo")] ⟨true, false⟩ (.string "((x((a))y))") =
      .ok (.string "((xfooy))") := rfl
  have left : "((xfooy))".toList = [] ++ (⟨false, "xfooy".toList⟩ : Placeholder).written ++ [] := by
    decide +kernel
  exact ⟨⟨areFreeOfParens_foo, put, .string _, isProper_xfooy, left⟩,
    left_placeholder_spans areFreeOfParens_foo put (.string _) isProper_xfooy left⟩

end DeployManifest
