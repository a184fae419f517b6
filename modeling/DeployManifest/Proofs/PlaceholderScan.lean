import DeployManifest.Variables.Placeholder

/-!
# Where placeholders stand

A text starts with a placeholder just if the placeholder is written there (`first?_eq_some_iff`).
Behind its two opening parentheses a placeholder holds no further one, so no two placeholders overlap.
The search from the left, which goes on behind each placeholder that it finds, therefore finds every
placeholder that stands anywhere in the text.

`Piece.Covers` says this of a list of pieces.  A text is covered by its pieces (`covers_pieces`) and by
no other list (`Covers.eq_pieces`).

- `Placeholder.IsProper`: what can be written between the parentheses.
- `Placeholder.IsProper.no_opening`, `Placeholder.exists_append_of_append_eq`: placeholders do not overlap.
- `Piece.Cuts`: the steps of the search, as a relation.
- `Piece.pieces_eq_singleton_iff`: the texts that are a placeholder as a whole.
-/

namespace DeployManifest

namespace Placeholder

variable {p q : Placeholder} {text before after rest : List Char}

/-- Whether a placeholder can be found in a text: its name is a row of name characters. -/
structure IsProper (p : Placeholder) : Prop where
  nonempty : p.name ≠ []
  named : ∀ c ∈ p.name, isNameChar c = true

/-- Behind two opening parentheses, a placeholder is found just if its name ends at two closing ones. -/
theorem closed?_eq_some_iff {marked : Bool} :
    closed? marked text = some p ↔
      p.IsProper ∧ p.marked = marked ∧ ∃ rest, text = p.name ++ ')' :: ')' :: rest := by
  constructor
  · intro found
    -- what is found was cut off the text as the longest row of name characters
    refine ⟨?_, written_of_closed? found⟩
    unfold closed? at found
    dsimp only at found
    split at found
    · next c more _ name_eq _ =>
      obtain rfl := Option.some.inj found
      refine ⟨fun nothing => ?_, fun c mem => List.all_eq_true.mp List.all_takeWhile c mem⟩
      exact List.cons_ne_nil c more (name_eq ▸ nothing)
    · nomatch found
  · rintro ⟨proper, rfl, rest, rfl⟩
    -- the closing parentheses are no name characters, so the row ends with the name
    have name_eq : (p.name ++ ')' :: ')' :: rest).takeWhile isNameChar = p.name := by
      rw [List.takeWhile_append_of_pos proper.named, List.takeWhile_cons_of_neg (by decide),
        List.append_nil]
    obtain ⟨c, more, cons⟩ := List.exists_cons_of_ne_nil proper.nonempty
    unfold closed?
    simp only [name_eq, List.drop_left]
    split
    · rfl
    · next other => exact absurd rfl (other c more rest cons)

/-- The name of a placeholder does not start with an exclamation mark. -/
theorem IsProper.name_ne (proper : p.IsProper) {more : List Char} : p.name ≠ '!' :: more := by
  intro same
  have mark : isNameChar '!' = true := proper.named '!' (same ▸ List.mem_cons_self)
  exact absurd mark (by decide)

/-- A text starts with a placeholder just if one is written there. -/
theorem first?_eq_some_iff : first? text = some p ↔ p.IsProper ∧ ∃ rest, text = p.written ++ rest := by
  constructor
  · intro found
    refine ⟨?_, eq_written_append_of_first? found⟩
    unfold first? at found
    split at found
    · exact (closed?_eq_some_iff.mp found).1
    · exact (closed?_eq_some_iff.mp found).1
    · nomatch found
  · rintro ⟨proper, rest, rfl⟩
    obtain ⟨marked, name⟩ := p
    cases marked with
    | true => exact closed?_eq_some_iff.mpr ⟨proper, rfl, rest, by simp⟩
    | false =>
      obtain ⟨c, more, rfl⟩ := List.exists_cons_of_ne_nil proper.nonempty
      unfold first?
      split
      -- an unmarked placeholder is not taken for a marked one
      · next tail same =>
        have inside := (List.cons.inj (List.cons.inj same).2).2
        obtain rfl : c = '!' := (List.cons.inj inside).1
        exact absurd rfl proper.name_ne
      · next tail _ same =>
        have inside := (List.cons.inj (List.cons.inj same).2).2
        refine closed?_eq_some_iff.mpr ⟨proper, rfl, rest, ?_⟩
        rw [← inside]
        simp [inner]
      · next other => exact absurd rfl (other _)

/-- Between the opening parentheses of a placeholder and its end there is none that opens. -/
theorem IsProper.no_opening (proper : p.IsProper) : '(' ∉ p.inner ++ [')', ')'] := by
  have not_named : '(' ∉ p.name := fun mem => absurd (proper.named '(' mem) (by decide)
  unfold inner
  cases p.marked <;> simp [not_named]

theorem written_eq (p : Placeholder) : p.written = '(' :: '(' :: (p.inner ++ [')', ')']) := by
  simp [written]

/-- A placeholder that stands behind the start of another one stands behind its end. -/
theorem exists_append_of_append_eq (proper : p.IsProper)
    (same : p.written ++ rest = before ++ q.written ++ after) (behind : before ≠ []) :
    ∃ between, before = p.written ++ between ∧ rest = between ++ q.written ++ after := by
  have no_opening := proper.no_opening
  rw [written_eq p, written_eq q] at same
  match before, behind with
  | [c], _ =>
    -- the second parenthesis of the first one is the first of the other, which has another behind it
    have second : p.inner ++ [')', ')'] ++ rest = '(' :: (q.inner ++ [')', ')'] ++ after) := by
      simp only [List.cons_append, List.nil_append, List.cons.injEq] at same
      exact same.2.2
    cases starts : p.inner ++ [')', ')'] with
    | nil => simp at starts
    | cons d more =>
      rw [starts] at second no_opening
      obtain rfl : d = '(' := (List.cons.inj second).1
      exact absurd List.mem_cons_self no_opening
  | c :: d :: more, _ =>
    have inside : p.inner ++ [')', ')'] ++ rest =
        more ++ '(' :: ('(' :: (q.inner ++ [')', ')']) ++ after) := by
      simp only [List.cons_append, List.append_assoc, List.cons.injEq] at same ⊢
      exact same.2.2
    obtain ⟨rfl, rfl⟩ : c = '(' ∧ d = '(' := by
      simp only [List.cons_append, List.cons.injEq] at same
      exact ⟨same.1.symm, same.2.1.symm⟩
    -- either the first one has ended where the other starts, or a parenthesis opens inside of it
    rcases List.append_eq_append_iff.mp inside with ⟨between, more_eq, rest_eq⟩ | ⟨cut, inner_eq, cut_eq⟩
    · exact ⟨between, by rw [written_eq, more_eq]; rfl, by rw [rest_eq, written_eq q]; simp⟩
    · cases cut with
      | nil => exact ⟨[], by rw [written_eq, inner_eq]; simp, by rw [written_eq q]; simpa using cut_eq.symm⟩
      | cons e cut =>
        obtain rfl : '(' = e := (List.cons.inj cut_eq).1
        exact absurd (inner_eq ▸ List.mem_append_right more List.mem_cons_self) no_opening

end Placeholder

namespace Piece

open Placeholder (IsProper first?)

variable {p : Placeholder} {text rest : List Char} {parts : List Piece} {c : Char}

/-- No piece is empty. -/
theorem written_ne_nil (piece : Piece) : piece.written ≠ [] := by
  cases piece <;> simp [written, Placeholder.written]

/-- So only the empty text has no pieces. -/
theorem eq_nil_of_flatMap_written (nothing : parts.flatMap written = []) : parts = [] := by
  cases parts with
  | nil => rfl
  | cons piece more =>
    rw [List.flatMap_cons, List.append_eq_nil_iff] at nothing
    exact absurd nothing.1 piece.written_ne_nil

/-! ## The pieces of a text, from the left -/

/-- What is skipped belongs to a piece already. -/
theorem piecesFrom_eq (skip : Nat) (text : List Char) : piecesFrom skip text = pieces (text.drop skip) := by
  induction text generalizing skip with
  | nil => cases skip <;> rfl
  | cons c rest ih =>
    cases skip with
    | zero => rfl
    | succ skip => exact ih skip

/-- A placeholder at the start is the first piece, and the others are those of what stands behind it. -/
theorem pieces_placeholder (proper : p.IsProper) (rest : List Char) :
    pieces (p.written ++ rest) = .placeholder p :: pieces rest := by
  have found : first? (p.written ++ rest) = some p :=
    Placeholder.first?_eq_some_iff.mpr ⟨proper, rest, rfl⟩
  rw [Placeholder.written_eq] at found ⊢
  change piecesFrom 0 _ = _
  rw [List.cons_append, piecesFrom, ← List.cons_append, found]
  simp only [piecesFrom_eq]
  rw [Placeholder.written_eq]
  simp

/-- A character that no placeholder starts with is a piece of its own. -/
theorem pieces_char (none_here : first? (c :: rest) = none) :
    pieces (c :: rest) = .char c :: pieces rest := by
  change piecesFrom 0 _ = _
  rw [piecesFrom, none_here]
  rfl

/-- Cuts a text as the search from the left does. -/
inductive Cuts : List Char → List Piece → Prop where
  | nil : Cuts [] []
  | placeholder {p : Placeholder} {rest : List Char} {parts : List Piece} (proper : p.IsProper)
    (cuts : Cuts rest parts) : Cuts (p.written ++ rest) (.placeholder p :: parts)
  | char {c : Char} {rest : List Char} {parts : List Piece} (none_here : first? (c :: rest) = none)
    (cuts : Cuts rest parts) : Cuts (c :: rest) (.char c :: parts)

/-- The search cuts a text as `Cuts` says, step by step. -/
theorem cuts_pieces (text : List Char) : Cuts text (pieces text) := by
  -- a placeholder takes several characters at once, so the induction is on the length
  induction size : text.length using Nat.strongRecOn generalizing text with
  | ind n ih =>
    subst size
    cases text with
    | nil => exact .nil
    | cons c rest =>
      cases found : first? (c :: rest) with
      | none =>
        rw [pieces_char found]
        exact .char found (ih rest.length (by simp) rest rfl)
      | some p =>
        obtain ⟨proper, behind, split⟩ := Placeholder.first?_eq_some_iff.mp found
        have shorter : behind.length < (c :: rest).length := by
          rw [split, Placeholder.written_eq]
          simp
          omega
        rw [split, pieces_placeholder proper]
        exact .placeholder proper (ih _ shorter behind rfl)

/-! ## All placeholders -/

/-- Whether the pieces make up a text and every placeholder that stands in the text is one of them. -/
structure Covers (parts : List Piece) (text : List Char) : Prop where
  whole : parts.flatMap written = text
  proper : ∀ p, .placeholder p ∈ parts → p.IsProper
  every : ∀ before p after, p.IsProper → text = before ++ p.written ++ after →
    ∃ front back, parts = front ++ .placeholder p :: back ∧ front.flatMap written = before ∧
      back.flatMap written = after

/-- Whatever is cut in this way covers the text: no placeholder is missed, for none starts inside of another
    one. -/
theorem Cuts.covers (cuts : Cuts text parts) : Covers parts text := by
  induction cuts with
  | nil =>
    refine ⟨rfl, nofun, fun before p after _ split => ?_⟩
    simp [Placeholder.written_eq] at split
  | @placeholder q rest parts proper _ ih =>
    refine ⟨by rw [List.flatMap_cons, ih.whole]; rfl, fun p mem => ?_, fun before p after p_proper split => ?_⟩
    · rcases List.mem_cons.mp mem with same | mem
      · exact Piece.placeholder.inj same ▸ proper
      · exact ih.proper p mem
    -- a placeholder at the start is the one that was found; any other stands behind its end
    · by_cases at_start : before = []
      · subst at_start
        have same : some q = some p := by
          rw [← Placeholder.first?_eq_some_iff.mpr ⟨proper, rest, rfl⟩, split]
          exact Placeholder.first?_eq_some_iff.mpr ⟨p_proper, after, rfl⟩
        obtain rfl := Option.some.inj same
        refine ⟨[], parts, rfl, rfl, ?_⟩
        rw [ih.whole]
        exact List.append_cancel_left split
      · obtain ⟨between, rfl, rest_eq⟩ := Placeholder.exists_append_of_append_eq proper split at_start
        obtain ⟨front, back, rfl, front_eq, back_eq⟩ := ih.every between p after p_proper rest_eq
        exact ⟨.placeholder q :: front, back, rfl, by rw [List.flatMap_cons, front_eq]; rfl, back_eq⟩
  | @char c rest parts none_here _ ih =>
    refine ⟨by rw [List.flatMap_cons, ih.whole]; rfl, fun p mem => ?_, fun before p after p_proper split => ?_⟩
    · rcases List.mem_cons.mp mem with same | mem
      · nomatch same
      · exact ih.proper p mem
    · cases before with
      | nil =>
        have found := Placeholder.first?_eq_some_iff.mpr ⟨p_proper, after, split⟩
        rw [none_here] at found
        nomatch found
      | cons d before =>
        obtain ⟨rfl, rest_eq⟩ := List.cons.inj split
        obtain ⟨front, back, rfl, front_eq, back_eq⟩ := ih.every before p after p_proper rest_eq
        exact ⟨.char c :: front, back, rfl, by rw [List.flatMap_cons, front_eq]; rfl, back_eq⟩

/-- The search from the left finds every placeholder in a text. -/
theorem covers_pieces (text : List Char) : Covers (pieces text) text := (cuts_pieces text).covers

/-- What covers a text starts with the placeholder that the text starts with. -/
theorem Covers.eq_placeholder (covers : Covers parts (p.written ++ rest)) (proper : p.IsProper) :
    ∃ more, parts = .placeholder p :: more ∧ Covers more rest := by
  obtain ⟨front, more, rfl, nothing, rest_eq⟩ := covers.every [] p rest proper rfl
  obtain rfl := eq_nil_of_flatMap_written nothing
  refine ⟨more, rfl, rest_eq, fun q mem => covers.proper q (List.mem_cons_of_mem _ mem), ?_⟩
  intro before q after q_proper split
  -- an occurrence in the rest is one in the whole text, and not the first
  obtain ⟨front, back, parts_eq, front_eq, back_eq⟩ :=
    covers.every (p.written ++ before) q after q_proper (by rw [split]; simp)
  cases front with
  | nil =>
    rw [List.flatMap_nil] at front_eq
    exact absurd (List.append_eq_nil_iff.mp front_eq.symm).1 (written_ne_nil (.placeholder p))
  | cons first front =>
    obtain ⟨rfl, more_eq⟩ := List.cons.inj parts_eq
    exact ⟨front, back, more_eq, List.append_cancel_left front_eq, back_eq⟩

/-- What covers a text starts with a character if the text starts with no placeholder. -/
theorem Covers.eq_char (covers : Covers parts (c :: rest)) (none_here : first? (c :: rest) = none) :
    ∃ more, parts = .char c :: more ∧ Covers more rest := by
  cases parts with
  | nil => nomatch covers.whole
  | cons piece more =>
    cases piece with
    | placeholder p =>
      -- a first piece that is a placeholder would be found at the start
      have found := Placeholder.first?_eq_some_iff.mpr
        ⟨covers.proper p List.mem_cons_self, more.flatMap written, covers.whole.symm⟩
      rw [none_here] at found
      nomatch found
    | char d =>
      obtain ⟨rfl, rest_eq⟩ := List.cons.inj (covers.whole : d :: more.flatMap written = c :: rest)
      refine ⟨more, rfl, rest_eq, fun q mem => covers.proper q (List.mem_cons_of_mem _ mem), ?_⟩
      intro before q after q_proper split
      obtain ⟨front, back, parts_eq, front_eq, back_eq⟩ :=
        covers.every (d :: before) q after q_proper (by rw [split]; rfl)
      cases front with
      | nil => nomatch front_eq
      | cons first front =>
        obtain ⟨rfl, more_eq⟩ := List.cons.inj parts_eq
        exact ⟨front, back, more_eq, (List.cons.inj front_eq).2, back_eq⟩

/-- There is one way only to cover a text. -/
theorem Covers.eq_pieces (covers : Covers parts text) : parts = pieces text := by
  have cuts := cuts_pieces text
  -- the cuts show which piece comes next, whatever the other list is
  generalize pieces text = others at cuts
  induction cuts generalizing parts with
  | nil => exact eq_nil_of_flatMap_written covers.whole
  | placeholder proper _ ih =>
    obtain ⟨more, rfl, later⟩ := covers.eq_placeholder proper
    rw [ih later]
  | char none_here _ ih =>
    obtain ⟨more, rfl, later⟩ := covers.eq_char none_here
    rw [ih later]

/-- A text is nothing but a placeholder just if the placeholder is its only piece. -/
theorem pieces_eq_singleton_iff : pieces text = [.placeholder p] ↔ p.IsProper ∧ text = p.written := by
  constructor
  · intro only
    have covers := covers_pieces text
    rw [only] at covers
    exact ⟨covers.proper p List.mem_cons_self, by simpa [written] using covers.whole.symm⟩
  · rintro ⟨proper, rfl⟩
    have cut := pieces_placeholder proper []
    rwa [List.append_nil] at cut

end Piece
end DeployManifest
