import DeployManifest.Proofs.QuotedReading

/-!
# Plain texts read back

A text that is written without quotes is read back as it was.  A plain scalar has no closing mark:
on the line of a key it ends at the colon, and elsewhere it ends only where the next line turns out
not to belong to it, or where there is no next line.

- `PlainReading`: what holds in the midst of a plain text.
- `run_space`, `run_other`: reading a space, which may turn out to be the end of the text, and any other
  character.
- `plainFrom_colon`, `plainFrom_lineEnd`: where a plain text ends.
- `readPlain?_key`, `readPlain?_line`: a text that fits is read, as a key and on a line of its own.
-/

namespace DeployManifest.Yaml

variable {p : Place} {rest text : List Char} {gap : Gap} {indent : Int} {fuel : Nat}

/-- What holds while the rest `cs` of a text is read that is written without quotes.  `before` stands
    in front of it. -/
structure PlainReading (indent : Int) (rest : List Char) (p : Place) (gap : Gap) (before : Char)
    (cs : List Char) : Prop where
  no_break : ∀ c ∈ cs, isBreak c = false
  no_tab : ∀ c ∈ cs, c ≠ '\t'
  no_indicator : hasInnerIndicator before cs = false
  no_space_end : cs.getLast?.any isSpace = false
  whole : gap.isBroken = false
  near : indent ≤ p.column + 1
  blank : gap.isNothing = false → isGap [before] = true ∧ indent ≤ p.column ∧ p.column ≠ 0 ∧ cs ≠ []
  here : p.rest = cs ++ rest

namespace PlainReading

variable {before c : Char} {more : List Char}

theorem isBlank_iff (r : PlainReading indent rest p gap before (c :: more)) :
    isBlank c = true ↔ c = ' ' := by
  simp [isBlank, r.no_tab c (by simp)]

/-- What remains of the conditions once a character has been read. -/
theorem next (r : PlainReading indent rest p gap before (c :: more)) {gap' : Gap}
    (whole : gap'.isBroken = false)
    (blank : gap'.isNothing = false → isGap [c] = true ∧ more ≠ []) :
    PlainReading indent rest (p.behind [c]) gap' c more := by
  have here : p.rest = [c] ++ (more ++ rest) := r.here
  have moved : p.behind [c] = ⟨more ++ rest, p.index + bytes [c], p.line, p.column + 1⟩ :=
    Place.behind_eq_of_no_break (w := [c]) (by simpa using r.no_break c (by simp)) here
  have near := r.near
  have no_indicator := r.no_indicator
  simp only [hasInnerIndicator, Bool.or_eq_false_iff] at no_indicator
  -- all conditions but the one on gaps are those of the character, moved on by one column
  exact {
    no_break := fun d mem => r.no_break d (by simp [mem])
    no_tab := fun d mem => r.no_tab d (by simp [mem])
    no_indicator := no_indicator.2
    no_space_end := by
      have := r.no_space_end
      cases more with
      | nil => rfl
      | cons d more => rwa [List.getLast?_cons_cons] at this
    whole
    near := by
      rw [moved]
      push_cast
      omega
    blank := fun h => by
      obtain ⟨gap_before, nonempty⟩ := blank h
      rw [moved]
      refine ⟨gap_before, ?_, Nat.succ_ne_zero _, nonempty⟩
      push_cast
      omega
    here := Place.rest_behind_eq here }

/-- A space is kept back until something follows. -/
theorem run_space (r : PlainReading indent rest p gap before (' ' :: more)) :
    PlainReading indent rest (p.behind [' ']) (gap.blank ' ') ' ' more ∧
      ∀ fuel text, plainFrom false indent (fuel + 1) p gap text =
        plainFrom false indent fuel (p.behind [' ']) (gap.blank ' ') text := by
  refine ⟨r.next (by rw [Gap.isBroken_blank, r.whole]) fun _ => ⟨by decide, ?_⟩, fun fuel text => ?_⟩
  · rintro rfl
    exact absurd r.no_space_end (by decide)
  · rw [plainFrom, Place.readBreak?_eq_none r.here (by decide)]
    have moved : p.behind [' '] = p.advance 1 := Place.behind_singleton (by decide)
    simp [r.here, r.whole, isBlank, moved]

/-- Any other character is read behind the spaces that have been kept back. -/
theorem run_other (r : PlainReading indent rest p gap before (c :: more)) (no_space : c ≠ ' ') :
    PlainReading indent rest (p.behind [c]) .nothing c more ∧
      ∀ fuel text, plainFrom false indent (fuel + 1) p gap text =
        plainFrom false indent fuel (p.behind [c]) .nothing
          (c :: (gap.joined.reverse ++ text)) := by
  refine ⟨r.next rfl (fun h => absurd h (by decide)), fun fuel text => ?_⟩
  have no_break := r.no_break c (by simp)
  have no_blank : isBlank c = false := by
    rw [← Bool.not_eq_true, r.isBlank_iff]
    exact no_space
  have no_indicator := r.no_indicator
  simp only [hasInnerIndicator, Bool.or_eq_false_iff, Bool.and_eq_false_iff,
    decide_eq_false_iff_not] at no_indicator
  -- behind a gap the text must still be on the lines of its block, and no comment may start
  have goes_on (something : gap.isNothing = false) : indent ≤ p.column ∧ p.column ≠ 0 ∧ c ≠ '#' := by
    obtain ⟨gap_before, inside, column_ne, -⟩ := r.blank something
    refine ⟨inside, column_ne, ?_⟩
    rcases no_indicator.1.2 with h | h
    · exact h
    · rw [gap_before] at h
      exact absurd h (by decide)
  have no_end : endsPlain false c (more ++ rest) = false := by
    simp only [endsPlain, Bool.false_and, Bool.or_false, Bool.and_eq_false_iff, beq_eq_false_iff_ne]
    rcases no_indicator.1.1 with h | h
    · exact .inl h
    · right
      cases more with
      | nil => exact absurd h (by decide)
      | cons d more =>
        simp only [isGap, Bool.or_eq_false_iff] at h
        simp [atGap, h.1.1, h.1.2]
  rw [plainFrom, Place.readBreak?_eq_none r.here no_break]
  have moved : p.behind [c] = p.advance 1 := Place.behind_singleton no_break
  have here : p.rest = c :: (more ++ rest) := r.here
  cases nothing : gap.isNothing with
  | true => simp [here, no_blank, no_end, isStrayColon, moved]
  | false =>
    obtain ⟨inside, column_ne, no_comment⟩ := goes_on nothing
    simp [here, no_blank, no_end, isStrayColon, moved, Int.not_lt.mpr inside, column_ne, no_comment]

/-- All characters of the text are read. -/
theorem plainFrom_eq {cs : List Char} (r : PlainReading indent rest p gap before cs) :
    ∀ fuel text, plainFrom false indent (fuel + cs.length) p gap text =
      plainFrom false indent fuel (p.behind cs) .nothing
        (cs.reverse ++ (gap.joined.reverse ++ text)) := by
  induction cs generalizing p gap before with
  | nil =>
    intro fuel text
    -- at the end of the text no space can be kept back
    have nothing : gap = .nothing := by
      cases gap with
      | nothing => rfl
      | blanks _ => exact absurd rfl (r.blank rfl).2.2.2
      | breaks _ _ => exact absurd rfl (r.blank rfl).2.2.2
    simp [nothing, Gap.joined]
  | cons c more ih =>
    intro fuel text
    rw [List.length_cons, ← Nat.add_assoc, Place.behind_cons]
    by_cases space : c = ' '
    · subst space
      obtain ⟨next, step⟩ := r.run_space
      rw [step, ih next, Gap.joined_blank ' ' r.whole]
      simp
    · obtain ⟨next, step⟩ := r.run_other space
      rw [step, ih next]
      simp [Gap.joined]

end PlainReading

/-! ## Where a plain text ends -/

/-- On the line of a key, in front of the colon. -/
theorem plainFrom_colon (here : p.rest = ':' :: rest) (gap_next : atGap rest = true) :
    plainFrom false indent (fuel + 1) p .nothing text = some ⟨text.reverse, p, false⟩ := by
  rw [plainFrom, Place.readBreak?_eq_none here (by decide)]
  simp [here, isBlank, Gap.isNothing, isStrayColon, endsPlain, gap_next, PlainEnd.behind,
    Gap.isBroken]

/-- What stands behind a line break, or behind it and some indentation. -/
theorem plainFrom_breaks {first? : Option Char} {later : List Char} (n : Nat)
    (shallow : rest ≠ [] → (p.column + n : Int) < indent) (here : p.rest = spaces n ++ rest)
    (next : ∀ c ∈ rest.head?, isBlank c = false ∧ isBreak c = false) :
    plainFrom false indent (fuel + n + 1) p (.breaks first? later) text =
      some ⟨text.reverse, p.behind (spaces n), true⟩ := by
  -- the spaces are skipped one by one, up to a character that is not deep enough to go on with
  induction n generalizing p with
  | zero =>
    cases rest with
    | nil =>
      have empty : p.rest = [] := here
      rw [plainFrom, Place.readBreak?_eq_none_of_end empty]
      simp [empty, PlainEnd.behind, Gap.isBroken, spaces]
    | cons c more =>
      obtain ⟨no_blank, no_break⟩ := next c rfl
      have first : p.rest = c :: more := here
      have shallow : (p.column : Int) < indent := by simpa using shallow
      rw [plainFrom, Place.readBreak?_eq_none first no_break]
      simp [first, no_blank, shallow, PlainEnd.behind, Gap.isBroken, Gap.isNothing, spaces]
  | succ n ih =>
    have space : p.rest = ' ' :: (spaces n ++ rest) := here
    have moved : p.behind [' '] = p.advance 1 := Place.behind_singleton (by decide)
    have column : (p.behind [' ']).column = p.column + 1 := by
      rw [moved]
      rfl
    rw [plainFrom, Place.readBreak?_eq_none space (by decide)]
    have later := ih (p := p.behind [' ']) (fun more => by
        have shallow := shallow more
        rw [column]
        push_cast at shallow ⊢
        omega)
      (Place.rest_behind_eq (w := [' ']) here)
    rw [← Place.behind_append, moved, show [' '] ++ spaces n = spaces (n + 1) from rfl] at later
    simpa [space, isBlank, Gap.blank, ← Nat.add_assoc] using later

/-- At the end of a line, where the next one belongs to a collection around the text. -/
theorem plainFrom_lineEnd (n : Nat) (shallow : rest ≠ [] → (n : Int) < indent)
    (here : p.rest = '\n' :: (spaces n ++ rest))
    (next : ∀ c ∈ rest.head?, isBlank c = false ∧ isBreak c = false) :
    plainFrom false indent (fuel + n + 2) p .nothing text =
      some ⟨text.reverse, p.behind ('\n' :: spaces n), true⟩ := by
  have column : (p.behind ['\n']).column = 0 := by simp [Place.behind, isBreak]
  rw [plainFrom, Place.readBreak?_eq_some here (by decide) (by decide), Place.behind_cons (spaces n)]
  exact plainFrom_breaks n (by rw [column]; simpa using shallow)
    (Place.rest_behind_eq (w := ['\n']) here) next

/-! ## Texts that fit -/

/-- A text that fits can be read from its start. -/
theorem plainReading_of_fitsPlain (fits : fitsPlain text = true) (near : indent ≤ p.column + 1)
    (here : p.rest = text ++ rest) : PlainReading indent rest p .nothing ':' text := by
  simp only [fitsPlain, fitsSingleQuotes, Bool.and_eq_true, Bool.not_eq_true',
    List.all_eq_true] at fits
  -- the conditions that a plain text fits are those of the invariant
  obtain ⟨⟨⟨⟨⟨⟨⟨⟨printable, -⟩, -⟩, no_break⟩, -⟩, no_space_end⟩, -⟩, opens⟩, inner⟩ := fits
  exact {
    no_break := by simpa using no_break
    no_tab := fun c mem tab => absurd (printable c mem) (by rw [tab]; decide)
    no_indicator := by
      cases text with
      | nil => rfl
      | cons c more =>
        have later : hasInnerIndicator c more = false := by simpa using inner
        have colon : c = ':' → isGap more = false := by
          rintro rfl
          simp only [opensWithIndicator, Bool.or_eq_false_iff] at opens
          simpa using opens.2
        have no_gap : isGap [':'] = false := by decide
        by_cases h : c = ':' <;> simp_all [hasInnerIndicator]
    no_space_end
    whole := rfl
    near
    blank := fun h => absurd h (by decide)
    here }

/-- A plain text in front of the colon of a key is read back. -/
theorem readPlain?_key (fits : fitsPlain text = true) (near : indent ≤ p.column + 1)
    (here : p.rest = text ++ ':' :: rest) (gap_next : atGap rest = true) :
    readPlain? false indent p = some ⟨text, p.behind text, false⟩ := by
  have r := plainReading_of_fitsPlain fits near here
  have length : p.rest.length + 1 = rest.length + 1 + 1 + text.length := by
    simp [here]
    omega
  rw [readPlain?, length, r.plainFrom_eq, plainFrom_colon (Place.rest_behind_eq here) gap_next]
  simp [Gap.joined]

/-- A plain text at the end of a line is read back, and so is the indentation of the next line. -/
theorem readPlain?_line (fits : fitsPlain text = true) (near : indent ≤ p.column + 1) (n : Nat)
    (shallow : rest ≠ [] → (n : Int) < indent) (here : p.rest = text ++ '\n' :: (spaces n ++ rest))
    (next : ∀ c ∈ rest.head?, isBlank c = false ∧ isBreak c = false) :
    readPlain? false indent p = some ⟨text, p.behind (text ++ '\n' :: spaces n), true⟩ := by
  have r := plainReading_of_fitsPlain fits near here
  have length : p.rest.length + 1 = rest.length + n + 2 + text.length := by
    simp [here, spaces]
    omega
  rw [readPlain?, length, r.plainFrom_eq, Nat.add_assoc _ n,
    ← Nat.add_assoc, plainFrom_lineEnd n shallow (Place.rest_behind_eq here) next,
    Place.behind_append]
  simp [Gap.joined]

end DeployManifest.Yaml
