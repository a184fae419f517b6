import DeployManifest.Proofs.Places
import DeployManifest.Yaml.Token.Quoted

/-!
# Quoted texts read back

A text that is written between quotes is read back as it was, and the reader stops right behind the
closing quote.

- `Gap.Allows`: white space that has been read, and what may follow it in a printed text.
- `SingleQuoting`, `SingleQuoting.Step`: what holds in the midst of a text between single quotes, and what a
  character of it comes to.
- `exists_step`: there is such a step for each character, be it a break, a space, a quote or anything else.
- `Escaped`, `escaped_spec`: the ways in which a character is written between double quotes.
- `readQuoted?_single`, `readQuoted?_double`: a quoted text is read as it was.
-/

namespace DeployManifest.Yaml

variable {p : Place} {rest text : List Char} {gap : Gap} {column fuel : Nat}

/-! ## White space in the middle -/

/-- What white space may go on with: printed texts have no blank beside a break, and no line feed
    between quotes. -/
def Gap.Allows : Gap → List Char → Prop
  | .nothing, _ => True
  | .blanks _, more => more.head?.any isBreak = false
  | .breaks first? _, more =>
    (∃ c, first? = some c ∧ c ≠ '\n') ∧ more.head?.any isSpace = false

/-- A break is read as it is written, as there is no line feed between quotes. -/
theorem Gap.joined_lineBreak {c : Char} {more : List Char} (allows : gap.Allows (c :: more))
    (breaks : isBreak c = true) (no_feed : c ≠ '\n') :
    (gap.lineBreak c).joined = gap.joined ++ [c] := by
  match gap, allows with
  | .nothing, _ => simp [lineBreak, joined, no_feed]
  | .blanks _, no_break => simp [breaks, Allows] at no_break
  | .breaks _ later, ⟨⟨d, rfl, d_ne⟩, _⟩ => simp [lineBreak, joined, d_ne]

/-- A blank is read as it is written, unless it indents a line. -/
theorem Gap.joined_blank (c : Char) (whole : gap.isBroken = false) :
    (gap.blank c).joined = gap.joined ++ [c] := by
  cases gap with
  | nothing => rfl
  | blanks _ => rfl
  | breaks _ _ => simp [isBroken] at whole

/-- Without pairs in a text there is none at its start, and none behind. -/
theorem hasPair_cons {p q : Char → Bool} {c : Char} {more : List Char}
    (none : hasPair p q (c :: more) = false) :
    (p c = true → more.head?.any q = false) ∧ hasPair p q more = false := by
  cases more with
  | nil => simp [hasPair]
  | cons d more =>
    simp only [hasPair, Bool.or_eq_false_iff, Bool.and_eq_false_iff] at none
    refine ⟨fun holds => ?_, none.2⟩
    rcases none.1 with h | h
    · simp [holds] at h
    · simpa using h

theorem Gap.allows_nothing (more : List Char) : Gap.nothing.Allows more := trivial

/-- White space after a break goes on with a break or with what is no space. -/
theorem Gap.allows_lineBreak {c : Char} {more : List Char} (allows : gap.Allows (c :: more))
    (breaks : isBreak c = true) (no_feed : c ≠ '\n') (no_space : more.head?.any isSpace = false) :
    (gap.lineBreak c).Allows more := by
  match gap, allows with
  | .nothing, _ => exact ⟨⟨c, rfl, no_feed⟩, no_space⟩
  | .blanks _, no_break => simp [breaks, Allows] at no_break
  | .breaks _ _, ⟨known, _⟩ => exact ⟨known, no_space⟩

theorem Gap.isBroken_lineBreak (c : Char) : (gap.lineBreak c).isBroken = true := by
  cases gap <;> rfl

theorem Gap.isBroken_blank (c : Char) : (gap.blank c).isBroken = gap.isBroken := by
  cases gap <;> rfl

/-- After a blank there is no break. -/
theorem Gap.allows_blank {c : Char} {more : List Char} (whole : gap.isBroken = false)
    (no_break : more.head?.any isBreak = false) : (gap.blank c).Allows more := by
  cases gap with
  | nothing => exact no_break
  | blanks _ => exact no_break
  | breaks _ _ => simp [isBroken] at whole

/-- After a break there is no blank. -/
theorem Gap.not_isSpace_of_isBroken {c : Char} {more : List Char} (allows : gap.Allows (c :: more))
    (broken : gap.isBroken = true) : c ≠ ' ' := by
  match gap, allows with
  | .nothing, _ => exact absurd broken (by decide)
  | .blanks _, _ => simp [isBroken] at broken
  | .breaks _ _, ⟨_, no_space⟩ => simpa [isSpace] using no_space

/-! ## Single quotes -/

/-- The indentation of a character, `atStart` telling whether a line starts with it. -/
def margin (column : Nat) (atStart : Bool) : List Char := if atStart then spaces column else []

/-- What stands between single quotes, `atStart` telling whether a line starts here. -/
def singleBody (column : Nat) (atStart : Bool) : List Char → List Char
  | [] => margin column atStart
  | c :: more =>
    if isBreak c then c :: singleBody column true more
    else margin column atStart ++ ((if c = '\'' then [c, c] else [c]) ++ singleBody column false more)

/-- What is written between single quotes, character by character. -/
theorem indentLines_doubled (column : Nat) (atStart : Bool) (text : List Char) :
    indentLines column atStart (text.flatMap fun c => if c = '\'' then [c, c] else [c]) ++
        (if (text.getLast?.map isBreak).getD atStart then spaces column else []) =
      singleBody column atStart text := by
  induction text generalizing atStart with
  | nil => cases atStart <;> simp [indentLines, singleBody, margin]
  | cons c more ih =>
    have last : ∀ b, (((c :: more).getLast?.map isBreak).getD b) =
        ((more.getLast?.map isBreak).getD (isBreak c)) := by
      intro b
      cases more with
      | nil => simp
      | cons d more => simp [List.getLast?_cons]
    rw [singleBody, last]
    -- a quote is doubled, a break starts a new line, and any other character goes on
    by_cases quote : c = '\''
    · subst quote
      have no_break : isBreak '\'' = false := by decide
      have := ih false
      cases atStart <;> simp [indentLines, no_break, margin, ← this]
    · by_cases breaks : isBreak c
      · simp [quote, indentLines, breaks, ← ih true]
      · have := ih false
        cases atStart <;> simp [quote, indentLines, breaks, margin, ← this]

/-- A text in single quotes is its body between two quotes. -/
theorem inSingleQuotes_eq (column : Nat) (text : List Char) :
    inSingleQuotes column text = '\'' :: (singleBody column false text ++ ['\'']) := by
  have := indentLines_doubled column false text
  rw [inSingleQuotes, ← this]
  cases text.getLast? <;> simp

/-- A blank goes to the white space. -/
theorem quotedFrom_blank {single : Bool} {c : Char} (here : p.rest = c :: rest)
    (space : isBlank c = true) :
    quotedFrom single (fuel + 1) p gap text =
      quotedFrom single fuel (p.advance 1) (gap.blank c) text := by
  have no_break : isBreak c = false := by
    simp only [isBlank, Bool.or_eq_true, beq_iff_eq] at space
    rcases space with rfl | rfl <;> decide
  rw [quotedFrom, Place.readBreak?_eq_none here no_break]
  simp [here, space]

/-- A printed break goes to the white space. -/
theorem quotedFrom_break {single : Bool} {c : Char} (here : p.rest = c :: rest)
    (printable : isPrintable c = true) (breaks : isBreak c = true) :
    quotedFrom single (fuel + 1) p gap text =
      quotedFrom single fuel (p.behind [c]) (gap.lineBreak c) text := by
  rw [quotedFrom, Place.readBreak?_eq_some here printable breaks]

/-- Indentation does not count. -/
theorem quotedFrom_spaces (single : Bool) (text : List Char) (fuel n : Nat) (broken : gap.isBroken = true)
    (here : p.rest = spaces n ++ rest) :
    quotedFrom single (fuel + n) p gap text =
      quotedFrom single fuel (p.behind (spaces n)) gap text := by
  induction n generalizing p with
  | zero => rfl
  | succ n ih =>
    -- behind a line break spaces are margin, and do not count
    have kept : gap.blank ' ' = gap := by
      cases gap with
      | breaks _ _ => rfl
      | nothing => exact absurd broken (by decide)
      | blanks _ => simp [Gap.isBroken] at broken
    have step : p.behind [' '] = p.advance 1 := Place.behind_singleton (by decide)
    rw [← Nat.add_assoc, quotedFrom_blank here (by decide), kept, ← step,
      ih (Place.rest_behind_eq here), ← Place.behind_append]
    rfl

/-- A quote that is written twice stands for itself. -/
theorem quotedFrom_single_quote (inside : p.column ≠ 0) (here : p.rest = '\'' :: '\'' :: rest) :
    quotedFrom true (fuel + 1) p gap text =
      quotedFrom true fuel (p.advance 2) .nothing ('\'' :: (gap.joined.reverse ++ text)) := by
  rw [quotedFrom, Place.readBreak?_eq_none here (by decide)]
  simp [here, inside, isBlank]

/-- A quote that is not written twice ends the text. -/
theorem quotedFrom_single_end (inside : p.column ≠ 0) (here : p.rest = '\'' :: rest)
    (ends : rest.head? ≠ some '\'') :
    quotedFrom true (fuel + 1) p gap text =
      some ((gap.joined.reverse ++ text).reverse, p.advance 1) := by
  rw [quotedFrom, Place.readBreak?_eq_none here (by decide)]
  cases rest with
  | nil => simp [here, inside, isBlank]
  | cons d rest =>
    have d_ne : d ≠ '\'' := by simpa using ends
    simp [here, inside, isBlank, d_ne]

/-- A character that is no space, break or quote stands for itself. -/
theorem quotedFrom_single_other {c : Char} (inside : p.column ≠ 0) (here : p.rest = c :: rest)
    (no_break : isBreak c = false) (no_blank : isBlank c = false) (other : c ≠ '\'') :
    quotedFrom true (fuel + 1) p gap text =
      quotedFrom true fuel (p.advance 1) .nothing (c :: (gap.joined.reverse ++ text)) := by
  rw [quotedFrom, Place.readBreak?_eq_none here no_break]
  simp [here, inside, no_blank, other]

/-- Where the reader is once the indentation in front of a character has been skipped. -/
theorem quotedFrom_margin (indented : gap.isBroken = true → 0 < column)
    (inside : gap.isBroken = false → p.column ≠ 0)
    (here : p.rest = margin column gap.isBroken ++ rest) :
    (p.behind (margin column gap.isBroken)).column ≠ 0 ∧
      ∀ single text fuel, quotedFrom single (fuel + (margin column gap.isBroken).length) p gap text =
        quotedFrom single fuel (p.behind (margin column gap.isBroken)) gap text := by
  cases broken : gap.isBroken with
  | false => exact ⟨inside broken, fun _ _ _ => rfl⟩
  | true =>
    rw [broken] at here
    refine ⟨?_, fun single text fuel => ?_⟩
    · rw [margin, if_pos rfl, Place.behind_eq_of_no_break isBreak_of_mem_spaces here]
      have := indented broken
      simp only [spaces, List.length_replicate]
      omega
    · have := quotedFrom_spaces single text fuel column broken here
      simpa [margin, spaces] using this

/-- What holds while the rest `cs` of a text is read that stands between single quotes. -/
structure SingleQuoting (column : Nat) (rest : List Char) (p : Place) (gap : Gap) (cs : List Char) :
    Prop where
  printable : ∀ c ∈ cs, isPrintable c = true ∧ c ≠ '\n'
  no_blank_end : hasPair isSpace isBreak cs = false
  no_blank_start : hasPair isBreak isSpace cs = false
  allows : gap.Allows cs
  indented : gap.isBroken = true ∨ (∃ c ∈ cs, isBreak c = true) → 0 < column
  inside : gap.isBroken = false → p.column ≠ 0
  here : p.rest = singleBody column gap.isBroken cs ++ '\'' :: rest

/-- What one character of a text between single quotes comes to: it is written as `written`, and
    reading that takes `n` steps and adds the character to what has been read. -/
structure SingleQuoting.Step (column : Nat) (rest : List Char) (p : Place) (gap : Gap)
    (c : Char) (more written : List Char) (gap' : Gap) : Prop where
  body : singleBody column gap.isBroken (c :: more) = written ++ singleBody column gap'.isBroken more
  next : SingleQuoting column rest (p.behind written) gap' more
  run : ∀ text, ∃ text' n, n ≤ written.length ∧
    text'.reverse ++ gap'.joined = text.reverse ++ gap.joined ++ [c] ∧
    ∀ fuel, quotedFrom true (fuel + n) p gap text =
      quotedFrom true fuel (p.behind written) gap' text'

namespace SingleQuoting

variable {c : Char} {more : List Char}

/-- A break is written as it is. -/
theorem step_break (s : SingleQuoting column rest p gap (c :: more)) (breaks : isBreak c = true) :
    Step column rest p gap c more [c] (gap.lineBreak c) := by
  obtain ⟨c_printable, no_feed⟩ := s.printable c (by simp)
  obtain ⟨-, no_blank_end⟩ := hasPair_cons s.no_blank_end
  obtain ⟨no_space_next, no_blank_start⟩ := hasPair_cons s.no_blank_start
  have body : singleBody column gap.isBroken (c :: more) =
      [c] ++ singleBody column (gap.lineBreak c).isBroken more := by
    simp [singleBody, breaks, Gap.isBroken_lineBreak]
  have here := s.here
  rw [body, List.append_assoc] at here
  refine ⟨body, ?_, fun text => ⟨text, 1, Nat.le_refl 1, ?_, fun fuel => ?_⟩⟩
  · exact {
      printable := fun d mem => s.printable d (by simp [mem])
      no_blank_end, no_blank_start
      allows := Gap.allows_lineBreak s.allows breaks no_feed (no_space_next breaks)
      indented := fun _ => s.indented (.inr ⟨c, by simp, breaks⟩)
      inside := fun whole => by
        rw [Gap.isBroken_lineBreak] at whole
        exact absurd whole (by decide)
      here := Place.rest_behind_eq here }
  · rw [Gap.joined_lineBreak s.allows breaks no_feed, List.append_assoc]
  · exact quotedFrom_break here c_printable breaks

/-- A character behind its indentation, written as `own`. -/
theorem step_of_own {own : List Char} {gap' : Gap} (s : SingleQuoting column rest p gap (c :: more))
    (no_break : isBreak c = false) (own_eq : own = if c = '\'' then [c, c] else [c])
    (allows : gap'.Allows more) (whole : gap'.isBroken = false)
    (run : ∀ q text, q.rest = own ++ (singleBody column false more ++ '\'' :: rest) → q.column ≠ 0 →
      ∃ text', text'.reverse ++ gap'.joined = text.reverse ++ gap.joined ++ [c] ∧
        ∀ fuel, quotedFrom true (fuel + 1) q gap text =
          quotedFrom true fuel (q.behind own) gap' text') :
    Step column rest p gap c more (margin column gap.isBroken ++ own) gap' := by
  obtain ⟨-, no_blank_end⟩ := hasPair_cons s.no_blank_end
  obtain ⟨-, no_blank_start⟩ := hasPair_cons s.no_blank_start
  have own_no_break : ∀ d ∈ own, isBreak d = false := by
    intro d mem
    have : d = c := by
      rw [own_eq] at mem
      split at mem <;> simpa using mem
    exact this ▸ no_break
  have own_positive : 1 ≤ own.length := by
    rw [own_eq]
    split <;> simp
  have body : singleBody column gap.isBroken (c :: more) =
      (margin column gap.isBroken ++ own) ++ singleBody column gap'.isBroken more := by
    simp [singleBody, no_break, whole, own_eq]
  have here := s.here
  rw [body, whole, List.append_assoc, List.append_assoc] at here
  -- the reader first skips the margin, and then takes the character in one step
  obtain ⟨inside, skipped⟩ := quotedFrom_margin (fun h => s.indented (.inl h)) s.inside here
  have here_own := Place.rest_behind_eq here
  refine ⟨body, ?_, fun text => ?_⟩
  · exact {
      printable := fun d mem => s.printable d (by simp [mem])
      no_blank_end, no_blank_start, allows
      indented := fun h => s.indented (.inr (by simpa [whole, no_break] using h))
      inside := fun _ => by
        rw [Place.behind_append, Place.behind_eq_of_no_break own_no_break here_own]
        simp only [ne_eq]
        omega
      here := by
        rw [Place.behind_append, whole]
        exact Place.rest_behind_eq here_own }
  · obtain ⟨text', joined, one⟩ := run _ text here_own inside
    refine ⟨text', 1 + (margin column gap.isBroken).length, ?_, joined, fun fuel => ?_⟩
    · simp only [List.length_append]
      omega
    · rw [← Nat.add_assoc, skipped, one, Place.behind_append]

/-- So is a space. -/
theorem step_space (s : SingleQuoting column rest p gap (' ' :: more)) :
    Step column rest p gap ' ' more (margin column gap.isBroken ++ [' ']) (gap.blank ' ') := by
  have whole : gap.isBroken = false := by
    cases broken : gap.isBroken with
    | false => rfl
    | true => exact absurd rfl (Gap.not_isSpace_of_isBroken s.allows broken)
  have no_break_next := (hasPair_cons s.no_blank_end).1 (by decide)
  refine s.step_of_own (by decide) (by decide) (Gap.allows_blank whole no_break_next)
    (by rw [Gap.isBroken_blank, whole]) fun q text here _ => ⟨text, ?_, fun fuel => ?_⟩
  · rw [Gap.joined_blank ' ' whole, List.append_assoc]
  · rw [quotedFrom_blank here (by decide), Place.behind_singleton (by decide)]

/-- A quote is doubled. -/
theorem step_quote (s : SingleQuoting column rest p gap ('\'' :: more)) :
    Step column rest p gap '\'' more (margin column gap.isBroken ++ ['\'', '\'']) .nothing := by
  refine s.step_of_own (by decide) (by decide) (Gap.allows_nothing more) rfl
    fun q text here inside => ⟨'\'' :: (gap.joined.reverse ++ text), ?_, fun fuel => ?_⟩
  · simp [Gap.joined]
  · rw [quotedFrom_single_quote inside here,
      ← Place.advance_eq_behind (w := ['\'', '\'']) (by simp [isBreak]) here]
    rfl

/-- Any other character is written as it is. -/
theorem step_other (s : SingleQuoting column rest p gap (c :: more)) (no_break : isBreak c = false)
    (no_space : c ≠ ' ') (no_quote : c ≠ '\'') :
    Step column rest p gap c more (margin column gap.isBroken ++ [c]) .nothing := by
  have no_blank : isBlank c = false := by
    have no_tab : c ≠ '\t' := by
      rintro rfl
      exact absurd (s.printable '\t' (by simp)).1 (by decide)
    simp [isBlank, no_space, no_tab]
  refine s.step_of_own no_break (by simp [no_quote]) (Gap.allows_nothing more) rfl
    fun q text here inside => ⟨c :: (gap.joined.reverse ++ text), ?_, fun fuel => ?_⟩
  · simp [Gap.joined]
  · rw [quotedFrom_single_other inside here no_break no_blank no_quote,
      Place.behind_singleton no_break]

/-- Every character of the text is one of these. -/
theorem exists_step (s : SingleQuoting column rest p gap (c :: more)) :
    ∃ written gap', Step column rest p gap c more written gap' := by
  -- breaks and spaces are kept in the gap until something else follows
  by_cases breaks : isBreak c = true
  · exact ⟨_, _, s.step_break breaks⟩
  by_cases space : c = ' '
  · subst space
    exact ⟨_, _, s.step_space⟩
  by_cases quote : c = '\''
  · subst quote
    exact ⟨_, _, s.step_quote⟩
  · exact ⟨_, _, s.step_other (by simpa using breaks) space quote⟩

/-- What was written between single quotes is read back, whatever has been read before it. -/
theorem quotedFrom_eq_some {cs : List Char} (s : SingleQuoting column rest p gap cs)
    (ends : rest.head? ≠ some '\'') (enough : (singleBody column gap.isBroken cs).length < fuel) :
    quotedFrom true fuel p gap text =
      some (text.reverse ++ gap.joined ++ cs,
        p.behind (singleBody column gap.isBroken cs ++ ['\''])) := by
  induction cs generalizing p gap text fuel with
  | nil =>
    have here := s.here
    rw [singleBody] at here enough ⊢
    obtain ⟨inside, skipped⟩ := quotedFrom_margin (fun h => s.indented (.inl h)) s.inside here
    obtain ⟨fuel, rfl⟩ : ∃ n, fuel = n + 1 + (margin column gap.isBroken).length :=
      ⟨fuel - 1 - (margin column gap.isBroken).length, by omega⟩
    rw [skipped, quotedFrom_single_end inside (Place.rest_behind_eq here) ends,
      Place.behind_append, Place.behind_singleton (by decide)]
    simp
  | cons c more ih =>
    -- one step for the first character, and the induction for what is left
    obtain ⟨written, gap', body, next, run⟩ := s.exists_step
    obtain ⟨text', n, n_le, joined, steps⟩ := run text
    rw [body, List.length_append] at enough
    obtain ⟨fuel, rfl⟩ : ∃ m, fuel = m + n := ⟨fuel - n, by omega⟩
    rw [steps, ih next (by omega), joined, body]
    simp [Place.behind_append]

end SingleQuoting

/-- Whether a text is written on one line or, indented, on several. -/
theorem readQuoted?_single (fits : fitsSingleQuotes text = true) (no_feed : '\n' ∉ text)
    (room : 0 < column ∨ ∀ c ∈ text, isBreak c = false)
    (ends : rest.head? ≠ some '\'') (here : p.rest = inSingleQuotes column text ++ rest) :
    readQuoted? true p = some (text, p.behind (inSingleQuotes column text)) := by
  simp only [fitsSingleQuotes, Bool.and_eq_true, Bool.not_eq_true', List.all_eq_true] at fits
  obtain ⟨⟨printable, no_blank_end⟩, no_blank_start⟩ := fits
  rw [inSingleQuotes_eq, List.cons_append, List.append_assoc] at here
  have opened : p.advance 1 = p.behind ['\''] := (Place.behind_singleton (by decide)).symm
  -- behind the opening quote the invariant holds of the whole text
  have s : SingleQuoting column rest (p.behind ['\'']) .nothing text := {
    printable := fun c mem => ⟨printable c mem, fun h => no_feed (h ▸ mem)⟩
    no_blank_end, no_blank_start
    allows := Gap.allows_nothing text
    indented := fun breaks => by
      rcases room with positive | no_break
      · exact positive
      · obtain h | ⟨c, mem, h⟩ := breaks
        · exact absurd h (by decide)
        · rw [no_break c mem] at h
          exact absurd h (by decide)
    inside := fun _ => by
      rw [Place.behind_eq_of_no_break (w := ['\'']) (forall_mem_of_all (by decide)) here]
      simp
    here := Place.rest_behind_eq (w := ['\'']) here }
  rw [readQuoted?, opened, s.quotedFrom_eq_some ends (by rw [here]; simp [Gap.isBroken]; omega),
    inSingleQuotes_eq, Place.behind_cons]
  rfl

/-! ## Numbers of characters -/

/-- Digits are read one after the other. -/
theorem natFrom?_append (base value : Nat) (a b : List Char) :
    Plain.natFrom? base value (a ++ b) =
      (Plain.natFrom? base value a).bind fun v => Plain.natFrom? base v b := by
  induction a generalizing value with
  | nil => rfl
  | cons c a ih =>
    simp only [List.cons_append, Plain.natFrom?]
    cases Plain.digit? c with
    | none => rfl
    | some d =>
      by_cases small : d < base
      · simp [small, ih]
      · simp [small]

theorem digit?_toUpper_digitChar : ∀ d < 16, Plain.digit? (Nat.digitChar d).toUpper = some d := by
  decide

/-- The digits of a number, read on after `value`. -/
theorem natFrom?_toDigits (n value : Nat) :
    Plain.natFrom? 16 value ((Nat.toDigits 16 n).map Char.toUpper) =
      some (value * 16 ^ (Nat.toDigits 16 n).length + n) := by
  induction n using Nat.strongRecOn generalizing value with
  | ind n ih =>
    rw [Nat.toDigits_eq_if (by decide)]
    split
    · next small => simp [Plain.natFrom?, digit?_toUpper_digitChar n small, small]
    · next large =>
      have digit_lt : n % 16 < 16 := Nat.mod_lt n (by decide)
      rw [List.map_append, natFrom?_append, ih (n / 16) (by omega), List.length_append]
      simp only [Option.bind_some, List.map_cons, List.map_nil, Plain.natFrom?,
        digit?_toUpper_digitChar _ digit_lt, digit_lt, if_true, List.length_singleton,
        Nat.pow_succ, ← Nat.mul_assoc, Nat.add_mul]
      congr 1
      have := Nat.div_add_mod n 16
      omega

/-- Zeros in front do not matter. -/
theorem natFrom?_zeros (count value : Nat) :
    Plain.natFrom? 16 value (List.replicate count '0') = some (value * 16 ^ count) := by
  induction count generalizing value with
  | zero => simp [Plain.natFrom?]
  | succ count ih =>
    have zero : Plain.digit? '0' = some 0 := by decide
    rw [List.replicate_succ, Plain.natFrom?]
    simp only [zero, (by decide : 0 < 16), if_true, ih]
    rw [Nat.add_zero, Nat.mul_assoc, Nat.pow_succ, Nat.mul_comm 16]

/-- The digits of a number are read as that number. -/
theorem nat?_upperHex (width n : Nat) : Plain.nat? 16 (upperHex width n) = some n := by
  have digits : Plain.natFrom? 16 0 (upperHex width n) = some n := by
    rw [upperHex, natFrom?_append, natFrom?_zeros]
    simp [natFrom?_toDigits]
  have nonempty : upperHex width n ≠ [] := by
    simp [upperHex, Nat.toDigits_ne_nil]
  unfold Plain.nat?
  split
  · next empty => exact absurd empty nonempty
  · exact digits

/-- A number that fits is written with as many digits as are asked for. -/
theorem length_upperHex {width n : Nat} (positive : 0 < width) (fits : n < 16 ^ width) :
    (upperHex width n).length = width := by
  have := (Nat.length_toDigits_le_iff (b := 16) (n := n) (k := width) (by decide) positive).mpr fits
  simp only [upperHex, List.length_append, List.length_replicate, List.length_map]
  omega

/-- A digit ends no line. -/
theorem isBreak_of_digit? {c : Char} (digit : (Plain.digit? c).isSome = true) :
    isBreak c = false := by
  rw [← Bool.not_eq_true]
  intro breaks
  rcases eq_of_isBreak breaks with rfl | rfl | rfl | rfl | rfl <;> exact absurd digit (by decide)

/-- What is read as a number is made of digits. -/
theorem digit?_of_natFrom? {base value : Nat} {digits : List Char}
    (read : (Plain.natFrom? base value digits).isSome = true) :
    ∀ d ∈ digits, (Plain.digit? d).isSome = true := by
  induction digits generalizing value with
  | nil => simp
  | cons c digits ih =>
    simp only [Plain.natFrom?] at read
    cases digit : Plain.digit? c with
    | none => simp [digit] at read
    | some d =>
      -- a digit that is too large for the base would have ended the reading
      have small : d < base := by
        rcases Nat.lt_or_ge d base with small | large
        · exact small
        · simp [digit, Nat.not_lt.mpr large] at read
      simp only [digit, small, if_true] at read
      intro e mem
      rcases List.mem_cons.mp mem with rfl | mem
      · simp [digit]
      · exact ih read e mem

/-- The same, the first digit included. -/
theorem digit?_of_nat? {base n : Nat} {digits : List Char} (read : Plain.nat? base digits = some n) :
    ∀ d ∈ digits, (Plain.digit? d).isSome = true := by
  cases digits with
  | nil => simp
  | cons c digits => exact digit?_of_natFrom? (by rw [show Plain.natFrom? base 0 (c :: digits) = some n from read]; rfl)

/-! ## Double quotes -/

/-- A character is found again by its number. -/
theorem charByNumber?_upperHex (width : Nat) (c : Char) :
    charByNumber? (upperHex width c.toNat) = some c := by
  rw [charByNumber?, nat?_upperHex]
  have valid : c.toNat.isValidChar := c.valid
  simp [valid, Char.ofNat_toNat]

/-- The ways in which a character can be written between double quotes. -/
inductive Escaped (c : Char) : List Char → Prop where
  | own (no_break : isBreak c = false) (no_quote : c ≠ '"') (no_slash : c ≠ '\\') : Escaped c [c]
  | letter (e : Char) (no_break : isBreak e = false) (read : escape? e = some (.char c)) :
    Escaped c ['\\', e]
  | number (e : Char) (digits : List Char) (no_break : isBreak e = false)
    (read : escape? e = some (.byNumber digits.length)) (spells : charByNumber? digits = some c) :
    Escaped c ('\\' :: e :: digits)

/-- A character can be written by its number. -/
theorem escaped_upperHex {c e : Char} {width : Nat} (positive : 0 < width)
    (fits : c.toNat < 16 ^ width) (no_break : isBreak e = false)
    (read : escape? e = some (.byNumber width)) :
    Escaped c ('\\' :: e :: upperHex width c.toNat) :=
  .number e _ no_break (by rw [length_upperHex positive fits, read]) (charByNumber?_upperHex width c)

/-- Every character is written in one of these ways. -/
theorem escaped_spec (c : Char) : Escaped c (escaped c) := by
  unfold escaped
  split
  · next plain =>
    simp only [Bool.and_eq_true, Bool.not_eq_true', decide_eq_true_eq] at plain
    exact .own plain.1.1.2 plain.1.2 plain.2
  have letter (e : Char) (n : Nat) (is_n : c.toNat = n) (no_break : isBreak e = false)
      (read : escape? e = some (.char (Char.ofNat n))) : Escaped c ['\\', e] :=
    .letter e no_break (by rw [read, ← is_n, Char.ofNat_toNat])
  have small : c.toNat < 16 ^ 8 := c.val.toNat_lt
  split
  -- the last case is that of a character without a letter
  all_goals first
    | next is_n => exact letter _ _ is_n (by decide) rfl
    | skip
  split
  · exact escaped_upperHex (by decide) (by omega) (by decide) rfl
  split
  · exact escaped_upperHex (by decide) (by omega) (by decide) rfl
  · exact escaped_upperHex (by decide) small (by decide) rfl

/-- No character is written with a break. -/
theorem Escaped.no_break {c : Char} {written : List Char} (e : Escaped c written) :
    ∀ d ∈ written, isBreak d = false := by
  cases e with
  | own no_break => simpa using no_break
  | letter e no_break => simpa using ⟨by decide, no_break⟩
  | number e digits no_break _ spells =>
    obtain ⟨n, read⟩ : ∃ n, Plain.nat? 16 digits = some n := by
      cases read : Plain.nat? 16 digits with
      | some n => exact ⟨n, rfl⟩
      | none => simp [charByNumber?, read] at spells
    intro d mem
    simp only [List.mem_cons] at mem
    rcases mem with rfl | rfl | mem
    · decide
    · exact no_break
    · exact isBreak_of_digit? (digit?_of_nat? read d mem)

theorem Escaped.ne_nil {c : Char} {written : List Char} (e : Escaped c written) : written ≠ [] := by
  cases e <;> simp

/-- Reading one character adds it to what has been read. -/
theorem Escaped.run {c : Char} {written : List Char} (e : Escaped c written)
    (whole : gap.isBroken = false) (inside : p.column ≠ 0) (here : p.rest = written ++ rest)
    (text : List Char) :
    ∃ gap' text', gap'.isBroken = false ∧
      text'.reverse ++ gap'.joined = text.reverse ++ gap.joined ++ [c] ∧
      ∀ fuel, quotedFrom false (fuel + 1) p gap text =
        quotedFrom false fuel (p.behind written) gap' text' := by
  have moved := Place.advance_eq_behind e.no_break here
  cases e with
  | own no_break no_quote no_slash =>
    -- a blank is kept back, as it may stand at the end of a line
    by_cases blank : isBlank c = true
    · refine ⟨gap.blank c, text, by rw [Gap.isBroken_blank, whole], ?_, fun fuel => ?_⟩
      · rw [Gap.joined_blank c whole, List.append_assoc]
      · rw [quotedFrom_blank here blank, ← moved, List.length_singleton]
    · refine ⟨.nothing, c :: (gap.joined.reverse ++ text), rfl, by simp [Gap.joined], fun fuel => ?_⟩
      rw [← moved, quotedFrom, Place.readBreak?_eq_none here no_break]
      simp [here, inside, blank, no_quote, no_slash]
  | letter e no_break read =>
    refine ⟨.nothing, c :: (gap.joined.reverse ++ text), rfl, by simp [Gap.joined], fun fuel => ?_⟩
    have next : (p.advance 1).rest = e :: rest := by simp [Place.advance, here]
    rw [← moved, quotedFrom, Place.readBreak?_eq_none here (by decide)]
    simp [here, inside, isBlank, Place.readBreak?_eq_none next no_break, read]
  | number e digits no_break read spells =>
    refine ⟨.nothing, c :: (gap.joined.reverse ++ text), rfl, by simp [Gap.joined], fun fuel => ?_⟩
    have next : (p.advance 1).rest = e :: (digits ++ rest) := by simp [Place.advance, here]
    rw [← moved, quotedFrom, Place.readBreak?_eq_none here (by decide)]
    simp [here, inside, isBlank, Place.readBreak?_eq_none next no_break, read, spells,
      Nat.add_comm 2]

/-- What was written between double quotes is read back, whatever has been read before it. -/
theorem quotedFrom_escaped {cs : List Char} (whole : gap.isBroken = false) (inside : p.column ≠ 0)
    (here : p.rest = cs.flatMap escaped ++ '"' :: rest) (enough : cs.length < fuel) :
    quotedFrom false fuel p gap text =
      some (text.reverse ++ gap.joined ++ cs, p.behind (cs.flatMap escaped ++ ['"'])) := by
  induction cs generalizing p gap text fuel with
  | nil =>
    obtain ⟨fuel, rfl⟩ : ∃ n, fuel = n + 1 := ⟨fuel - 1, by simp at enough; omega⟩
    rw [quotedFrom, Place.readBreak?_eq_none here (by decide)]
    simp [here, inside, isBlank, Place.behind_singleton (show isBreak '"' = false by decide)]
  | cons c more ih =>
    have e := escaped_spec c
    rw [List.flatMap_cons, List.append_assoc] at here
    obtain ⟨gap', text', whole', joined, step⟩ := e.run whole inside here text
    obtain ⟨fuel, rfl⟩ : ∃ n, fuel = n + 1 := ⟨fuel - 1, by simp at enough; omega⟩
    have inside' : (p.behind (escaped c)).column ≠ 0 := by
      rw [Place.behind_eq_of_no_break e.no_break here]
      simp only [ne_eq]
      omega
    rw [step, ih whole' inside' (Place.rest_behind_eq here) (by simp at enough; omega), joined]
    simp [Place.behind_append]

/-- Escaping does not make a text shorter, so that there is fuel enough. -/
theorem length_le_length_escaped (cs : List Char) : cs.length ≤ (cs.flatMap escaped).length := by
  induction cs with
  | nil => simp
  | cons c more ih =>
    have := List.length_pos_iff.mpr (escaped_spec c).ne_nil
    rw [List.flatMap_cons, List.length_append, List.length_cons]
    omega

/-- A text between double quotes is read back. -/
theorem readQuoted?_double (here : p.rest = scalarLines .doubleQuoted column text ++ rest) :
    readQuoted? false p = some (text, p.behind (scalarLines .doubleQuoted column text)) := by
  simp only [scalarLines, List.cons_append, List.append_assoc, List.nil_append] at here ⊢
  have opened : p.advance 1 = p.behind ['"'] := (Place.behind_singleton (by decide)).symm
  have inside : (p.behind ['"']).column ≠ 0 := by
    rw [Place.behind_eq_of_no_break (w := ['"']) (forall_mem_of_all (by decide)) here]
    simp
  have length_le := length_le_length_escaped text
  rw [readQuoted?, opened, quotedFrom_escaped rfl inside (Place.rest_behind_eq (w := ['"']) here)
    (by rw [here]; simp only [List.length_cons, List.length_append]; omega),
    Place.behind_cons]
  rfl

end DeployManifest.Yaml
