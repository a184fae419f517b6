import DeployManifest.Proofs.Places
import DeployManifest.Yaml.Token.Block
import DeployManifest.Yaml.Printer

/-!
# Literal blocks read back

A text that is written as a literal block is read back as it was, down to the breaks at its end, and
the reader stops at the first line that is indented less.

- `blockGapFrom_breaks`, `blockGapFrom_spaces`, `readBlockGap?_eq`: the gap in front of a line, empty lines
  and indentation.
- `Lines`: the ways in which a text goes on, with what has to be shown for each to show it for all texts.
- `run_last`, `run_broken`, `run_next`, `blockLines_eq`: the lines of a block, by induction over `Lines`.
- `blockHeader_eq`: the hints in the head of a block.
- `readBlock?_literal`: a literal block is read as the text that was written.
-/

namespace DeployManifest.Yaml

variable {p : Place} {rest text : List Char} {column indent fuel deepest : Nat} {breaks : List Char}

/-! ## White space between lines -/

/-- Empty lines are kept as the breaks that they are. -/
theorem blockGapFrom_breaks (bs : List Char)
    (are_breaks : ∀ c ∈ bs, isPrintable c = true ∧ isBreak c = true)
    (at_start : p.column = 0) (here : p.rest = bs ++ rest) :
    (p.behind bs).column = 0 ∧
      ∀ indent fuel deepest breaks, blockGapFrom indent (fuel + bs.length) ⟨deepest, breaks, p⟩ =
        blockGapFrom indent fuel ⟨deepest, bs.reverse ++ breaks, p.behind bs⟩ := by
  induction bs generalizing p with
  | nil => exact ⟨at_start, fun _ _ _ _ => rfl⟩
  | cons b bs ih =>
    obtain ⟨printable, is_break⟩ := are_breaks b (by simp)
    have first : p.rest = b :: (bs ++ rest) := here
    -- a break is no indentation, so the gap goes on with the next line
    have no_space : b ≠ ' ' := by
      rintro rfl
      exact absurd is_break (by decide)
    have no_tab : b ≠ '\t' := by
      rintro rfl
      exact absurd is_break (by decide)
    have column : (p.behind [b]).column = 0 := by simp [Place.behind, is_break]
    obtain ⟨column, steps⟩ := ih (p := p.behind [b]) (fun c mem => are_breaks c (by simp [mem])) column
      (Place.rest_behind_eq (w := [b]) here)
    rw [Place.behind_cons bs]
    refine ⟨column, fun indent fuel deepest breaks => ?_⟩
    rw [List.length_cons, ← Nat.add_assoc, blockGapFrom]
    simp only [first]
    simp [no_space, no_tab, Place.readBreak?_eq_some first printable is_break, steps, at_start]

/-- Indentation is left out. -/
theorem blockGapFrom_spaces (n : Nat) (inside : indent = 0 ∨ p.column + n ≤ indent)
    (here : p.rest = spaces n ++ rest) :
    blockGapFrom indent (fuel + n) ⟨deepest, breaks, p⟩ =
      blockGapFrom indent fuel ⟨deepest, breaks, p.behind (spaces n)⟩ := by
  induction n generalizing p with
  | zero => rfl
  | succ n ih =>
    have space : p.rest = ' ' :: (spaces n ++ rest) := here
    have moved : p.behind [' '] = p.advance 1 := Place.behind_singleton (by decide)
    have column : (p.behind [' ']).column = p.column + 1 := by
      rw [moved]
      rfl
    have steps := ih (p := p.behind [' ']) (by omega) (Place.rest_behind_eq (w := [' ']) here)
    -- it is still in the margin, so the space belongs to the gap
    have counts : (indent = 0 || decide (p.column < indent)) = true := by
      simp only [Bool.or_eq_true, decide_eq_true_eq]
      omega
    rw [show spaces (n + 1) = [' '] ++ spaces n from rfl, Place.behind_append, ← steps, moved,
      ← Nat.add_assoc, blockGapFrom]
    simp [space, counts]

/-- White space ends in front of what is neither a blank nor a break; a space counts as white space
    only up to the indentation. -/
theorem blockGapFrom_stop (stops : ∀ c ∈ p.rest.head?, isBreak c = false ∧ c ≠ '\t' ∧
      (c = ' ' → indent ≠ 0 ∧ indent ≤ p.column)) :
    blockGapFrom indent (fuel + 1) ⟨deepest, breaks, p⟩ =
      some ⟨max deepest p.column, breaks, p⟩ := by
  rw [blockGapFrom]
  cases here : p.rest with
  | nil => simp [Place.readBreak?_eq_none_of_end here]
  | cons c more =>
    obtain ⟨no_break, no_tab, space⟩ := stops c (by simp [here])
    by_cases is_space : c = ' '
    · subst is_space
      obtain ⟨known, outside⟩ := space rfl
      simp [known, Nat.not_lt.mpr outside]
    · simp [is_space, no_tab, Place.readBreak?_eq_none here no_break]

/-- Empty lines and the indentation of the line behind them. -/
theorem readBlockGap?_eq (indent : Nat) (bs : List Char) (n : Nat)
    (are_breaks : ∀ c ∈ bs, isPrintable c = true ∧ isBreak c = true) (at_start : p.column = 0)
    (here : p.rest = bs ++ (spaces n ++ rest)) (inside : indent = 0 ∨ n ≤ indent)
    (stops : ∀ c ∈ rest.head?, isBreak c = false ∧ c ≠ '\t' ∧ (c = ' ' → indent ≠ 0 ∧ indent ≤ n)) :
    (p.behind (bs ++ spaces n)).column = n ∧
      readBlockGap? indent p = some ⟨n, bs.reverse, p.behind (bs ++ spaces n)⟩ := by
  have length : p.rest.length + 1 = rest.length + 1 + n + bs.length := by
    simp [here, spaces]
    omega
  obtain ⟨column, skipped⟩ := blockGapFrom_breaks bs are_breaks at_start here
  have here_spaces := Place.rest_behind_eq here
  have reached : (p.behind (bs ++ spaces n)).column = n := by
    rw [Place.behind_append, Place.behind_eq_of_no_break isBreak_of_mem_spaces here_spaces]
    simp [column, spaces]
  have here_rest : (p.behind (bs ++ spaces n)).rest = rest := by
    rw [Place.behind_append]
    exact Place.rest_behind_eq here_spaces
  refine ⟨reached, ?_⟩
  -- over the breaks, then over the spaces, to the character that ends the gap
  rw [readBlockGap?, length, skipped, blockGapFrom_spaces n (by rwa [column, Nat.zero_add]) here_spaces,
    ← Place.behind_append, blockGapFrom_stop, reached]
  · simp
  · rwa [here_rest, reached]

/-! ## Lines -/

/-- How a text has to end for this treatment of the breaks at its end to keep it as it is. -/
def Chomping.Keeps : Chomping → List Char → Prop
  | .strip, cs => cs.getLast?.any isBreak = false
  | .clip, cs => ∃ start c b, cs = start ++ [c, b] ∧ isBreak c = false ∧ isBreak b = true
  | .keep, cs => cs.getLast?.any isBreak = true

variable {chomping : Chomping} {last : List Char} {afterBlank : Bool}

/-- A line, the break behind it, empty lines and the indentation of what follows. -/
theorem blockLines_line (line bs : List Char) (b : Char) (n : Nat)
    (nonempty : line ≠ []) (no_break : ∀ c ∈ line, isBreak c = false)
    (are_breaks : ∀ c ∈ b :: bs, isPrintable c = true ∧ isBreak c = true) (inside : n ≤ indent)
    (stops : ∀ c ∈ rest.head?, isBreak c = false ∧ c ≠ '\t' ∧ (c = ' ' → indent ≠ 0 ∧ indent ≤ n))
    (at_indent : p.column = indent) (here : p.rest = line ++ (b :: (bs ++ (spaces n ++ rest)))) :
    (p.behind (line ++ b :: (bs ++ spaces n))).column = n ∧
      ∀ chomping fuel text last afterBlank deepest breaks,
        blockLines true chomping indent (fuel + 1) text last afterBlank ⟨deepest, breaks, p⟩ =
          blockLines true chomping indent fuel (line.reverse ++ (breaks ++ (last ++ text))) [b]
            (startsBlank p.rest) ⟨n, bs.reverse, p.behind (line ++ b :: (bs ++ spaces n))⟩ := by
  obtain ⟨printable, is_break⟩ := are_breaks b (by simp)
  have taken : p.rest.takeWhile (fun c => !isBreak c) = line := by
    rw [here, List.takeWhile_append_of_pos (by simpa using no_break)]
    simp [is_break]
  have here_break := Place.rest_behind_eq here
  have here_gap : ((p.behind line).behind [b]).rest = bs ++ (spaces n ++ rest) :=
    Place.rest_behind_eq (w := [b]) here_break
  have at_start : ((p.behind line).behind [b]).column = 0 := by simp [Place.behind, is_break]
  -- behind the break comes the gap, which ends where the next line stops it
  obtain ⟨column, gap⟩ := readBlockGap?_eq indent bs n (fun c mem => are_breaks c (by simp [mem])) at_start
    here_gap (.inr inside) stops
  have whole : p.behind (line ++ b :: (bs ++ spaces n)) =
      ((p.behind line).behind [b]).behind (bs ++ spaces n) := by
    rw [Place.behind_append, Place.behind_cons]
  refine ⟨whole ▸ column, fun chomping fuel text last afterBlank deepest breaks => ?_⟩
  rw [blockLines]
  have something : p.rest.isEmpty = false := by
    rw [here]
    cases line with
    | nil => exact absurd rfl nonempty
    | cons c line => rfl
  simp only [at_indent, something, taken, decide_true, Bool.not_false, Bool.and_self, if_true,
    Bool.not_true, Bool.false_and, Bool.false_eq_true, if_false]
  rw [Place.advance_eq_behind no_break here, Place.readBreak?_eq_some here_break printable is_break]
  simp only [gap, whole]

/-- The lines end where less is indented. -/
theorem blockLines_end (outside : p.column ≠ indent ∨ p.rest = []) :
    blockLines true chomping indent (fuel + 1) text last afterBlank ⟨deepest, breaks, p⟩ =
      (let text := if chomping = .strip then text else last ++ text
       let text := if chomping = .keep then breaks ++ text else text
       some (text.reverse, p)) := by
  rw [blockLines]
  rcases outside with h | h <;> simp [h]

/-- The gap of a block ends in front of something visible. -/
theorem stops_of_opener (next : ∀ c ∈ rest.head?, isBlank c = false ∧ isBreak c = false) :
    ∀ c ∈ rest.head?, isBreak c = false ∧ c ≠ '\t' ∧ (c = ' ' → indent ≠ 0 ∧ indent ≤ column) := by
  intro c mem
  obtain ⟨no_blank, no_break⟩ := next c mem
  refine ⟨no_break, ?_, ?_⟩ <;> rintro rfl <;> exact absurd no_blank (by decide)

/-- The gap of a block ends in front of its next line. -/
theorem stops_of_line {c : Char} (more : List Char) (no_break : isBreak c = false)
    (printable : isPrintable c = true) (outside : c = ' ' → indent ≠ 0 ∧ indent ≤ column) :
    ∀ d ∈ (indentLines column false (c :: more) ++ rest).head?,
      isBreak d = false ∧ d ≠ '\t' ∧ (d = ' ' → indent ≠ 0 ∧ indent ≤ column) := by
  intro d mem
  obtain rfl : c = d := by simpa [indentLines, no_break] using mem
  refine ⟨no_break, ?_, outside⟩
  rintro rfl
  exact absurd printable (by decide)

/-- The line break that has to be added to a text that does not end with one. -/
def lineEnd (text : List Char) : List Char := if text.getLast?.any isBreak then [] else ['\n']

theorem endLine_eq (text : List Char) : endLine text = text ++ lineEnd text := by
  unfold endLine lineEnd
  split <;> simp

/-- What is on a line already is not indented. -/
theorem indentLines_no_break {line : List Char} (no_break : ∀ c ∈ line, isBreak c = false)
    (more : List Char) :
    indentLines column false (line ++ more) = line ++ indentLines column false more := by
  induction line with
  | nil => rfl
  | cons c line ih => simp [indentLines, no_break c (by simp), ih fun d mem => no_break d (by simp [mem])]

/-- Empty lines are not indented. -/
theorem indentLines_breaks {bs : List Char} (are_breaks : ∀ c ∈ bs, isBreak c = true)
    (more : List Char) :
    indentLines column true (bs ++ more) = bs ++ indentLines column true more := by
  induction bs with
  | nil => rfl
  | cons b bs ih => simp [indentLines, are_breaks b (by simp), ih fun d mem => are_breaks d (by simp [mem])]

theorem indentLines_true_cons {c : Char} (no_break : isBreak c = false) (more : List Char) :
    indentLines column true (c :: more) = spaces column ++ indentLines column false (c :: more) := by
  simp [indentLines, no_break]

/-- A text that starts a line: the line, and the breaks and the next line behind it. -/
inductive Lines : List Char → Prop where
  | last (line : List Char) (nonempty : line ≠ []) (no_break : ∀ c ∈ line, isBreak c = false) :
    Lines line
  | broken (line bs : List Char) (b : Char) (nonempty : line ≠ [])
    (no_break : ∀ c ∈ line, isBreak c = false) (are_breaks : ∀ c ∈ b :: bs, isBreak c = true) :
    Lines (line ++ b :: bs)
  | next (line bs : List Char) (b c : Char) (more : List Char) (nonempty : line ≠ [])
    (no_break : ∀ c ∈ line, isBreak c = false) (are_breaks : ∀ c ∈ b :: bs, isBreak c = true)
    (starts : isBreak c = false) : Lines (line ++ b :: (bs ++ c :: more))

/-- A text is what can be skipped and what is behind. -/
theorem exists_span (q : Char → Bool) (cs : List Char) :
    ∃ front back, cs = front ++ back ∧ (∀ c ∈ front, q c = true) ∧ ∀ c ∈ back.head?, q c = false := by
  refine ⟨cs.takeWhile q, cs.dropWhile q, List.takeWhile_append_dropWhile.symm,
    List.all_eq_true.mp List.all_takeWhile, fun c mem => ?_⟩
  have stops := List.head?_dropWhile_not q cs
  rw [Option.mem_def.mp mem] at stops
  exact stops

/-- From a character on a text goes on line by line. -/
theorem lines_of_start {c : Char} (no_break : isBreak c = false) (more : List Char) :
    Lines (c :: more) := by
  -- a line, then the breaks behind it, then the next line
  obtain ⟨line, later, rfl, line_no_break, stops⟩ := exists_span (fun c => !isBreak c) more
  have no_break : ∀ d ∈ c :: line, isBreak d = false := by
    simpa [no_break] using line_no_break
  cases later with
  | nil => simpa using Lines.last (c :: line) (by simp) no_break
  | cons b later =>
    have b_break : isBreak b = true := by simpa using stops b rfl
    obtain ⟨bs, later, rfl, bs_breaks, stops⟩ := exists_span isBreak later
    have are_breaks : ∀ d ∈ b :: bs, isBreak d = true := by
      simpa [b_break] using bs_breaks
    cases later with
    | nil => simpa using Lines.broken (c :: line) bs b (by simp) no_break are_breaks
    | cons d later => exact Lines.next (c :: line) bs b d later (by simp) no_break are_breaks (stops d rfl)

/-- The last character does not depend on what is in front. -/
theorem getLast?_append_cons (a : List Char) (c : Char) (more : List Char) :
    (a ++ c :: more).getLast? = (c :: more).getLast? := by
  rw [List.getLast?_append]
  cases h : (c :: more).getLast? with
  | none => simp at h
  | some d => rfl

theorem lineEnd_append (a : List Char) (c : Char) (more : List Char) :
    lineEnd (a ++ c :: more) = lineEnd (c :: more) := by
  rw [lineEnd, lineEnd, getLast?_append_cons]

/-- The hint for the end of a text fits to the end alone. -/
theorem Chomping.Keeps.suffix {a : List Char} {c : Char} {more : List Char}
    (no_break : isBreak c = false) (keeps : chomping.Keeps (a ++ c :: more)) :
    chomping.Keeps (c :: more) := by
  cases chomping with
  | strip => rwa [Keeps, getLast?_append_cons] at keeps
  | keep => rwa [Keeps, getLast?_append_cons] at keeps
  | clip =>
    obtain ⟨start, d, b, split, d_no_break, b_break⟩ := keeps
    rcases List.append_eq_append_iff.mp split with ⟨before, rfl, more_eq⟩ | ⟨between, rfl, more_eq⟩
    · exact ⟨before, d, b, more_eq, d_no_break, b_break⟩
    · match between, more_eq with
      | [], more_eq => exact ⟨[], d, b, more_eq.symm, d_no_break, b_break⟩
      | [_], more_eq =>
        -- the text would be the last break alone
        obtain ⟨rfl, rfl⟩ : b = c ∧ [] = more := by simpa using (List.cons.inj more_eq).2
        rw [b_break] at no_break
        exact absurd no_break (by decide)
      | _ :: _ :: _, more_eq => simp at more_eq

/-- Where one break is kept there is one break. -/
theorem Chomping.Keeps.single {line bs : List Char} {b : Char}
    (are_breaks : ∀ c ∈ b :: bs, isBreak c = true) (keeps : Chomping.clip.Keeps (line ++ b :: bs)) :
    bs = [] := by
  obtain ⟨start, c, d, split, no_break, -⟩ := keeps
  rcases List.eq_nil_or_concat bs with rfl | ⟨bs, e, rfl⟩
  · rfl
  · -- the last character but one would be a break
    have : line ++ b :: bs = start ++ [c] := by
      have := congrArg List.dropLast split
      rw [show line ++ b :: bs.concat e = (line ++ b :: bs) ++ [e] by simp,
        show start ++ [c, d] = (start ++ [c]) ++ [d] by simp, List.dropLast_concat,
        List.dropLast_concat] at this
      exact this
    have c_mem : c ∈ b :: bs := by
      have last := congrArg List.getLast? this
      rw [getLast?_append_cons] at last
      exact List.mem_of_getLast? (by simpa using last)
    have c_break : isBreak c = true := are_breaks c (by
      rw [List.concat_eq_append, ← List.cons_append]
      exact List.mem_append_left [e] c_mem)
    rw [c_break] at no_break
    exact absurd no_break (by decide)

/-- What holds where a line of a literal block starts, `cs` being what is left of the text. -/
structure LiteralReading (chomping : Chomping) (column n : Nat) (rest : List Char) (p : Place)
    (cs : List Char) : Prop where
  printable : ∀ c ∈ cs, isPrintable c = true
  keeps : chomping.Keeps cs
  shallow : n < column
  next : ∀ c ∈ rest.head?, isBlank c = false ∧ isBreak c = false
  at_indent : p.column = column
  here : p.rest = indentLines column false cs ++ (lineEnd cs ++ (spaces n ++ rest))

namespace LiteralReading

variable {cs line bs : List Char} {b : Char} {n : Nat}

/-- The last line, if there is no break behind it. -/
theorem run_last (r : LiteralReading chomping column n rest p line) (nonempty : line ≠ [])
    (no_break : ∀ c ∈ line, isBreak c = false) :
    blockLines true chomping column (fuel + 2) text last afterBlank ⟨deepest, breaks, p⟩ =
      some (text.reverse ++ last.reverse ++ breaks.reverse ++ line,
        p.behind (indentLines column false line ++ (lineEnd line ++ spaces n))) := by
  have unbroken : line.getLast?.any isBreak = false := by
    cases found : line.getLast? with
    | none => rfl
    | some c => exact no_break c (List.mem_of_getLast? found)
  have ending : lineEnd line = ['\n'] := by simp [lineEnd, unbroken]
  have written : indentLines column false line = line := by
    simpa [indentLines] using indentLines_no_break no_break []
  -- as the last line has no break, the head of the block must have said so
  have strip : chomping = .strip := by
    have keeps := r.keeps
    cases chomping with
    | strip => rfl
    | keep =>
      rw [Chomping.Keeps, unbroken] at keeps
      exact absurd keeps (by decide)
    | clip =>
      obtain ⟨start, c, b, rfl, -, b_break⟩ := keeps
      simp [b_break] at unbroken
  have here := r.here
  have shallow := r.shallow
  rw [ending, written] at here ⊢
  obtain ⟨reached, step⟩ := blockLines_line line [] '\n' n nonempty no_break
    (List.forall_mem_singleton.mpr ⟨by decide, by decide⟩)
    (Nat.le_of_lt shallow) (stops_of_opener r.next) r.at_indent here
  rw [step, blockLines_end (.inl (by omega)), strip]
  simp

/-- The last line and the breaks behind it. -/
theorem run_broken (r : LiteralReading chomping column n rest p (line ++ b :: bs))
    (nonempty : line ≠ []) (no_break : ∀ c ∈ line, isBreak c = false)
    (are_breaks : ∀ c ∈ b :: bs, isBreak c = true) :
    blockLines true chomping column (fuel + 2) text last afterBlank ⟨deepest, breaks, p⟩ =
      some (text.reverse ++ last.reverse ++ breaks.reverse ++ (line ++ b :: bs),
        p.behind (indentLines column false (line ++ b :: bs) ++
          (lineEnd (line ++ b :: bs) ++ spaces n))) := by
  have broken : (line ++ b :: bs).getLast?.any isBreak = true := by
    rw [getLast?_append_cons]
    cases found : (b :: bs).getLast? with
    | none => simp at found
    | some c => exact are_breaks c (List.mem_of_getLast? found)
  have ending : lineEnd (line ++ b :: bs) = [] := by rw [lineEnd, if_pos broken]
  have written : indentLines column false (line ++ b :: bs) = line ++ b :: bs := by
    rw [indentLines_no_break no_break, indentLines, if_pos (are_breaks b (by simp))]
    simpa [indentLines] using
      @indentLines_breaks column bs (fun c mem => are_breaks c (by simp [mem])) []
  have here := r.here
  have keeps := r.keeps
  have shallow := r.shallow
  rw [ending, written, List.nil_append, List.append_assoc, List.cons_append] at here
  obtain ⟨reached, step⟩ := blockLines_line line bs b n nonempty no_break
    (fun c mem => ⟨r.printable c (List.mem_append_right line mem), are_breaks c mem⟩)
    (Nat.le_of_lt shallow) (stops_of_opener r.next) r.at_indent here
  have place : p.behind (line ++ b :: bs ++ ([] ++ spaces n)) =
      p.behind (line ++ b :: (bs ++ spaces n)) := by simp
  rw [step, blockLines_end (.inl (by omega)), ending, written, place]
  -- the breaks at the end are kept, or there is just one and it is clipped
  cases chomping with
  | strip =>
    rw [Chomping.Keeps, broken] at keeps
    exact absurd keeps (by decide)
  | keep => simp
  | clip => simp [keeps.single are_breaks]

/-- A line, the breaks behind it and the indentation of the next line. -/
theorem run_next {c : Char} {more : List Char}
    (r : LiteralReading chomping column n rest p (line ++ b :: (bs ++ c :: more)))
    (nonempty : line ≠ []) (no_break : ∀ d ∈ line, isBreak d = false)
    (are_breaks : ∀ d ∈ b :: bs, isBreak d = true) (starts : isBreak c = false) :
    LiteralReading chomping column n rest (p.behind (line ++ b :: (bs ++ spaces column))) (c :: more) ∧
      blockLines true chomping column (fuel + 1) text last afterBlank ⟨deepest, breaks, p⟩ =
        blockLines true chomping column fuel (line.reverse ++ (breaks ++ (last ++ text))) [b]
          (startsBlank p.rest)
          ⟨column, bs.reverse, p.behind (line ++ b :: (bs ++ spaces column))⟩ ∧
      indentLines column false (line ++ b :: (bs ++ c :: more)) =
        line ++ b :: (bs ++ spaces column) ++ indentLines column false (c :: more) := by
  have shallow := r.shallow
  have written : indentLines column false (line ++ b :: (bs ++ c :: more)) =
      line ++ b :: (bs ++ spaces column) ++ indentLines column false (c :: more) := by
    rw [indentLines_no_break no_break, indentLines, if_pos (are_breaks b (by simp)),
      indentLines_breaks (fun d mem => are_breaks d (by simp [mem])), indentLines_true_cons starts]
    simp
  have split : line ++ b :: (bs ++ c :: more) = (line ++ b :: bs) ++ c :: more := by simp
  have here := r.here
  rw [written] at here
  have c_printable : isPrintable c = true := r.printable c (by simp)
  have here_line : p.rest = line ++ b :: (bs ++ (spaces column ++
      (indentLines column false (c :: more) ++ (lineEnd (c :: more) ++ (spaces n ++ rest))))) := by
    rw [here, split, lineEnd_append]
    simp
  -- one round of the reader takes the line, its break, and the gap in front of the next line
  obtain ⟨reached, step⟩ := blockLines_line line bs b column nonempty no_break
    (fun d mem => ⟨r.printable d (by rw [split]; exact List.mem_append_left _ (List.mem_append_right line mem)),
      are_breaks d mem⟩)
    (Nat.le_refl column) (stops_of_line more starts c_printable fun _ => ⟨by omega, Nat.le_refl column⟩)
    r.at_indent here_line
  refine ⟨?_, step _ _ _ _ _ _ _, written⟩
  exact {
    printable := fun d mem => r.printable d (by rw [split]; exact List.mem_append_right _ mem)
    keeps := (split ▸ r.keeps).suffix starts
    shallow
    next := r.next
    at_indent := reached
    here := Place.rest_behind_eq (by rw [here_line]; simp) }

/-- The lines of a literal block are read back, whatever has been read before them. -/
theorem blockLines_eq (r : LiteralReading chomping column n rest p cs) (nonempty : cs ≠ [])
    (starts : cs.head?.any isBreak = false) (enough : cs.length < fuel) :
    blockLines true chomping column fuel text last afterBlank ⟨deepest, breaks, p⟩ =
      some (text.reverse ++ last.reverse ++ breaks.reverse ++ cs,
        p.behind (indentLines column false cs ++ (lineEnd cs ++ spaces n))) := by
  -- the induction is on what is left of the text, one line with the breaks behind it at a time
  induction length : cs.length using Nat.strongRecOn
    generalizing cs p fuel text last breaks deepest afterBlank with
  | ind k ih =>
    obtain ⟨fuel, rfl⟩ : ∃ m, fuel = m + 2 := by
      have := List.length_pos_iff.mpr nonempty
      exact ⟨fuel - 2, by omega⟩
    have lines : Lines cs := by
      cases cs with
      | nil => exact absurd rfl nonempty
      | cons c more => exact lines_of_start (by simpa using starts) more
    cases lines with
    | last line line_ne no_break => exact r.run_last line_ne no_break
    | broken line bs b line_ne no_break are_breaks => exact r.run_broken line_ne no_break are_breaks
    | next line bs b c more line_ne no_break are_breaks c_starts =>
      obtain ⟨next, step, written⟩ := r.run_next line_ne no_break are_breaks c_starts
      have shorter : (c :: more).length < k := by
        rw [← length]
        simp
        omega
      rw [step, ih _ shorter next (by simp) (by simpa using c_starts) (by omega) rfl, written,
        ← Place.behind_append,
        show line ++ b :: (bs ++ c :: more) = (line ++ b :: bs) ++ c :: more by simp, lineEnd_append]
      simp

end LiteralReading

/-! ## The header -/

/-- Indentation does not change the last character. -/
theorem getLast?_indentLines (atStart : Bool) (text : List Char) :
    (indentLines column atStart text).getLast? = text.getLast? := by
  induction text generalizing atStart with
  | nil => rfl
  | cons c more ih =>
    have tail (b : Bool) : (c :: indentLines column b more).getLast? = (c :: more).getLast? := by
      rw [List.getLast?_cons, List.getLast?_cons, ih]
    rw [indentLines]
    split
    · exact tail true
    · split
      · rw [getLast?_append_cons]
        exact tail false
      · exact tail false

/-- The hint of a header about indentation. -/
def hintText (text : List Char) : List Char :=
  if text.head?.any fun c => isSpace c || isBreak c then ['2'] else []

/-- The hint of a header about the breaks at the end is right. -/
theorem literalHints_eq (nonempty : text ≠ []) : ∃ chomping : Chomping, chomping.Keeps text ∧
    literalHints text = hintText text ++ match chomping with
      | .strip => ['-']
      | .clip => []
      | .keep => ['+'] := by
  rcases List.eq_nil_or_concat text with rfl | ⟨start, last, rfl⟩
  · exact absurd rfl nonempty
  rw [List.concat_eq_append]
  by_cases breaks : isBreak last = true
  · rcases List.eq_nil_or_concat start with rfl | ⟨start, c, rfl⟩
    · exact ⟨.keep, by simp [Chomping.Keeps, breaks], by simp [literalHints, hintText, breaks]⟩
    rw [List.concat_eq_append]
    by_cases before : isBreak c = true
    · exact ⟨.keep, by simp [Chomping.Keeps, breaks], by simp [literalHints, hintText, breaks, before]⟩
    · exact ⟨.clip, ⟨start, c, last, by simp, by simpa using before, breaks⟩,
        by simp [literalHints, hintText, breaks, before]⟩
  · exact ⟨.strip, by simpa [Chomping.Keeps] using breaks, by simp [literalHints, hintText, breaks]⟩

/-- The head of a literal block is read as the hints that were written. -/
theorem blockHeader_eq (nonempty : text ≠ []) (here : p.rest = literalHints text ++ '\n' :: rest) :
    ∃ chomping : Chomping, chomping.Keeps text ∧
      blockHeader p = (chomping, (if hintText text = [] then 0 else 2), p.behind (literalHints text)) := by
  obtain ⟨chomping, keeps, hints⟩ := literalHints_eq nonempty
  refine ⟨chomping, keeps, ?_⟩
  rw [hints] at here ⊢
  -- whether there is a hint about indentation, and which one there is about the end
  by_cases hint : (text.head?.any fun c => isSpace c || isBreak c) = true <;> cases chomping <;>
    simp only [hintText, hint, if_true, Bool.false_eq_true, if_false, List.nil_append, List.cons_append] at here ⊢ <;>
    simp [blockHeader, here, chomping?, indentHint?, Place.advance, Place.behind, isBreak]

/-- A line on which nothing is left is done. -/
theorem finishLine?_of_break (here : p.rest = '\n' :: rest) :
    p.finishLine? = some (p.behind ['\n']) := by
  have stays : p.skipWhile isBlank = p := Place.skipWhile_eq_self (by simp [here, isBlank])
  rw [Place.finishLine?, stays, Place.skipComment_eq_self (by simp [here])]
  simp [here, atLineEnd, isBreak, Place.skipBreak,
    Place.readBreak?_eq_some here (by decide) (by decide)]

/-- Indentation does not make a text shorter, so that there is fuel enough. -/
theorem length_le_length_indentLines (atStart : Bool) (text : List Char) :
    text.length ≤ (indentLines column atStart text).length := by
  induction text generalizing atStart with
  | nil => simp
  | cons c more ih =>
    have ih₁ := ih true
    have ih₂ := ih false
    rw [indentLines]
    split
    · simpa using ih₁
    · split <;> simp <;> omega

/-- What is written for a literal block, up to the end of its last line. -/
theorem endLine_literal (nonempty : text ≠ []) :
    endLine (scalarLines .literal column text) = ['|'] ++ (literalHints text ++
      (['\n'] ++ (indentLines column true text ++ lineEnd text))) := by
  -- the last character decides how the text ends, and indenting keeps it
  have last : (scalarLines .literal column text).getLast? = text.getLast? := by
    cases written : indentLines column true text with
    | nil =>
      have := @getLast?_indentLines column true text
      rw [written] at this
      exact absurd (List.getLast?_eq_none_iff.mp this.symm) nonempty
    | cons d more =>
      rw [scalarLines, ← @getLast?_indentLines column true text, written,
        show ('|' :: literalHints text ++ '\n' :: d :: more) =
          ('|' :: literalHints text ++ ['\n']) ++ d :: more by simp, getLast?_append_cons]
  rw [endLine_eq, lineEnd, last, ← lineEnd]
  simp [scalarLines]

/-- The body of a literal block: the first line that is not empty shows how far it is indented,
    unless the header says so. -/
theorem blockLines_body {named : Nat} {outer : Int} {n : Nat} (nonempty : text ≠ [])
    (printable : ∀ c ∈ text, isPrintable c = true) (keeps : chomping.Keeps text)
    (column_eq : column = (max outer 0).toNat + 2) (shallow : n < column)
    (next : ∀ c ∈ rest.head?, isBlank c = false ∧ isBreak c = false)
    (named_eq : named = if hintText text = [] then 0 else column) (at_start : p.column = 0)
    (here : p.rest = indentLines column true text ++ (lineEnd text ++ (spaces n ++ rest))) :
    ∃ gap, readBlockGap? named p = some gap ∧
      blockLines true chomping
        (if named = 0 then max gap.deepest (max (outer + 1) 1).toNat else named)
        (p.rest.length + 1) [] [] false gap =
      some (text, p.behind (indentLines column true text ++ (lineEnd text ++ spaces n))) := by
  -- empty lines come first; whether a line follows decides how the indentation is found
  obtain ⟨bs, cs, rfl, are_breaks, starts⟩ := exists_span isBreak text
  have bs_breaks : ∀ c ∈ bs, isPrintable c = true ∧ isBreak c = true :=
    fun c mem => ⟨printable c (List.mem_append_left cs mem), are_breaks c mem⟩
  rw [indentLines_breaks are_breaks] at here ⊢
  cases cs with
  | nil =>
    -- nothing but breaks: the lines end before the first one
    simp only [List.append_nil, indentLines] at *
    have first : bs.head?.any (fun c => isSpace c || isBreak c) = true := by
      cases bs with
      | nil => exact absurd rfl nonempty
      | cons b bs => simp [are_breaks b (by simp)]
    have hint : hintText bs = ['2'] := by rw [hintText, if_pos first]
    have named_eq : named = column := by simp [named_eq, hint]
    have broken : bs.getLast?.any isBreak = true := by
      cases found : bs.getLast? with
      | none => exact absurd (List.getLast?_eq_none_iff.mp found) nonempty
      | some c => exact are_breaks c (List.mem_of_getLast? found)
    have ending : lineEnd bs = [] := by rw [lineEnd, if_pos broken]
    have keep : chomping = .keep := by
      cases chomping with
      | keep => rfl
      | strip =>
        rw [Chomping.Keeps, broken] at keeps
        exact absurd keeps (by decide)
      | clip =>
        obtain ⟨start, c, b, rfl, no_break, -⟩ := keeps
        rw [are_breaks c (by simp)] at no_break
        exact absurd no_break (by decide)
    rw [ending, List.nil_append] at here ⊢
    obtain ⟨reached, gap⟩ := readBlockGap?_eq named bs n bs_breaks at_start here
      (.inr (by omega)) (stops_of_opener next)
    refine ⟨_, gap, ?_⟩
    rw [named_eq, if_neg (by omega), blockLines_end (.inl (by omega)), keep]
    simp
  | cons c more =>
    have c_start : isBreak c = false := starts c rfl
    have c_printable : isPrintable c = true := printable c (by simp)
    rw [indentLines_true_cons c_start, lineEnd_append, List.append_assoc, List.append_assoc] at here
    -- a space at the start of the text makes the header name the indentation
    have hinted (space : c = ' ') : named = column := by
      have opens : (bs ++ c :: more).head?.any (fun d => isSpace d || isBreak d) = true := by
        cases bs with
        | nil => simp [space, isSpace]
        | cons b bs => simp [are_breaks b (by simp)]
      rw [named_eq, hintText, if_pos opens, if_neg (by simp)]
    have named_cases : named = 0 ∨ named = column := by
      rw [named_eq]
      split
      · exact .inl rfl
      · exact .inr rfl
    obtain ⟨reached, gap⟩ := readBlockGap?_eq named bs column bs_breaks at_start here (by omega)
      (stops_of_line more c_start c_printable fun space => by
        have := hinted space
        omega)
    have indent_eq : (if named = 0 then max column (max (outer + 1) 1).toNat else named) = column := by
      split <;> omega
    have r : LiteralReading chomping column n rest (p.behind (bs ++ spaces column)) (c :: more) := {
      printable := fun d mem => printable d (List.mem_append_right bs mem)
      keeps := keeps.suffix c_start
      shallow, next
      at_indent := reached
      here := by
        rw [Place.behind_append]
        exact Place.rest_behind_eq (Place.rest_behind_eq here) }
    have enough : (c :: more).length < p.rest.length + 1 := by
      have := @length_le_length_indentLines column false (c :: more)
      rw [here]
      simp only [List.length_append]
      omega
    refine ⟨_, gap, ?_⟩
    rw [indent_eq, r.blockLines_eq (by simp) (by simpa using c_start) enough,
      indentLines_true_cons c_start, lineEnd_append, ← Place.behind_append]
    simp

/-- A text that is written as a literal block is read back, and so is the indentation of the line
    behind it. -/
theorem readBlock?_literal {outer : Int} {n : Nat} (fits : fitsLiteral text = true)
    (column_eq : column = (max outer 0).toNat + 2) (shallow : n < column)
    (next : ∀ c ∈ rest.head?, isBlank c = false ∧ isBreak c = false)
    (here : p.rest = endLine (scalarLines .literal column text) ++ (spaces n ++ rest)) :
    readBlock? true outer p =
      some (text, p.behind (endLine (scalarLines .literal column text) ++ spaces n)) := by
  simp only [fitsLiteral, Bool.and_eq_true, Bool.not_eq_true', List.all_eq_true] at fits
  obtain ⟨⟨⟨nonempty, printable⟩, -⟩, -⟩ := fits
  have nonempty : text ≠ [] := by simpa using nonempty
  rw [endLine_literal nonempty] at here ⊢
  have moved : p.advance 1 = p.behind ['|'] := (Place.behind_singleton (by decide)).symm
  simp only [List.append_assoc] at here
  have here_header := Place.rest_behind_eq (w := ['|']) here
  obtain ⟨chomping, keeps, header⟩ := blockHeader_eq nonempty here_header
  have here_break := Place.rest_behind_eq here_header
  have here_body := Place.rest_behind_eq (w := ['\n']) here_break
  have at_start : (((p.behind ['|']).behind (literalHints text)).behind ['\n']).column = 0 := by
    simp [Place.behind, isBreak]
  obtain ⟨gap, read_gap, read⟩ := blockLines_body nonempty printable keeps column_eq shallow next rfl
    at_start here_body
  -- with a hint in the header the margin is known, otherwise the gap tells it
  have named : (if (if hintText text = [] then 0 else 2) = 0 then 0
      else (max outer 0).toNat + (if hintText text = [] then 0 else 2)) =
      if hintText text = [] then 0 else column := by
    split <;> simp_all
  rw [readBlock?, moved, header]
  simp only [finishLine?_of_break here_break, named, read_gap, read]
  simp only [← Place.behind_append, List.append_assoc]

end DeployManifest.Yaml
