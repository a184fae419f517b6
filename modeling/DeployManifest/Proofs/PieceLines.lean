import DeployManifest.Proofs.KeySizes
import DeployManifest.Proofs.LeafScanning
import DeployManifest.Yaml.Source

/-!
# Lines of pieces

The text of a piece is a row of lines: behind an indicator or a colon it starts with a gap, it ends with
the end of a line, and the lines of a collection stand in one column.  All its characters may stand in
a document.

- `EndsLine`, `endsLine_text`, `startsGap_text`: how the text of a piece ends, and how it starts.
- `lines`, `text_seq`, `text_map`: the text of a collection is a row of lines.
- `AreAllowed`, `areAllowed_text`: all characters of the text may stand in a document.
-/

namespace DeployManifest.Yaml.Piece

variable {p : Place} {rest : List Char} {n : Nat} {behind : Behind} {column : Nat}

/-! ## Ends of lines -/

/-- Whether a text ends with a line. -/
def EndsLine (text : List Char) : Prop := text.getLast?.any isBreak = true

/-- A text that ends with a line does so behind anything. -/
theorem EndsLine.append (a : List Char) {b : List Char} (ends : EndsLine b) : EndsLine (a ++ b) := by
  have nonempty : b ≠ [] := by
    rintro rfl
    nomatch ends
  rw [EndsLine, List.getLast?_append_of_ne_nil a nonempty]
  exact ends

/-- A line that has been ended ends. -/
theorem endsLine_endLine (text : List Char) : EndsLine (endLine text) := by
  unfold endLine
  split
  · next ends => exact ends
  · exact EndsLine.append text (b := ['\n']) rfl

/-- A text that ends with a line ends in a break. -/
theorem EndsLine.exists_concat {text : List Char} (ends : EndsLine text) :
    ∃ before c, text = before ++ [c] ∧ isBreak c = true := by
  unfold EndsLine at ends
  cases last : text.getLast? with
  | none => simp [last] at ends
  | some c =>
    obtain ⟨before, rfl⟩ := List.getLast?_eq_some_iff.mp last
    exact ⟨before, c, rfl, by simpa using ends⟩

/-- Behind the indentation of the next line. -/
theorem EndsLine.column_eq {text : List Char} (ends : EndsLine text)
    (here : p.rest = text ++ (spaces n ++ rest)) : (p.behind (text ++ spaces n)).column = n := by
  have nonempty : text ≠ [] := by
    rintro rfl
    nomatch ends
  have breaks : isBreak (text.getLast nonempty) = true := by
    simpa [EndsLine, List.getLast?_eq_some_getLast nonempty] using ends
  have column_zero : (p.behind text).column = 0 := by
    rw [← List.dropLast_append_getLast nonempty, Place.behind_append]
    simp [Place.behind, breaks]
  rw [Place.behind_append, Place.behind_eq_of_no_break isBreak_of_mem_spaces (Place.rest_behind_eq here)]
  simp [column_zero, spaces]

/-- Lines in a column, without the indentation of the first one. -/
def lines {α : Type} (column : Nat) (line : α → List Char) : List α → List Char
  | [] => []
  | first :: more => line first ++ more.flatMap fun next => spaces column ++ line next

theorem lines_cons_cons {α : Type} (column : Nat) (line : α → List Char) (first next : α)
    (more : List α) : lines column line (first :: next :: more) =
      line first ++ (spaces column ++ lines column line (next :: more)) := by
  simp [lines]

theorem drop_indentation (column : Nat) (w : List Char) : (spaces column ++ w).drop column = w :=
  List.drop_left' (by simp [spaces])

/-- What an item is written as, behind its indentation. -/
def itemText (column : Nat) (item : Piece) : List Char := '-' :: item.text .dash column

/-- What an entry is written as, behind its indentation. -/
def entryText (column : Nat) (entry : Piece × Piece) : List Char :=
  match simpleKey? entry.1 with
  | some text => text ++ ':' :: entry.2.text .key column
  | none =>
    '?' :: (entry.1.text .mark column ++ (spaces column ++ ':' :: entry.2.text .mark column))

/-- The items of a sequence are written one behind the other. -/
theorem items_eq (column : Nat) (all : List Piece) :
    items column all = all.flatMap fun item => spaces column ++ itemText column item := by
  induction all with
  | nil => rfl
  | cons item more ih => simp [items, itemText, ih]

/-- The entries of a mapping are written one behind the other. -/
theorem entries_eq (column : Nat) (all : List (Piece × Piece)) :
    entries column all = all.flatMap fun entry => spaces column ++ entryText column entry := by
  induction all with
  | nil => rfl
  | cons entry more ih =>
    obtain ⟨k, v⟩ := entry
    rw [entries, ih, List.flatMap_cons, entryText]
    cases simpleKey? k <;> simp

/-- A sequence is written as the lines of its items. -/
theorem text_seq (behind : Behind) (column : Nat) (property? : Option Property) (item : Piece)
    (more : List Piece) : (Piece.seq property? (item :: more)).text behind column =
      opening behind (behind.dashes property?.isSome column) property? ++
        lines (behind.dashes property?.isSome column)
          (itemText (behind.dashes property?.isSome column)) (item :: more) := by
  rw [text, items_eq, List.flatMap_cons, List.append_assoc, drop_indentation]
  · rfl
  · simp

/-- A mapping is written as a row of its entries. -/
theorem text_map (behind : Behind) (column : Nat) (property? : Option Property) (entry : Piece × Piece)
    (more : List (Piece × Piece)) : (Piece.map property? (entry :: more)).text behind column =
      opening behind (behind.inner column) property? ++
        lines (behind.inner column) (entryText (behind.inner column)) (entry :: more) := by
  rw [text, entries_eq, List.flatMap_cons, List.append_assoc, drop_indentation]
  · rfl
  · simp

/-- A row of lines ends with a line. -/
theorem endsLine_lines {α : Type} {line : α → List Char} {all : List α}
    (ends : ∀ e ∈ all, EndsLine (line e)) (nonempty : all ≠ []) : EndsLine (lines column line all) := by
  induction all with
  | nil => exact absurd rfl nonempty
  | cons first more ih =>
    cases more with
    | nil => simpa [lines] using ends first (by simp)
    | cons next later =>
      rw [lines_cons_cons]
      exact .append _ (.append _ (ih (fun e mem => ends e (by simp [mem])) (by simp)))

/-- An entry ends with a line, as its value does. -/
theorem endsLine_entryText {entry : Piece × Piece}
    (ends : ∀ behind column, EndsLine (entry.2.text behind column)) :
    EndsLine (entryText column entry) := by
  unfold entryText
  split
  · exact ((ends .key column).append [':']).append _
  · exact .append ['?'] (.append _ (.append _ (.append [':'] (ends .mark column))))

/-- The text of a piece ends with a line. -/
theorem endsLine_text (piece : Piece) (behind : Behind) (column : Nat) :
    EndsLine (piece.text behind column) := by
  induction piece generalizing behind column with
  | reference name => exact .append _ (.append ['*'] (.append _ rfl))
  | scalar property? leaf => exact .append _ (endsLine_endLine _)
  | seq property? all ih =>
    cases all with
    | nil => exact .append _ rfl
    | cons item more =>
      rw [text_seq]
      exact .append _ (endsLine_lines (fun item mem => .append ['-'] (ih item mem .dash _)) (by simp))
  | map property? all ih =>
    cases all with
    | nil => exact .append _ rfl
    | cons entry more =>
      rw [text_map]
      exact .append _ (endsLine_lines (fun entry mem => endsLine_entryText (ih entry mem).2) (by simp))

/-- Behind a dash, a question mark or a colon there is a gap. -/
theorem startsGap_text {piece : Piece} (inside : behind ≠ .start) :
    StartsGap (piece.text behind column ++ rest) := by
  have gap : behind.gap = [' '] := by cases behind <;> simp_all [Behind.gap]
  have lead_starts (property? : Option Property) (w : List Char) :
      StartsGap (lead behind property? ++ w) := by
    cases property? <;> exact .inl (by simp [lead, gap])
  have opening_starts (property? : Option Property) (inside : Nat) (w : List Char) :
      StartsGap (opening behind inside property? ++ w) := by
    cases property? with
    | some property => exact .inl (by simp [opening, gap])
    | none =>
      by_cases after_key : behind = .key
      · exact .inr (by simp [opening, Behind.opening, after_key])
      · exact .inl (by simp [opening, Behind.opening, after_key, gap])
  -- whatever is written of a piece starts with a lead or with an opening
  cases piece with
  | reference name => exact .inl (by simp [text, gap])
  | scalar property? leaf =>
    rw [text, List.append_assoc]
    exact lead_starts _ _
  | seq property? all =>
    cases all with
    | nil =>
      rw [text, List.append_assoc]
      exact lead_starts _ _
    | cons item more =>
      rw [text, List.append_assoc]
      · exact opening_starts _ _ _
      · simp
  | map property? all =>
    cases all with
    | nil =>
      rw [text, List.append_assoc]
      exact lead_starts _ _
    | cons entry more =>
      rw [text, List.append_assoc]
      · exact opening_starts _ _ _
      · simp

/-! ## Characters -/

/-- Whether all characters of a text may stand in a document. -/
def AreAllowed (text : List Char) : Prop := ∀ c ∈ text, isAllowed c = true

/-- Texts whose characters are allowed can be put together. -/
theorem AreAllowed.append {a b : List Char} (first : AreAllowed a) (second : AreAllowed b) :
    AreAllowed (a ++ b) := by
  intro c mem
  rcases List.mem_append.mp mem with mem | mem
  · exact first c mem
  · exact second c mem

theorem AreAllowed.cons {c : Char} {b : List Char} (first : isAllowed c = true)
    (second : AreAllowed b) : AreAllowed (c :: b) := List.forall_mem_cons.mpr ⟨first, second⟩

theorem areAllowed_spaces (n : Nat) : AreAllowed (spaces n) := by
  intro c mem
  obtain rfl := List.eq_of_mem_replicate mem
  decide

theorem isAllowed_of_isPrintable {c : Char} (printable : isPrintable c = true) :
    isAllowed c = true := by
  simp only [isPrintable, isAllowed, Bool.or_eq_true, Bool.and_eq_true, decide_eq_true_eq] at *
  omega

theorem isAllowed_of_isAlphanum {c : Char} (alphanum : c.isAlphanum = true) :
    isAllowed c = true := by
  simp [isAllowed, visible_of_isAlphanum alphanum]

/-- What stands in the name of an anchor is allowed. -/
theorem isAllowed_of_isNameChar {c : Char} (name : isNameChar c = true) : isAllowed c = true := by
  simp only [isNameChar, Bool.or_eq_true, beq_iff_eq] at name
  rcases name with (alphanum | rfl) | rfl
  · exact isAllowed_of_isAlphanum alphanum
  · decide
  · decide

/-- What stands in a tag as it is, is allowed. -/
theorem isAllowed_of_isTagSafe {c : Char} (safe : isTagSafe c = true) : isAllowed c = true := by
  simp only [isTagSafe, isWrittenTagChar, Bool.or_eq_true, List.contains_eq_mem,
    decide_eq_true_eq] at safe
  rcases safe with (alphanum | listed) | rfl
  · exact isAllowed_of_isAlphanum alphanum
  · have all : ∀ d ∈ "_-;/?:@&=+$,.~*\x27()[]".toList, isAllowed d = true :=
      forall_mem_of_all (by decide)
    exact all c listed
  · decide

/-- The characters of a property are allowed. -/
theorem areAllowed_property (property : Property) : AreAllowed property.text := by
  cases property with
  | anchor name => exact .cons (by decide) fun c mem => isAllowed_of_isNameChar (name.valid c mem)
  | tag name =>
    rcases writtenTag_cases name with h | ⟨u, h, safe⟩
    · rw [Property.text, h]
      exact forall_mem_of_all (by decide)
    · rw [Property.text, h]
      exact .cons (by decide) fun c mem => isAllowed_of_isTagSafe (safe c mem)

theorem areAllowed_upperHex (width n : Nat) : AreAllowed (upperHex width n) := fun c mem =>
  isAllowed_of_isTagSafe (isTagSafe_of_digit? (digit?_of_nat? (nat?_upperHex width n) c mem))

/-- Every character can be escaped with what is allowed. -/
theorem areAllowed_escaped (c : Char) : AreAllowed (escaped c) := by
  unfold escaped
  split
  · next plain =>
    simp only [Bool.and_eq_true] at plain
    intro d mem
    obtain rfl := List.mem_singleton.mp mem
    exact isAllowed_of_isPrintable plain.1.1.1
  refine .cons (by decide) ?_
  split
  all_goals first
    | next => exact List.forall_mem_singleton.mpr (by decide)
    | skip
  -- the last case is that of a character without a letter
  split
  · exact .cons (by decide) (areAllowed_upperHex _ _)
  split
  · exact .cons (by decide) (areAllowed_upperHex _ _)
  · exact .cons (by decide) (areAllowed_upperHex _ _)

/-- Indentation brings in nothing that is not allowed. -/
theorem areAllowed_indentLines (column : Nat) (atStart : Bool) {text : List Char}
    (allowed : AreAllowed text) : AreAllowed (indentLines column atStart text) := by
  induction text generalizing atStart with
  | nil => simp [indentLines, AreAllowed]
  | cons c text ih =>
    obtain ⟨first, later⟩ := List.forall_mem_cons.mp allowed
    rw [indentLines]
    split
    · exact .cons first (ih _ later)
    split
    · exact (areAllowed_spaces column).append (.cons first (ih _ later))
    · exact .cons first (ih _ later)

/-- The hints of a literal block are allowed. -/
theorem areAllowed_literalHints (text : List Char) : AreAllowed (literalHints text) := by
  unfold literalHints
  refine .append ?_ ?_
  · split <;> exact forall_mem_of_all (by decide)
  · split
    · split
      · exact forall_mem_of_all (by decide)
      · split
        · exact forall_mem_of_all (by decide)
        · split <;> exact forall_mem_of_all (by decide)
    · exact forall_mem_of_all (by decide)

/-- The characters of a scalar are allowed in every style. -/
theorem areAllowed_scalarLines (leaf : Leaf) (column : Nat) :
    AreAllowed (scalarLines leaf.style column leaf.text.toList) := by
  have printable_allowed (printable : leaf.text.toList.all isPrintable = true) :
      AreAllowed leaf.text.toList :=
    fun c mem => isAllowed_of_isPrintable (List.all_eq_true.mp printable c mem)
  -- only double quotes can hold what cannot be printed, and they escape it
  rcases leaf.style_cases with ⟨style, fits, -⟩ | ⟨style, fits, -⟩ | ⟨style, fits, -⟩ | style
  · rw [style]
    simp only [fitsPlain, fitsSingleQuotes, Bool.and_eq_true] at fits
    exact printable_allowed fits.1.1.1.1.1.1.1.1
  · rw [style]
    simp only [fitsSingleQuotes, Bool.and_eq_true] at fits
    have allowed := printable_allowed fits.1.1
    have doubled : AreAllowed (leaf.text.toList.flatMap fun c => if c = '\'' then [c, c] else [c]) := by
      intro c mem
      obtain ⟨d, mem_text, mem⟩ := List.mem_flatMap.mp mem
      have first := allowed d mem_text
      split at mem <;> simp_all
    have margin : AreAllowed (if leaf.text.toList.getLast?.any isBreak then spaces column else []) := by
      split
      · exact areAllowed_spaces column
      · simp [AreAllowed]
    exact (((areAllowed_indentLines _ _ doubled).cons (by decide)).append margin).append
      (List.forall_mem_singleton.mpr (by decide))
  · rw [style]
    simp only [fitsLiteral, Bool.and_eq_true] at fits
    have allowed := printable_allowed fits.1.1.2
    exact .cons (by decide) ((areAllowed_literalHints _).append
      (.cons (by decide) (areAllowed_indentLines _ _ allowed)))
  · rw [style]
    refine .append (.cons (by decide) fun c mem => ?_) (List.forall_mem_singleton.mpr (by decide))
    obtain ⟨d, -, mem⟩ := List.mem_flatMap.mp mem
    exact areAllowed_escaped d c mem

/-- The end of a line is allowed. -/
theorem areAllowed_lineEnd (text : List Char) : AreAllowed (lineEnd text) := by
  unfold lineEnd
  split
  · simp [AreAllowed]
  · exact List.forall_mem_singleton.mpr (by decide)

theorem areAllowed_gap (behind : Behind) : AreAllowed behind.gap := by
  cases behind <;> exact forall_mem_of_all (by decide)

/-- The gap in front of a piece is allowed together with the property behind it. -/
theorem areAllowed_lead (behind : Behind) (property? : Option Property) :
    AreAllowed (lead behind property?) := by
  cases property? with
  | none => exact areAllowed_gap behind
  | some property =>
    exact (areAllowed_gap behind).append
      ((areAllowed_property property).append (areAllowed_spaces 1))

/-- What stands in front of a collection is allowed. -/
theorem areAllowed_opening (behind : Behind) (column : Nat) (property? : Option Property) :
    AreAllowed (opening behind column property?) := by
  cases property? with
  | none =>
    rw [opening, Behind.opening]
    split
    · exact .cons (by decide) (areAllowed_spaces column)
    · exact areAllowed_gap behind
  | some property =>
    exact (areAllowed_gap behind).append
      ((areAllowed_property property).append (.cons (by decide) (areAllowed_spaces column)))

/-- Rows of lines that are allowed are allowed. -/
theorem areAllowed_lines {α : Type} {line : α → List Char} {all : List α}
    (allowed : ∀ e ∈ all, AreAllowed (line e)) : AreAllowed (lines column line all) := by
  cases all with
  | nil => simp [lines, AreAllowed]
  | cons first more =>
    refine (allowed first (by simp)).append fun c mem => ?_
    obtain ⟨next, mem_more, mem⟩ := List.mem_flatMap.mp mem
    exact (areAllowed_spaces column).append (allowed next (by simp [mem_more])) c mem

/-- The characters of a simple key are allowed. -/
theorem areAllowed_simpleKey {key : Piece} {written : List Char}
    (simple : key.simpleKey? = some written) : AreAllowed written := by
  obtain ⟨⟨property?, bare, rfl, is_simple⟩, -⟩ := isSimple_of_simpleKey? simple
  refine (areAllowed_lead .start property?).append ?_
  cases is_simple with
  | scalar _ leaf no_break => exact areAllowed_scalarLines leaf 0
  | seq => exact forall_mem_of_all (by decide)
  | map => exact forall_mem_of_all (by decide)

/-- The characters of an entry are allowed if those of the key and of the value are. -/
theorem areAllowed_entryText {entry : Piece × Piece}
    (key : ∀ behind column, AreAllowed (entry.1.text behind column))
    (value : ∀ behind column, AreAllowed (entry.2.text behind column)) :
    AreAllowed (entryText column entry) := by
  unfold entryText
  split
  · next simple =>
    exact (areAllowed_simpleKey simple).append (.cons (by decide) (value .key column))
  · exact .cons (by decide) ((key .mark column).append ((areAllowed_spaces column).append
      (.cons (by decide) (value .mark column))))

/-- All characters of the text of a piece may stand in a document. -/
theorem areAllowed_text (piece : Piece) (behind : Behind) (column : Nat) :
    AreAllowed (piece.text behind column) := by
  -- only leaves hold characters of the value; gaps, marks and margins are allowed as they are
  induction piece generalizing behind column with
  | reference name =>
    have name_allowed : AreAllowed name.text.toList :=
      fun c mem => isAllowed_of_isNameChar (name.valid c mem)
    exact (areAllowed_gap behind).append ((name_allowed.cons (by decide)).append
      (List.forall_mem_singleton.mpr (by decide)))
  | scalar property? leaf =>
    refine (areAllowed_lead behind property?).append ?_
    rw [endLine_eq]
    exact (areAllowed_scalarLines leaf _).append (areAllowed_lineEnd _)
  | seq property? all ih =>
    cases all with
    | nil =>
      exact (areAllowed_lead behind property?).append (forall_mem_of_all (by decide))
    | cons item more =>
      rw [text_seq]
      exact (areAllowed_opening behind _ property?).append
        (areAllowed_lines fun item mem => (ih item mem .dash _).cons (by decide))
  | map property? all ih =>
    cases all with
    | nil =>
      exact (areAllowed_lead behind property?).append (forall_mem_of_all (by decide))
    | cons entry more =>
      rw [text_map]
      exact (areAllowed_opening behind _ property?).append
        (areAllowed_lines fun entry mem => areAllowed_entryText (ih entry mem).1 (ih entry mem).2)

end DeployManifest.Yaml.Piece
