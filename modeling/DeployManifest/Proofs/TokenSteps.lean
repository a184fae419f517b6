import DeployManifest.Proofs.Scanning
import DeployManifest.Proofs.PropertyReading

/-!
# Steps over tokens

What the scanner makes of each kind of token that is printed: indicators, properties, scalars and
pairs of brackets.  Wherever a key may start, its start is remembered behind the token.

- `leads_blockEntry`, `leads_explicitKey`, `leads_open`, `leads_shut`: indicators and brackets.
- `leads_keyLike`: properties and quoted scalars, by what is read.
- `plain?_inBlock`: plain scalars.
- `Idle`: key starts that are remembered but not in the way of what follows.
-/

namespace DeployManifest.Yaml.Scanner

variable {s m t : Scanner} {p : Place} {ts : List Token} {allowed : Bool} {key? : Option KeyStart}
  {indent : Int} {outer : List Int} {rest : List Char} {c : Char} {n : Nat}

/-! ## Indicators -/

/-- The tokens behind a mark that opens a block in `column` if the innermost one is less deep. -/
def marked (mark : Token) (indent : Int) (column : Nat) (ts : List Token) : List Token :=
  if indent < column then mark :: ts else ts

/-- The indentations around a block in `column`. -/
def around (indent : Int) (column : Nat) (outer : List Int) : List Int :=
  if indent < column then indent :: outer else outer

/-- An indicator that stands where a key may start opens a block there. -/
theorem openHere?_inBlock (mark : Token) (inside : indent ≤ p.column) :
    (inBlock p ts true none indent outer).openHere? mark =
      some (inBlock p (marked mark indent p.column ts) true none p.column
        (around indent p.column outer)) := by
  by_cases deeper : indent < p.column
  · simp [openHere?, inBlock, inFlow, openBlock, deeper, insertAt, marked, around]
  · obtain rfl : indent = p.column := by omega
    simp [openHere?, inBlock, inFlow, openBlock, marked, around]

/-- An indicator is no marker between documents. -/
theorem not_marker_of_gap (gap : StartsGap rest) : atDocumentMarker (c :: rest) = false := by
  unfold atDocumentMarker
  split
  · next h =>
    obtain ⟨-, rfl⟩ := List.cons.inj h
    simp [StartsGap] at gap
  · next h =>
    obtain ⟨-, rfl⟩ := List.cons.inj h
    simp [StartsGap] at gap
  · rfl

/-- A dash with a gap behind it is an item of a block sequence, which it opens if it stands deeper. -/
theorem leads_blockEntry (inside : indent ≤ p.column) (here : p.rest = '-' :: rest)
    (gap : StartsGap rest) :
    Leads (inBlock p ts true none indent outer)
      (inBlock (p.behind ['-']) (.blockEntry :: marked .blockSequenceStart indent p.column ts) true
        none p.column (around indent p.column outer)) := by
  refine leads_token (by decide) here inside rfl (?_ : _ = some _) ?_
  · have dispatch : (inBlock p ts true none indent outer).token? '-' rest =
        Scanner.blockEntry? (inBlock p ts true none indent outer) := by
      simp [token?, inBlock, here, not_marker_of_gap gap, gap.atGap]
    rw [dispatch, blockEntry?, openHere?_inBlock _ inside, Place.behind_singleton (by decide)]
    rfl
  · simp [inBlock, here]

/-- A question mark with a gap behind it announces a key, and opens a block mapping if it stands deeper. -/
theorem leads_explicitKey (inside : indent ≤ p.column) (here : p.rest = '?' :: rest)
    (gap : StartsGap rest) :
    Leads (inBlock p ts true none indent outer)
      (inBlock (p.behind ['?']) (.key :: marked .blockMappingStart indent p.column ts) true
        none p.column (around indent p.column outer)) := by
  refine leads_token (by decide) here inside rfl (?_ : _ = some _) ?_
  · have dispatch : (inBlock p ts true none indent outer).token? '?' rest =
        (inBlock p ts true none indent outer).explicitKey? := by
      simp [token?, inBlock, here, not_marker_of_gap gap, gap.atGap]
    rw [dispatch, explicitKey?, openHere?_inBlock _ inside, Place.behind_singleton (by decide)]
    rfl
  · simp [inBlock, here]

/-- A colon on a line of its own, for a key that was announced by a question mark. -/
theorem leads_explicitValue (here : p.rest = ':' :: rest) (gap : StartsGap rest) :
    Leads (inBlock p ts true none p.column outer)
      (inBlock (p.behind [':']) (.value :: ts) true none p.column outer) := by
  refine leads_token (by decide) here (Int.le_refl _) rfl (?_ : _ = some _) ?_
  · have dispatch : (inBlock p ts true none p.column outer).token? ':' rest =
        (inBlock p ts true none p.column outer).value? := by
      simp [token?, inBlock, here, not_marker_of_gap gap, gap.atGap]
    rw [dispatch, value?, Place.behind_singleton (by decide)]
    rw [show (inBlock p ts true none p.column outer).keyStart? = none from rfl]
    dsimp only
    rw [openHere?_inBlock _ (Int.le_refl _)]
    simp [marked, around]
    rfl
  · simp [inBlock, here]

/-! ## Tokens that may start a key -/

/-- The key start that is remembered behind a token that may start a key. -/
def saved (allowed : Bool) (key? : Option KeyStart) (indent : Int) (p : Place) (ts : List Token) :
    Option KeyStart :=
  if allowed then some ⟨indent == p.column, ts.length, p.index, p.line, p.column⟩ else key?

/-- In a block, a key start is remembered wherever a key is allowed. -/
theorem saveKey?_inBlock (fresh : allowed = true → key? = none) :
    (inBlock p ts allowed key? indent outer).saveKey? =
      some (inBlock p ts allowed (saved allowed key? indent p ts) indent outer) := by
  cases allowed with
  | false => rfl
  | true =>
    rw [fresh rfl]
    rfl

variable {key' : Option KeyStart} {read : Place → Option (Token × Place)} {token : Token}
  {next : Place}

/-- A token that may be a key is read, and no key may start right behind it. -/
theorem leads_keyLike (visible : isVisible c = true) (here : p.rest = c :: rest)
    (inside : indent ≤ p.column) (refreshed : refresh? p key? = some key')
    (fresh : allowed = true → key' = none)
    (dispatch : (inBlock p ts allowed key' indent outer).token? c rest =
      (inBlock p ts allowed key' indent outer).keyLike? read)
    (reads : read p = some (token, next)) (shorter : next.rest.length < p.rest.length) :
    Leads (inBlock p ts allowed key? indent outer)
      (inBlock next (token :: ts) false (saved allowed key' indent p ts) indent outer) := by
  refine leads_token visible here inside refreshed (?_ : _ = some _) shorter
  rw [dispatch, keyLike?, saveKey?_inBlock fresh]
  change (read p).bind _ = _
  rw [reads]
  rfl

/-- Where such a token cannot be read, the scanner gives up. -/
theorem fails_keyLike (visible : isVisible c = true) (here : p.rest = c :: rest)
    (inside : indent ≤ p.column) (refreshed : refresh? p key? = some key')
    (fresh : allowed = true → key' = none)
    (dispatch : (inBlock p ts allowed key' indent outer).token? c rest =
      (inBlock p ts allowed key' indent outer).keyLike? read)
    (unread : read p = none) : Fails (inBlock p ts allowed key? indent outer) := by
  refine fails_token visible here inside refreshed ?_
  rw [dispatch, keyLike?, saveKey?_inBlock fresh]
  change (read p).bind _ = _
  rw [unread]
  rfl

/-- What reads a quoted text as a token. -/
def quotedToken? (single : Bool) (p : Place) : Option (Token × Place) :=
  (readQuoted? single p).map fun (text, next) =>
    (.scalar (if single then .singleQuoted else .doubleQuoted) (String.ofList text), next)

/-- A single quote starts a scalar in quotes. -/
theorem token?_singleQuote (here : p.rest = '\'' :: rest) :
    (inBlock p ts allowed key? indent outer).token? '\'' rest =
      (inBlock p ts allowed key? indent outer).keyLike? (quotedToken? true) := by
  simp [token?, inBlock, here, atDocumentMarker, quoted?]
  rfl

/-- So does a double quote. -/
theorem token?_doubleQuote (here : p.rest = '"' :: rest) :
    (inBlock p ts allowed key? indent outer).token? '"' rest =
      (inBlock p ts allowed key? indent outer).keyLike? (quotedToken? false) := by
  simp [token?, inBlock, here, atDocumentMarker, quoted?]
  rfl

/-- What reads an anchor or an alias as a token. -/
def anchorToken? (token : String → Token) (p : Place) : Option (Token × Place) :=
  (readAnchor? p).map fun (name, next) => (token name, next)

/-- An asterisk starts an alias. -/
theorem token?_alias (here : p.rest = '*' :: rest) :
    (inBlock p ts allowed key? indent outer).token? '*' rest =
      (inBlock p ts allowed key? indent outer).keyLike? (anchorToken? .alias) := by
  simp [token?, inBlock, here, atDocumentMarker, anchor?]
  rfl

/-- An ampersand starts an anchor. -/
theorem token?_anchor (here : p.rest = '&' :: rest) :
    (inBlock p ts allowed key? indent outer).token? '&' rest =
      (inBlock p ts allowed key? indent outer).keyLike? (anchorToken? .anchor) := by
  simp [token?, inBlock, here, atDocumentMarker, anchor?]
  rfl

/-- An exclamation mark starts a tag. -/
theorem token?_tag (here : p.rest = '!' :: rest) :
    (inBlock p ts allowed key? indent outer).token? '!' rest =
      (inBlock p ts allowed key? indent outer).keyLike? tagToken? := by
  have dispatch : (inBlock p ts allowed key? indent outer).token? '!' rest =
      (inBlock p ts allowed key? indent outer).tag? := by
    simp [token?, inBlock, here, atDocumentMarker]
  rw [dispatch, tag?]
  congr 1
  funext q
  rw [tagToken?]
  cases read : readTag? q with
  | none => rfl
  | some found =>
    by_cases closed : atGap found.2.rest = true <;> simp [closed, inBlock, inFlow, Option.filter, guard]

/-! ## Plain scalars -/

/-- A plain scalar is not taken for a marker between documents. -/
theorem not_marker_of_fitsPlain {text : List Char} {d : Char} (fits : fitsPlain text = true)
    (other : d ≠ '-' ∧ d ≠ '.') : atDocumentMarker (text ++ d :: rest) = false := by
  simp only [fitsPlain, Bool.and_eq_true, Bool.not_eq_true', Bool.or_eq_false_iff] at fits
  obtain ⟨⟨⟨-, dashes, dots⟩, -⟩, -⟩ := fits
  unfold atDocumentMarker
  rcases text with _ | ⟨a, _ | ⟨b, _ | ⟨c, more⟩⟩⟩
  · split <;> simp_all
  · split <;> simp_all
  · split <;> simp_all
  · split <;> simp_all

/-- The signs that start another token. -/
theorem ne_of_not_opensWithIndicator {more : List Char} (opens : opensWithIndicator (c :: more) = false) :
    ∀ d ∈ "#,[]\x7b\x7d&*!|>\x27\x22%@\x60".toList, c ≠ d := by
  simp only [opensWithIndicator, Bool.or_eq_false_iff] at opens
  rintro d mem rfl
  have := opens.1
  simp only [List.contains_eq_mem, decide_eq_false_iff_not] at this
  exact this mem

/-- A plain scalar starts with a character that is not skipped. -/
theorem isVisible_of_fitsPlain {more : List Char} (fits : fitsPlain (c :: more) = true) :
    isVisible c = true := by
  simp only [fitsPlain, fitsSingleQuotes, Bool.and_eq_true, Bool.not_eq_true', List.all_cons,
    List.any_cons, Bool.or_eq_false_iff, List.head?_cons, Option.any_some] at fits
  -- the conditions are those of the printer, in its order
  obtain ⟨⟨⟨⟨⟨⟨⟨⟨⟨printable, -⟩, -⟩, -⟩, no_break, -⟩, no_space⟩, -⟩, -⟩, opens⟩, -⟩ := fits
  have no_comment := ne_of_not_opensWithIndicator opens '#' (by decide)
  have no_tab : c ≠ '\t' := by
    rintro rfl
    exact absurd printable (by decide)
  have no_mark : isByteOrderMark c = false := by
    simp only [isPrintable, Bool.or_eq_true, Bool.and_eq_true, decide_eq_true_eq] at printable
    simp only [isByteOrderMark, beq_eq_false_iff_ne]
    omega
  refine isVisible_iff.mpr ⟨?_, no_break, no_comment, no_mark⟩
  simp only [isSpace, decide_eq_false_iff_not] at no_space
  simp [isBlank, no_space, no_tab]

/-- A text that can be written plain is read as a plain scalar. -/
theorem token?_plain {more : List Char} {d : Char} (fits : fitsPlain (c :: more) = true)
    (other : d ≠ '-' ∧ d ≠ '.') (here : p.rest = c :: (more ++ d :: rest)) :
    (inBlock p ts allowed key? indent outer).token? c (more ++ d :: rest) =
      (inBlock p ts allowed key? indent outer).plain? := by
  have no_marker : atDocumentMarker (c :: (more ++ d :: rest)) = false :=
    not_marker_of_fitsPlain fits other
  have opens : opensWithIndicator (c :: more) = false := by
    simp only [fitsPlain, Bool.and_eq_true, Bool.not_eq_true'] at fits
    exact fits.1.2
  have not_sign := ne_of_not_opensWithIndicator opens
  -- a dash, a question mark or a colon is not followed by a gap
  have no_gap (sign : c = '-' ∨ c = '?' ∨ c = ':') : atGap (more ++ d :: rest) = false := by
    simp only [opensWithIndicator, Bool.or_eq_false_iff, Bool.and_eq_false_iff] at opens
    have inner : isGap more = false := by
      rcases opens.2 with h | h
      · rcases sign with rfl | rfl | rfl <;> exact absurd h (by decide)
      · exact h
    cases more with
    | nil => exact absurd inner (by decide)
    | cons e more =>
      simp only [isGap, Bool.or_eq_false_iff] at inner
      simp [atGap, inner.1.1, inner.1.2]
  have no_blank_next (sign : c = '-') : (more ++ d :: rest).head?.any isBlank = false := by
    have := no_gap (.inl sign)
    cases h : more ++ d :: rest with
    | nil => rfl
    | cons e later =>
      rw [h] at this
      simp only [atGap, Bool.or_eq_false_iff] at this
      exact this.1
  have starts : startsPlain false c (more ++ d :: rest) = true := by
    by_cases sign : c = '-' ∨ c = '?' ∨ c = ':'
    · have gap := no_gap sign
      rcases sign with rfl | rfl | rfl
      · rw [startsPlain, no_blank_next rfl]
        rfl
      · simp [startsPlain, gap]
      · simp [startsPlain, gap]
    · simp only [not_or] at sign
      obtain ⟨no_blank, no_break, -⟩ := isVisible_iff.mp (isVisible_of_fitsPlain fits)
      simp only [startsPlain, Bool.or_eq_true, Bool.not_eq_true', Bool.or_eq_false_iff]
      refine .inl (.inl ⟨⟨?_, no_blank⟩, no_break⟩)
      rw [List.contains_eq_mem, decide_eq_false_iff_not]
      intro mem
      have listed : ∀ e ∈ "-?:,[]\x7b\x7d#&*!|>\x27\x22%@\x60".toList,
          e ∈ ['-', '?', ':'] ∨ e ∈ "#,[]\x7b\x7d&*!|>\x27\x22%@\x60".toList :=
        forall_mem_of_all (by decide)
      rcases listed c mem with mem | mem
      · simp [sign] at mem
      · exact not_sign c mem rfl
  have dash : (c = '-' && atGap (more ++ d :: rest)) = false := by
    by_cases sign : c = '-' <;> simp [sign, no_gap]
  have question : (c = '?' && (false || atGap (more ++ d :: rest))) = false := by
    by_cases sign : c = '?' <;> simp [sign, no_gap]
  have colon : (c = ':' && (false || atGap (more ++ d :: rest))) = false := by
    by_cases sign : c = ':' <;> simp [sign, no_gap]
  have bar : c ≠ '|' := not_sign '|' (by decide)
  have angle : c ≠ '>' := not_sign '>' (by decide)
  have percent : c ≠ '%' := not_sign '%' (by decide)
  rw [token?]
  · simp only [show (inBlock p ts allowed key? indent outer).place = p from rfl, here,
      show (inBlock p ts allowed key? indent outer).inFlow = false from rfl, percent, decide_false,
      Bool.and_false, Bool.false_eq_true, if_false] at no_marker ⊢
    simp only [Bool.false_or] at question colon
    simp [no_marker, bar, angle, starts, dash, question, colon]
  · exact not_sign '[' (by decide)
  · exact not_sign '\x7b' (by decide)
  · exact not_sign ']' (by decide)
  · exact not_sign '\x7d' (by decide)
  · exact not_sign ',' (by decide)
  · exact not_sign '*' (by decide)
  · exact not_sign '&' (by decide)
  · exact not_sign '!' (by decide)
  · exact not_sign '\'' (by decide)
  · exact not_sign '"' (by decide)

variable {key' : Option KeyStart} {text : List Char}

/-- The scanner behind a plain scalar. -/
theorem plain?_inBlock {end? : Option PlainEnd} (fresh : allowed = true → key? = none)
    (reads : readPlain? false (indent + 1) p = end?) :
    (inBlock p ts allowed key? indent outer).plain? = end?.map fun read =>
      inBlock read.place (.scalar .plain (String.ofList read.text) :: ts) read.broken
        (saved allowed key? indent p ts) indent outer := by
  rw [plain?, saveKey?_inBlock fresh]
  change (readPlain? false (indent + 1) p).bind _ = _
  rw [reads]
  cases end? <;> rfl

/-- A plain text in front of the colon of a key. -/
theorem leads_plain_key (fits : fitsPlain text = true) (nonempty : text ≠ [])
    (here : p.rest = text ++ ':' :: rest) (gap : atGap rest = true) (inside : indent ≤ p.column)
    (refreshed : refresh? p key? = some key') (fresh : allowed = true → key' = none) :
    Leads (inBlock p ts allowed key? indent outer)
      (inBlock (p.behind text) (.scalar .plain (String.ofList text) :: ts) false
        (saved allowed key' indent p ts) indent outer) := by
  obtain ⟨c, more, rfl⟩ := List.exists_cons_of_ne_nil nonempty
  rw [List.cons_append] at here
  refine leads_token (isVisible_of_fitsPlain fits) here inside refreshed (?_ : _ = some _) ?_
  · rw [token?_plain fits (by decide) here,
      plain?_inBlock fresh (readPlain?_key fits (by omega) here gap)]
    rfl
  · have here_end : (p.behind (c :: more)).rest = ':' :: rest := Place.rest_behind_eq here
    simp only [inBlock, here, here_end, List.length_append, List.length_cons]
    omega

/-- A plain text at the end of a line. -/
theorem leads_plain_line (fits : fitsPlain text = true) (nonempty : text ≠ [])
    (here : p.rest = text ++ '\n' :: (spaces n ++ rest)) (at_token : IsAtToken rest)
    (shallow : rest ≠ [] → (n : Int) ≤ indent) (inside : indent ≤ p.column)
    (refreshed : refresh? p key? = some key') (fresh : allowed = true → key' = none) :
    Leads (inBlock p ts allowed key? indent outer)
      (inBlock (p.behind (text ++ '\n' :: spaces n)) (.scalar .plain (String.ofList text) :: ts) true
        (saved allowed key' indent p ts) indent outer) := by
  obtain ⟨c, more, rfl⟩ := List.exists_cons_of_ne_nil nonempty
  have next := next_of_isAtToken at_token
  rw [List.cons_append] at here
  refine leads_token (isVisible_of_fitsPlain fits) here inside refreshed (?_ : _ = some _) ?_
  · rw [token?_plain fits (by decide) here, plain?_inBlock fresh (readPlain?_line fits (by omega) n
      (fun more => Int.lt_add_one_iff.mpr (shallow more)) here next)]
    rfl
  · simp [inBlock, here]
    omega

/-! ## Literal blocks -/

/-- A literal block reaches up to what follows on a line that is less indented. -/
theorem leads_literal {column : Nat} (fits : fitsLiteral text = true)
    (column_eq : column = (max indent 0).toNat + 2) (shallow : n < column) (at_token : IsAtToken rest)
    (here : p.rest = endLine (scalarLines .literal column text) ++ (spaces n ++ rest))
    (inside : indent ≤ p.column) (refreshed : refresh? p key? = some key')
    (optional : ∀ key ∈ key', key.required = false) :
    Leads (inBlock p ts allowed key? indent outer)
      (inBlock (p.behind (endLine (scalarLines .literal column text) ++ spaces n))
        (.scalar .literal (String.ofList text) :: ts) true none indent outer) := by
  have nonempty : text ≠ [] := by
    rintro rfl
    exact absurd fits (by decide)
  have next := next_of_isAtToken at_token
  obtain ⟨more, starts⟩ : ∃ more, endLine (scalarLines .literal column text) = '|' :: more :=
    ⟨_, endLine_literal nonempty⟩
  have here_bar : p.rest = '|' :: (more ++ (spaces n ++ rest)) := by rw [here, starts]; rfl
  refine leads_token (by decide) here_bar inside refreshed (?_ : _ = some _) ?_
  · have dispatch : (inBlock p ts allowed key' indent outer).token? '|' (more ++ (spaces n ++ rest)) =
        (inBlock p ts allowed key' indent outer).block? true := by
      simp [token?, inBlock, inFlow, here_bar, atDocumentMarker]
    -- the text is no key, so a key that was possible here is forgotten
    have dropped : (inBlock p ts allowed key' indent outer).dropKey? =
        some (inBlock p ts allowed none indent outer) := by
      cases key' with
      | none => rfl
      | some key => simp [dropKey?, keyStart?, inBlock, optional key rfl, setKey]
    rw [dispatch, block?, dropped]
    change (readBlock? true indent p).bind _ = _
    rw [readBlock?_literal fits column_eq shallow next here]
    rfl
  · rw [show (inBlock (p.behind (endLine (scalarLines .literal column text) ++ spaces n)) _ _ _ _
      _).place.rest = rest from Place.rest_behind_eq (by rw [here, List.append_assoc]), here, starts]
    simp
    omega

/-! ## Pairs of brackets -/

/-- What an empty collection is written as. -/
def brackets (isMap : Bool) : List Char := if isMap then ['\x7b', '\x7d'] else ['[', ']']

/-- The tokens of an empty collection. -/
def bracketTokens (isMap : Bool) : List Token :=
  if isMap then [.flowMappingStart, .flowMappingEnd] else [.flowSequenceStart, .flowSequenceEnd]

/-- The scanner in a flow collection in which there has been nothing so far. -/
def inBrackets (p : Place) (tokens : List Token) (key? : Option KeyStart) (indent : Int)
    (outer : List Int) : Scanner :=
  ⟨p, tokens, tokens.length, true, key?, [none], indent, outer⟩

/-- An opening bracket leads into a flow collection, which may itself be a key. -/
theorem leads_open {mark : Token} (opens : c = '[' ∧ mark = .flowSequenceStart ∨
      c = '\x7b' ∧ mark = .flowMappingStart) (here : p.rest = c :: rest)
    (inside : indent ≤ p.column) (refreshed : refresh? p key? = some key')
    (fresh : allowed = true → key' = none) :
    Leads (inBlock p ts allowed key? indent outer)
      (inBrackets (p.behind [c]) (mark :: ts) (saved allowed key' indent p ts) indent outer) := by
  have visible : isVisible c = true := by rcases opens with ⟨rfl, -⟩ | ⟨rfl, -⟩ <;> decide
  have no_break := (isVisible_iff.mp visible).2.1
  refine leads_token visible here inside refreshed (?_ : _ = some _) ?_
  · have dispatch : (inBlock p ts allowed key' indent outer).token? c rest =
        (inBlock p ts allowed key' indent outer).flowStart? mark := by
      rcases opens with ⟨rfl, rfl⟩ | ⟨rfl, rfl⟩ <;> simp [token?, inBlock, here, atDocumentMarker]
    rw [dispatch, flowStart?, saveKey?_inBlock fresh, Place.behind_singleton no_break]
    rfl
  · simp [inBrackets, here]

/-- A closing bracket leads back out of it. -/
theorem leads_shut {mark : Token} (shuts : c = ']' ∧ mark = .flowSequenceEnd ∨
      c = '\x7d' ∧ mark = .flowMappingEnd) (here : p.rest = c :: rest)
    (refreshed : refresh? p key? = some key') :
    Leads (inBrackets p ts key? indent outer)
      (inBlock (p.behind [c]) (mark :: ts) false key' indent outer) := by
  have visible : isVisible c = true := by rcases shuts with ⟨rfl, -⟩ | ⟨rfl, -⟩ <;> decide
  have no_break := (isVisible_iff.mp visible).2.1
  have at_token : IsAtToken (c :: rest) := isAtToken_cons visible
  -- nothing is skipped, no key is in the way, and the bracket is the next token
  have ready : (inBrackets p ts key? indent outer).skipToToken = inBrackets p ts key? indent outer :=
    skipFrom_spaces (n := 0) p.rest.length at_token here
  have refresh : (inBrackets p ts key? indent outer).refreshKeys? =
      some (inBrackets p ts key' indent outer) := by
    have nothing : refresh? p none = some none := rfl
    simp [refreshKeys?, inBrackets, refreshed, nothing]
  have dispatch : (inBrackets p ts key' indent outer).token? c rest =
      (inBrackets p ts key' indent outer).flowEnd? mark := by
    rcases shuts with ⟨rfl, rfl⟩ | ⟨rfl, rfl⟩ <;> simp [token?, inBrackets, here, atDocumentMarker]
  refine ⟨1, by simp [inBlock, inBrackets, here, Nat.add_comm], fun fuel => ?_⟩
  rw [run?, ready, refresh, Option.bind_some,
    show (inBrackets p ts key' indent outer).place.column = p.column from rfl,
    show (inBrackets p ts key' indent outer).closeBlocks p.column =
      inBrackets p ts key' indent outer from rfl]
  simp only [show (inBrackets p ts key' indent outer).place.rest = c :: rest from here, dispatch]
  rw [Place.behind_singleton no_break]
  rfl

/-- The brackets of an empty collection are two tokens; the key start that was remembered for the
    first one must still be within reach of the second. -/
theorem leads_brackets {key'' : Option KeyStart} (isMap : Bool)
    (here : p.rest = brackets isMap ++ rest)
    (inside : indent ≤ p.column) (refreshed : refresh? p key? = some key')
    (fresh : allowed = true → key' = none)
    (kept : refresh? (p.advance 1) (saved allowed key' indent p ts) = some key'') :
    Leads (inBlock p ts allowed key? indent outer)
      (inBlock (p.behind (brackets isMap)) ((bracketTokens isMap).reverse ++ ts) false key'' indent
        outer) := by
  -- opened and closed at once, either pair alike
  cases isMap with
  | false =>
    have second : (p.behind ['[']).rest = ']' :: rest := Place.rest_behind_eq here
    rw [← Place.behind_singleton (c := '[') (by decide)] at kept
    have shut : Leads (inBrackets (p.behind ['[']) (.flowSequenceStart :: ts) _ indent outer) _ :=
      leads_shut (.inl ⟨rfl, rfl⟩) second kept
    rw [← Place.behind_append] at shut
    exact (leads_open (.inl ⟨rfl, rfl⟩) here inside refreshed fresh).trans shut
  | true =>
    have second : (p.behind ['\x7b']).rest = '\x7d' :: rest := Place.rest_behind_eq here
    rw [← Place.behind_singleton (c := '\x7b') (by decide)] at kept
    have shut : Leads (inBrackets (p.behind ['\x7b']) (.flowMappingStart :: ts) _ indent outer) _ :=
      leads_shut (.inr ⟨rfl, rfl⟩) second kept
    rw [← Place.behind_append] at shut
    exact (leads_open (.inr ⟨rfl, rfl⟩) here inside refreshed fresh).trans shut

/-! ## Keys without an indicator -/

/-- The colon behind a key puts the marks for the key in front of its tokens. -/
theorem leads_value {key : KeyStart} {before : List Token} (here : p.rest = ':' :: rest)
    (gap : StartsGap rest) (inside : indent ≤ key.column) (behind : key.column ≤ p.column)
    (fresh : isStale p key = false) (counted : key.tokens = ts.length) :
    Leads (inBlock p (before ++ ts) false (some key) indent outer)
      (inBlock (p.behind [':'])
        (.value :: (before ++ .key :: marked .blockMappingStart indent key.column ts)) false none
        key.column (around indent key.column outer)) := by
  have refreshed : refresh? p (some key) = some (some key) := by simp [refresh?, fresh]
  refine leads_token (by decide) here (by omega) refreshed (?_ : _ = some _) ?_
  · have dispatch : (inBlock p (before ++ ts) false (some key) indent outer).token? ':' rest =
        (inBlock p (before ++ ts) false (some key) indent outer).value? := by
      simp [token?, inBlock, here, not_marker_of_gap gap, gap.atGap]
    have marked_key : ((inBlock p (before ++ ts) false (some key) indent outer).setKey none).insertAt
        key.tokens .key = inBlock p (before ++ .key :: ts) false none indent outer := by
      simp [insertAt, setKey, inBlock, counted, Nat.add_assoc]
    have opened : (inBlock p (before ++ .key :: ts) false none indent outer).openBlock key.column
        key.tokens .blockMappingStart =
          inBlock p (before ++ .key :: marked .blockMappingStart indent key.column ts) false none
            key.column (around indent key.column outer) := by
      -- the mark of the block is put in where the key was remembered, behind the older tokens
      have later : (before ++ .key :: ts).length - ts.length = (before ++ [Token.key]).length := by
        simp
        omega
      by_cases deeper : indent < key.column
      · have apart : before ++ .key :: ts = (before ++ [Token.key]) ++ ts := by simp
        simp only [openBlock, insertAt, inBlock, inFlow, deeper, counted, later, marked, around]
        rw [apart, List.take_left, List.drop_left]
        simp [Nat.add_assoc]
      · obtain rfl : indent = key.column := by omega
        simp [openBlock, inBlock, inFlow, marked, around]
    rw [dispatch, value?, Place.behind_singleton (by decide)]
    rw [show (inBlock p (before ++ ts) false (some key) indent outer).keyStart? = some key from rfl]
    dsimp only
    rw [marked_key, opened]
    rfl
  · simp [inBlock, here]

/-! ## Where no key can start -/

/-- Whether a key start that is remembered on a line does not have to turn out as one. -/
def Idle (key? : Option KeyStart) (line : Nat) : Prop :=
  ∀ key ∈ key?, key.required = false ∧ key.line ≤ line

theorem Idle.nothing (line : Nat) : Idle none line := by simp [Idle]

/-- A key start that is not in the way stays so on later lines. -/
theorem Idle.mono {line line' : Nat} (idle : Idle key? line) (later : line ≤ line') :
    Idle key? line' := by
  intro key mem
  obtain ⟨optional, above⟩ := idle key mem
  exact ⟨optional, by omega⟩

/-- Before a token a key start that is not in the way is forgotten or stays, without a failure. -/
theorem Idle.refreshed (idle : Idle key? p.line) (fresh : allowed = true → key? = none) :
    ∃ key', refresh? p key? = some key' ∧ Idle key' p.line ∧ (allowed = true → key' = none) := by
  cases key? with
  | none => exact ⟨none, rfl, .nothing _, fun _ => rfl⟩
  | some key =>
    obtain ⟨optional, above⟩ := idle key rfl
    have closed : allowed ≠ true := fun open_ => absurd (fresh open_) (by simp)
    -- a key start that is too far away is forgotten, as it need not be a key
    by_cases stale : isStale p key = true
    · exact ⟨none, by simp [refresh?, stale, optional], .nothing _, fun _ => rfl⟩
    · exact ⟨some key, by simp [refresh?, stale], idle, fun open_ => absurd open_ closed⟩

/-- A key start that is remembered away from the indentation is not required. -/
theorem idle_saved (idle : Idle key? p.line) (apart : indent ≠ p.column) :
    Idle (saved allowed key? indent p ts) p.line := by
  cases allowed with
  | false => exact idle
  | true => simp [Idle, saved, apart]

/-- At the end of a line nothing is remembered. -/
theorem leads_lineEnd (idle : Idle key? p.line) (at_token : IsAtToken rest)
    (here : p.rest = '\n' :: (spaces n ++ rest)) :
    Leads (inBlock p ts allowed key? indent outer)
      (inBlock (p.behind ('\n' :: spaces n)) ts true none indent outer) := by
  have rest_eq : (p.behind ('\n' :: spaces n)).rest = rest :=
    Place.rest_behind_eq (w := '\n' :: spaces n) here
  refine (leads_line at_token here).trans (leads_forget (by rwa [rest_eq]) fun key mem => ?_)
  obtain ⟨optional, above⟩ := idle key mem
  have below : p.line + 1 ≤ (p.behind ('\n' :: spaces n)).line := by
    rw [Place.behind_cons]
    exact Place.line_le_line_behind (p := p.behind ['\n']) _
  exact ⟨optional, by omega⟩

end DeployManifest.Yaml.Scanner
