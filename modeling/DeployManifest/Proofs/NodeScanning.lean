import DeployManifest.Proofs.PieceLines

/-!
# Scanning nodes

The tokens of a piece are those of the pieces inside, between the marks that open and close a
collection.  Only a sequence in the column of the keys around it has no such marks.  What the scanner
makes of a node depends on what the node stands behind (`Piece.Stands`), and `Piece.IsScanned` says
that it makes the tokens of the node, unless there is a property among them that cannot be read.

- `Piece.tokens`: the tokens of a piece.
- `HasToken`, `Piece.IsLegible`: the properties of a piece can all be read.
- `Piece.Stands`: a scanner that stands in front of a piece, behind a mark, a dash, a key or nothing.
- `Piece.IsScanned`: the tokens of a piece are read from its text wherever it stands.
- `isScanned_reference`, `isScanned_scalar`, `isScanned_brackets`: so it is for each piece that holds no
  other piece.
- `scans_key`: a simple key is read with its colon.
-/

namespace DeployManifest.Yaml

open Scanner

variable {p : Place} {ts : List Token} {allowed : Bool} {key? key' : Option KeyStart}
  {indent : Int} {outer : List Int} {rest : List Char} {n : Nat}

namespace Piece

/-! ## Tokens -/

/-- Whether a sequence starts in the column of the keys around it. -/
def isLoose (behind : Behind) (tagged : Bool) : Bool := behind = .key || (behind = .mark && tagged)

/-- The token of a property. -/
def propertyTokens (property? : Option Property) : List Token :=
  (property?.bind Property.token?).toList

mutual

/-- The tokens of a piece; a tag that cannot be read is left out. -/
def tokens (behind : Behind) : Piece → List Token
  | .reference name => [.alias name.text]
  | .scalar property? leaf => propertyTokens property? ++ [.scalar leaf.style leaf.text]
  | .seq property? [] => propertyTokens property? ++ bracketTokens false
  | .map property? [] => propertyTokens property? ++ bracketTokens true
  | .seq property? all =>
    propertyTokens property? ++
      if isLoose behind property?.isSome then itemTokens all
      else .blockSequenceStart :: (itemTokens all ++ [.blockEnd])
  | .map property? all =>
    propertyTokens property? ++ .blockMappingStart :: (entryTokens all ++ [.blockEnd])

/-- The tokens of the items of a sequence, a dash in front of each. -/
def itemTokens : List Piece → List Token
  | [] => []
  | item :: rest => .blockEntry :: (tokens .dash item ++ itemTokens rest)

/-- The tokens of the entries of a mapping, a mark in front of each key and of each value. -/
def entryTokens : List (Piece × Piece) → List Token
  | [] => []
  | (k, v) :: rest =>
    let behind : Behind := if (simpleKey? k).isSome then .key else .mark
    .key :: (tokens .mark k ++ .value :: (tokens behind v ++ entryTokens rest))

end

/-- Whether a property can be read. -/
def HasToken (property? : Option Property) : Prop :=
  ∀ property ∈ property?, property.token?.isSome = true

theorem hasToken_none : HasToken none := nofun

theorem hasToken_some_iff {property : Property} :
    property.token?.isSome = true ↔ HasToken (some property) := by
  simp [HasToken]

theorem reverse_propertyTokens_some (property : Property) :
    (propertyTokens (some property)).reverse = property.token?.toList := by
  cases token : property.token? <;> simp [propertyTokens, token]

mutual

/-- Whether all properties in a piece can be read. -/
def IsLegible : Piece → Prop
  | .reference _ => True
  | .scalar property? _ => HasToken property?
  | .seq property? items => HasToken property? ∧ AreLegible items
  | .map property? entries => HasToken property? ∧ AreLegibleEntries entries

/-- The properties in all items can be read. -/
def AreLegible : List Piece → Prop
  | [] => True
  | item :: rest => IsLegible item ∧ AreLegible rest

/-- The properties in all keys and values can be read. -/
def AreLegibleEntries : List (Piece × Piece) → Prop
  | [] => True
  | (k, v) :: rest => IsLegible k ∧ IsLegible v ∧ AreLegibleEntries rest

end

/-! ## Where a piece stands -/

/-- How the scanner stands in front of a piece behind something in a collection in `column`. -/
structure Stands (behind : Behind) (column : Nat) (allowed : Bool) (indent : Int) (p : Place) :
    Prop where
  start : behind = .start → column = 0 ∧ p.column = 0 ∧ indent = -1
  other : behind ≠ .start → indent = column
  near : behind = .dash ∨ behind = .mark → p.column = column + 1
  far : behind = .key → column < p.column
  allowed_eq : allowed = decide (behind ≠ .key)

variable {behind : Behind} {column : Nat} {property? : Option Property}

theorem column_behind_space : (p.behind [' ']).column = p.column + 1 := by
  rw [Place.behind_singleton (by decide)]
  rfl

theorem line_behind_space : (p.behind [' ']).line = p.line := by
  rw [Place.behind_singleton (by decide)]
  rfl

/-- The column behind the indentation of a line. -/
theorem column_behind_line (here : p.rest = '\n' :: (spaces n ++ rest)) :
    (p.behind ('\n' :: spaces n)).column = n := by
  have next : (p.behind ['\n']).rest = spaces n ++ rest := Place.rest_behind_eq (w := ['\n']) here
  rw [Place.behind_cons, Place.behind_eq_of_no_break isBreak_of_mem_spaces next]
  simp [Place.behind, isBreak, spaces]

namespace Stands

variable (stands : Stands behind column allowed indent p)

include stands

/-- What stands in front of a piece is not left of the block around it. -/
theorem inside : indent ≤ p.column := by
  have := stands.start
  have := stands.other
  have := stands.near
  have := stands.far
  cases behind <;> simp_all
  omega

/-- What stands in front of a node is skipped. -/
theorem leads_gap (at_token : IsAtToken rest) (here : p.rest = behind.gap ++ rest) :
    Leads (inBlock p ts allowed none indent outer)
        (inBlock (p.behind behind.gap) ts allowed none indent outer) ∧
      indent < (p.behind behind.gap).column := by
  -- only at the start of a line there is no gap, and the line is indented already
  by_cases at_start : behind = .start
  · obtain ⟨-, first, outside⟩ := stands.start at_start
    rw [at_start]
    refine ⟨.refl _, ?_⟩
    change indent < p.column
    omega
  · have space : behind.gap = [' '] := by cases behind <;> simp_all [Behind.gap]
    rw [space] at here ⊢
    refine ⟨leads_spaces (n := 1) at_token here, ?_⟩
    have := stands.inside
    rw [column_behind_space]
    omega

/-- So is the property behind it. -/
theorem scans_property (property : Property) (gap : StartsGap rest)
    (here : p.rest = behind.gap ++ (property.text ++ rest)) :
    ∃ key', Idle key' (p.behind (behind.gap ++ property.text)).line ∧
      indent < (p.behind (behind.gap ++ property.text)).column ∧
      Scans (property.token?.isSome = true) (inBlock p ts allowed none indent outer)
        (inBlock (p.behind (behind.gap ++ property.text)) (property.token?.toList ++ ts) false key'
          indent outer) := by
  obtain ⟨leads, inside⟩ := stands.leads_gap property.isAtToken_text here
  have next : (p.behind behind.gap).rest = property.text ++ rest := Place.rest_behind_eq here
  have moved := Place.behind_eq_of_no_break property.no_break_text next
  -- a key may start at the property, so it is remembered from here
  refine ⟨saved allowed none indent (p.behind behind.gap) ts, ?_, ?_, ?_⟩
  · rw [Place.behind_append, moved]
    exact idle_saved (.nothing _) inside.ne
  · rw [Place.behind_append, moved]
    push_cast
    omega
  · rw [Place.behind_append]
    exact leads.trans_scans (property.scans gap next inside.le rfl fun _ => rfl)

/-- What stands in front of a scalar or an empty collection. -/
theorem scans_lead (at_token : IsAtToken rest) (here : p.rest = lead behind property? ++ rest) :
    ∃ allowed' key', Idle key' (p.behind (lead behind property?)).line ∧
      (allowed' = true → key' = none) ∧ indent < (p.behind (lead behind property?)).column ∧
      Scans (HasToken property?) (inBlock p ts allowed none indent outer)
        (inBlock (p.behind (lead behind property?)) ((propertyTokens property?).reverse ++ ts) allowed'
          key' indent outer) := by
  cases property? with
  | none =>
    obtain ⟨leads, inside⟩ := stands.leads_gap at_token here
    exact ⟨allowed, none, .nothing _, fun _ => rfl, inside,
      leads.scans.congr (iff_of_true trivial hasToken_none)⟩
  | some property =>
    have here_property : p.rest = behind.gap ++ (property.text ++ ' ' :: rest) := by
      simpa [lead] using here
    -- the gap, the property, and one space
    obtain ⟨key', idle, inside, scans⟩ :=
      stands.scans_property property (.inl rfl) here_property
    have next : (p.behind (behind.gap ++ property.text)).rest = ' ' :: rest :=
      Place.rest_behind_eq (by simpa using here_property)
    have lead_eq : p.behind (lead behind (some property)) =
        (p.behind (behind.gap ++ property.text)).behind [' '] := by
      rw [← Place.behind_append, lead, List.append_assoc]
    rw [lead_eq]
    refine ⟨false, key', ?_, nofun, ?_, ?_⟩
    · rwa [line_behind_space]
    · rw [column_behind_space]
      omega
    · have leads : Leads (inBlock (p.behind (behind.gap ++ property.text))
          (property.token?.toList ++ ts) false key' indent outer) _ :=
        leads_spaces (n := 1) at_token next
      rw [reverse_propertyTokens_some]
      exact (scans.congr hasToken_some_iff).trans_leads leads

/-- What stands in front of the first entry of a collection. -/
theorem scans_opening {inside : Nat} (at_token : IsAtToken rest)
    (here : p.rest = opening behind inside property? ++ rest)
    (inside_eq : property? = none → behind ≠ .key → inside = behind.inner column) :
    Scans (HasToken property?) (inBlock p ts allowed none indent outer)
        (inBlock (p.behind (opening behind inside property?))
          ((propertyTokens property?).reverse ++ ts) true none indent outer) ∧
      (p.behind (opening behind inside property?)).column = inside := by
  cases property? with
  | none =>
    -- behind a key the lines start below it, and elsewhere on the line of what stands in front
    by_cases after_key : behind = .key
    · obtain rfl := after_key
      exact ⟨(leads_lineEnd (.nothing _) at_token here).scans.congr (iff_of_true trivial hasToken_none),
        column_behind_line here⟩
    · have opening_eq : opening behind inside none = behind.gap := by
        simp [opening, Behind.opening, after_key]
      rw [opening_eq] at here ⊢
      obtain ⟨leads, -⟩ := stands.leads_gap at_token here
      have allowed_eq := stands.allowed_eq
      simp only [ne_eq, after_key, not_false_eq_true, decide_true] at allowed_eq
      rw [← allowed_eq]
      refine ⟨leads.scans.congr (iff_of_true trivial hasToken_none), ?_⟩
      have := inside_eq rfl after_key
      have := stands.start
      have := stands.near
      cases behind with
      | start => simp_all [Behind.gap, Behind.inner]
      | key => exact absurd rfl after_key
      | dash =>
        rw [show (Behind.dash).gap = [' '] from rfl, column_behind_space]
        simp_all [Behind.inner]
      | mark =>
        rw [show (Behind.mark).gap = [' '] from rfl, column_behind_space]
        simp_all [Behind.inner]
  | some property =>
    have here_property : p.rest =
        behind.gap ++ (property.text ++ '\n' :: (spaces inside ++ rest)) := by
      simpa [opening] using here
    obtain ⟨key', idle, -, scans⟩ :=
      stands.scans_property property (.inr rfl) here_property
    have next : (p.behind (behind.gap ++ property.text)).rest = '\n' :: (spaces inside ++ rest) :=
      Place.rest_behind_eq (by simpa using here_property)
    have opening_eq : p.behind (opening behind inside (some property)) =
        (p.behind (behind.gap ++ property.text)).behind ('\n' :: spaces inside) := by
      rw [← Place.behind_append, opening, List.append_assoc]
    rw [opening_eq, reverse_propertyTokens_some]
    exact ⟨(scans.congr hasToken_some_iff).trans_leads (leads_lineEnd idle at_token next),
      column_behind_line next⟩

end Stands

/-! ## Nodes -/

/-- Whether a piece is scanned into its tokens wherever it stands. -/
def IsScanned (piece : Piece) : Prop :=
  ∀ ⦃behind column allowed indent p⦄ ⦃ts : List Token⦄ ⦃outer : List Int⦄ ⦃n : Nat⦄ ⦃rest⦄,
    Stands behind column allowed indent p → IsAtToken rest →
    ((n : Int) ≤ indent ∨ rest = [] ∧ n = 0) →
    p.rest = piece.text behind column ++ (spaces n ++ rest) →
    Scans piece.IsLegible (inBlock p ts allowed none indent outer)
      (inBlock (p.behind (piece.text behind column ++ spaces n)) ((piece.tokens behind).reverse ++ ts)
        true none indent outer)

/-- A reference is scanned wherever it stands. -/
theorem isScanned_reference (name : AnchorName) : IsScanned (.reference name) := by
  intro behind column allowed indent p ts outer n rest stands at_token shallow here
  have here_gap : p.rest =
      behind.gap ++ ('*' :: (name.text.toList ++ '\n' :: (spaces n ++ rest))) := by
    simpa [text] using here
  have at_name : IsAtToken ('*' :: (name.text.toList ++ '\n' :: (spaces n ++ rest))) :=
    isAtToken_cons (by decide)
  obtain ⟨leads, inside⟩ := stands.leads_gap at_name here_gap
  have here_name := Place.rest_behind_eq here_gap
  have reads : anchorToken? .alias (p.behind behind.gap) = some (.alias name.text,
      (p.behind behind.gap).behind ('*' :: name.text.toList)) := by
    rw [anchorToken?, readAnchor?_eq name (c := '*') (by decide) here_name (.inr rfl)]
    rfl
  have here_end : ((p.behind behind.gap).behind ('*' :: name.text.toList)).rest =
      '\n' :: (spaces n ++ rest) := Place.rest_behind_eq here_name
  have read : Leads (inBlock (p.behind behind.gap) ts allowed none indent outer) _ :=
    leads_keyLike (by decide) here_name inside.le rfl (fun _ => rfl) (token?_alias here_name) reads (by
      rw [here_end, here_name]
      simp only [List.length_append, List.length_cons]
      omega)
  have remembered : Idle (saved allowed none indent (p.behind behind.gap) ts)
      ((p.behind behind.gap).behind ('*' :: name.text.toList)).line :=
    (idle_saved (.nothing _) inside.ne).mono (Place.line_le_line_behind _)
  -- the gap, the reference, and the end of its line
  have whole := leads.trans (read.trans (leads_lineEnd remembered at_token here_end))
  rw [← Place.behind_append, ← Place.behind_append] at whole
  have text_eq : (Piece.reference name).text behind column ++ spaces n =
      behind.gap ++ ('*' :: name.text.toList ++ '\n' :: spaces n) := by simp [text]
  rw [text_eq]
  exact whole.scans

/-- A scalar is scanned wherever it stands, whatever its style. -/
theorem isScanned_scalar (property? : Option Property) (leaf : Leaf) :
    IsScanned (.scalar property? leaf) := by
  intro behind column allowed indent p ts outer n rest stands at_token shallow here
  -- further lines of a scalar are indented by two, counted from the block around it
  have column_eq : (if behind = .start then 2 else column + 2) = (max indent 0).toNat + 2 := by
    by_cases at_start : behind = .start
    · obtain ⟨-, -, rfl⟩ := stands.start at_start
      simp [at_start]
    · obtain rfl := stands.other at_start
      simp [at_start]
  rw [text, List.append_assoc] at here
  have at_leaf : IsAtToken (endLine (scalarLines leaf.style
      (if behind = .start then 2 else column + 2) leaf.text.toList) ++ (spaces n ++ rest)) := by
    rw [endLine_eq, List.append_assoc]
    exact leaf.isAtToken_lines _
  obtain ⟨allowed', key', idle, fresh, inside, scans⟩ :=
    stands.scans_lead at_leaf here
  have leads : Leads (inBlock (p.behind (lead behind property?))
      ((propertyTokens property?).reverse ++ ts) allowed' key' indent outer) _ :=
    leaf.leads_line column_eq (Place.rest_behind_eq here) at_token shallow inside.le inside.ne idle
      fresh
  rw [← Place.behind_append, ← List.append_assoc] at leads
  rw [text, tokens, List.reverse_append]
  exact scans.trans_leads leads

/-- An empty collection is written as a pair of brackets, and scanned wherever it stands. -/
theorem isScanned_brackets {property? : Option Property} {piece : Piece} (isMap : Bool)
    (text_eq : ∀ behind column, piece.text behind column =
      lead behind property? ++ (brackets isMap ++ ['\n']))
    (tokens_eq : ∀ behind, piece.tokens behind = propertyTokens property? ++ bracketTokens isMap)
    (legible_iff : HasToken property? ↔ piece.IsLegible) : IsScanned piece := by
  intro behind column allowed indent p ts outer n rest stands at_token shallow here
  rw [text_eq] at here ⊢
  simp only [List.append_assoc] at here
  have at_bracket : IsAtToken (brackets isMap ++ (['\n'] ++ (spaces n ++ rest))) := by
    cases isMap with
    | false => exact isAtToken_cons (by decide)
    | true => exact isAtToken_cons (by decide)
  obtain ⟨allowed', key?, idle, fresh, inside, scans⟩ :=
    stands.scans_lead at_bracket here
  obtain ⟨key', refreshed, idle', fresh'⟩ := idle.refreshed fresh
  have here_brackets := Place.rest_behind_eq here
  have here_end := Place.rest_behind_eq here_brackets
  have remembered : Idle (saved allowed' key' indent (p.behind (lead behind property?))
      ((propertyTokens property?).reverse ++ ts)) (p.behind (lead behind property?)).line :=
    idle_saved idle' inside.ne
  have closed : false = true → saved allowed' key' indent (p.behind (lead behind property?))
      ((propertyTokens property?).reverse ++ ts) = none := nofun
  -- the start that the first bracket leaves must not fail at the second
  obtain ⟨key'', kept, idle'', -⟩ :=
    remembered.refreshed (p := (p.behind (lead behind property?)).advance 1) closed
  have read : Leads (inBlock (p.behind (lead behind property?))
      ((propertyTokens property?).reverse ++ ts) allowed' key? indent outer) _ :=
    leads_brackets isMap here_brackets inside.le refreshed fresh' kept
  have whole := read.trans (leads_lineEnd
    (idle''.mono (Place.line_le_line_behind (p := p.behind (lead behind property?)) _)) at_token here_end)
  rw [← Place.behind_append, ← Place.behind_append] at whole
  rw [tokens_eq, List.reverse_append, List.append_assoc]
  simpa using (scans.congr legible_iff).trans_leads whole

/-! ## Keys -/

/-- The key start that is remembered at the start of a key. -/
def keyAt (indent : Int) (p : Place) (ts : List Token) : KeyStart :=
  ⟨indent == p.column, ts.length, p.index, p.line, p.column⟩

/-- A key that is short and on the line of its colon is still one when the colon is reached. -/
theorem isStale_keyAt {v w : List Char} (no_break : ∀ c ∈ v ++ w, isBreak c = false)
    (near : bytes (v ++ w) ≤ Scanner.maxKeySize) (here : p.rest = v ++ (w ++ rest)) :
    isStale (p.behind v) (keyAt indent p ts) = false := by
  rw [Place.behind_eq_of_no_break (fun c mem => no_break c (by simp [mem])) here]
  rw [bytes_append] at near
  simp [isStale, keyAt]
  omega

/-- A simple key stands on one line. -/
theorem IsSimple.no_break {key : Piece} {bare : List Char} (simple : IsSimple key property? bare) :
    ∀ c ∈ bare, isBreak c = false := by
  cases simple with
  | scalar _ leaf no_break => exact (scalarLines_of_no_break leaf no_break).2
  | seq => exact forall_mem_of_all (by decide)
  | map => exact forall_mem_of_all (by decide)

/-- The property in front of a key stands on the line of the key. -/
theorem no_break_lead (property? : Option Property) : ∀ c ∈ lead .start property?, isBreak c = false := by
  cases property? with
  | none => simp [lead, Behind.gap]
  | some property =>
    intro c mem
    simp only [lead, Behind.gap, List.nil_append, List.mem_append, List.mem_singleton] at mem
    rcases mem with mem | rfl
    · exact property.no_break_text c mem
    · decide

/-- The properties of a key. -/
theorem scans_key_lead {bare : List Char} (inside : indent ≤ p.column)
    (no_break : ∀ c ∈ lead .start property? ++ bare, isBreak c = false)
    (near : bytes (lead .start property? ++ bare) ≤ Scanner.maxKeySize)
    (at_token : IsAtToken (bare ++ rest)) (here : p.rest = lead .start property? ++ (bare ++ rest)) :
    ∃ allowed' key', refresh? (p.behind (lead .start property?)) key' = some key' ∧
      (allowed' = true → key' = none) ∧
      saved allowed' key' indent (p.behind (lead .start property?))
        ((propertyTokens property?).reverse ++ ts) = some (keyAt indent p ts) ∧
      Scans (HasToken property?) (inBlock p ts true none indent outer)
        (inBlock (p.behind (lead .start property?)) ((propertyTokens property?).reverse ++ ts) allowed'
          key' indent outer) := by
  cases property? with
  | none =>
    exact ⟨true, none, rfl, fun _ => rfl, rfl, (Leads.refl _).scans.congr (iff_of_true trivial hasToken_none)⟩
  | some property =>
    -- the key starts at its property, and its colon is still within reach from there
    have fresh : isStale _ (keyAt indent p ts) = false := isStale_keyAt no_break near here
    have here_property : p.rest = property.text ++ ' ' :: (bare ++ rest) := by
      simpa [lead, Behind.gap] using here
    have scans : Scans _ (inBlock p ts true none indent outer) _ :=
      property.scans (.inl rfl) here_property inside rfl fun _ => rfl
    have leads : Leads (inBlock (p.behind property.text) (property.token?.toList ++ ts) false
        (some (keyAt indent p ts)) indent outer) _ :=
      leads_spaces (n := 1) at_token (Place.rest_behind_eq here_property)
    refine ⟨false, some (keyAt indent p ts), by simp [refresh?, fresh], by simp, rfl, ?_⟩
    rw [reverse_propertyTokens_some]
    have whole := (scans.congr hasToken_some_iff).trans_leads leads
    rw [← Place.behind_append] at whole
    exact whole

/-- The brackets of an empty key. -/
theorem leads_key_brackets {before : List Char} (isMap : Bool)
    (no_break : ∀ c ∈ before ++ brackets isMap, isBreak c = false)
    (near : bytes (before ++ brackets isMap) ≤ Scanner.maxKeySize)
    (here : p.rest = before ++ (brackets isMap ++ rest))
    {later : List Token} {key' : Option KeyStart} (inside : indent ≤ (p.behind before).column)
    (refreshed : refresh? (p.behind before) key' = some key') (fresh : allowed = true → key' = none)
    (remembered : saved allowed key' indent (p.behind before) later = some (keyAt indent p ts)) :
    Leads (inBlock (p.behind before) later allowed key' indent outer)
      (inBlock ((p.behind before).behind (brackets isMap)) ((bracketTokens isMap).reverse ++ later) false
        (some (keyAt indent p ts)) indent outer) := by
  obtain ⟨first, second, pair⟩ : ∃ first second, brackets isMap = [first, second] := by
    cases isMap <;> exact ⟨_, _, rfl⟩
  have first_no_break : isBreak first = false := no_break first (by simp [pair])
  -- on the same line, and near enough to where the key started
  have fresh_key : isStale (p.behind (before ++ [first])) (keyAt indent p ts) = false :=
    isStale_keyAt (w := [second]) (by simpa [pair] using no_break) (by simpa [pair] using near)
      (by simpa [pair] using here)
  rw [Place.behind_append, Place.behind_singleton first_no_break] at fresh_key
  refine leads_brackets isMap (Place.rest_behind_eq here) inside refreshed fresh ?_
  simp [remembered, refresh?, fresh_key]

/-- A simple key with its property stands on one line. -/
theorem no_break_of_simpleKey? {key : Piece} {written : List Char}
    (simple : key.simpleKey? = some written) : ∀ c ∈ written, isBreak c = false := by
  obtain ⟨⟨property?, bare, rfl, is_simple⟩, -⟩ := isSimple_of_simpleKey? simple
  intro c mem
  rcases List.mem_append.mp mem with mem | mem
  · exact no_break_lead _ c mem
  · exact is_simple.no_break c mem

/-- A simple key starts with a visible character. -/
theorem IsSimple.isAtToken {key : Piece} {bare : List Char} (simple : IsSimple key property? bare) :
    IsAtToken (bare ++ rest) := by
  cases simple with
  | scalar _ leaf no_break => exact leaf.isAtToken_lines 0
  | seq => exact isAtToken_cons (by decide)
  | map => exact isAtToken_cons (by decide)

/-- A key is scanned up to its colon, and its start is remembered. -/
theorem scans_key {key : Piece} {written : List Char} (simple : key.simpleKey? = some written)
    (inside : indent ≤ p.column) (gap : StartsGap rest) (here : p.rest = written ++ ':' :: rest) :
    Scans key.IsLegible (inBlock p ts true none indent outer)
      (inBlock (p.behind written) ((key.tokens .mark).reverse ++ ts) false (some (keyAt indent p ts))
        indent outer) := by
  have no_break := no_break_of_simpleKey? simple
  obtain ⟨⟨property?, bare, rfl, is_simple⟩, near⟩ := isSimple_of_simpleKey? simple
  rw [List.append_assoc] at here
  obtain ⟨allowed', key', refreshed, fresh, remembered, scans⟩ :=
    scans_key_lead inside no_break near is_simple.isAtToken here
  have inside_bare : indent ≤ (p.behind (lead .start property?)).column := by
    rw [Place.behind_eq_of_no_break (no_break_lead _) here]
    push_cast
    omega
  rw [Place.behind_append]
  -- a simple key is a scalar or a pair of brackets
  cases is_simple with
  | scalar _ leaf one_line =>
    have leads : Leads (inBlock (p.behind (lead .start property?))
        ((propertyTokens property?).reverse ++ ts) allowed' key' indent outer) _ :=
      leaf.leads_key one_line gap (Place.rest_behind_eq here) inside_bare refreshed fresh
    rw [remembered] at leads
    rw [tokens, List.reverse_append]
    exact scans.trans_leads leads
  | seq =>
    rw [tokens, List.reverse_append, List.append_assoc]
    exact (scans.congr (by simp [IsLegible, AreLegible])).trans_leads
      (leads_key_brackets false no_break near here inside_bare refreshed fresh remembered)
  | map =>
    rw [tokens, List.reverse_append, List.append_assoc]
    exact (scans.congr (by simp [IsLegible, AreLegibleEntries])).trans_leads
      (leads_key_brackets true no_break near here inside_bare refreshed fresh remembered)

end Piece
end DeployManifest.Yaml
