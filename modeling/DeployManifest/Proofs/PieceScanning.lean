import DeployManifest.Proofs.NodeScanning

/-!
# Scanning pieces

The text of a piece is scanned into the tokens of the piece, wherever it stands, unless it has a
property that cannot be read.  A collection is scanned line by line, and its block is closed where the
next line stands further out or where the text ends.

- `IsLineScanned`: a line of a collection is read into its tokens, and the block is opened in front of the
  first one.
- `scans_lines`: so all lines of a collection are read, one behind the other.
- `scans_collection`: the block of a collection is opened, filled and closed.
- `isScanned`: by induction, every piece is scanned wherever it stands.
- `tokens?_text`: the tokens of a whole text are those of its piece, between the marks of its start and its
  end.
-/

namespace DeployManifest.Yaml

open Scanner

variable {p : Place} {ts : List Token} {allowed : Bool} {key? key' : Option KeyStart}
  {indent : Int} {outer : List Int} {rest : List Char} {n : Nat}

namespace Piece

variable {behind : Behind} {column : Nat} {property? : Option Property}

/-! ## Collections -/

/-- What stands behind an indicator or a key in a collection in `column`. -/
theorem stands_behind {c : Char} (at_column : p.column = column) (no_break : isBreak c = false) :
    Stands .dash column true column (p.behind [c]) ∧ Stands .mark column true column (p.behind [c]) := by
  have moved : (p.behind [c]).column = column + 1 := by
    rw [Place.behind_singleton no_break]
    exact congrArg (· + 1) at_column
  exact ⟨⟨nofun, fun _ => rfl, fun _ => moved, nofun, rfl⟩,
    ⟨nofun, fun _ => rfl, fun _ => moved, nofun, rfl⟩⟩

/-- Behind a simple key and its colon, the value of an entry stands on the line of the key. -/
theorem stands_key {w : List Char} (nonempty : w ≠ []) (no_break : ∀ c ∈ w, isBreak c = false)
    (at_column : p.column = column) (here : p.rest = w ++ rest) :
    Stands .key column false column (p.behind w) := by
  refine ⟨nofun, fun _ => rfl, nofun, fun _ => ?_, rfl⟩
  rw [Place.behind_eq_of_no_break no_break here]
  have := List.length_pos_of_ne_nil nonempty
  simp only
  omega

@[simp] theorem marked_self (mark : Token) (column : Nat) (ts : List Token) :
    marked mark column column ts = ts := by
  simp [marked]

@[simp] theorem around_self (column : Nat) (outer : List Int) :
    around column column outer = outer := by
  simp [around]

/-- Whether a line is scanned wherever it stands in `column`, opening a block there if need be. -/
def IsLineScanned (mark : Token) (column : Nat) (line : List Char) (tokens : List Token)
    (legible : Prop) : Prop :=
  ∀ ⦃p⦄ ⦃ts : List Token⦄ ⦃indent : Int⦄ ⦃outer : List Int⦄ ⦃n : Nat⦄ ⦃rest⦄,
    p.column = column → indent ≤ column → n ≤ column → IsAtToken rest →
    p.rest = line ++ (spaces n ++ rest) →
    Scans legible (inBlock p ts true none indent outer)
      (inBlock (p.behind (line ++ spaces n)) (tokens.reverse ++ marked mark indent column ts) true none
        column (around indent column outer))

/-- Line by line a collection is scanned. -/
theorem scans_lines {α : Type} {mark : Token} {line : α → List Char} {tokens : α → List Token}
    {legible : α → Prop} {all : List α}
    (scanned : ∀ e ∈ all, IsLineScanned mark column (line e) (tokens e) (legible e))
    (starts : ∀ e ∈ all, ∀ w, IsAtToken (line e ++ w)) (ends : ∀ e ∈ all, EndsLine (line e))
    (nonempty : all ≠ []) :
    IsLineScanned mark column (lines column line all) (all.flatMap tokens) (∀ e ∈ all, legible e) := by
  -- a line is scanned up to the next one, which stands in the same column
  induction all with
  | nil => exact absurd rfl nonempty
  | cons first more ih =>
    intro p ts indent outer n rest at_column inside shallow at_token here
    cases more with
    | nil =>
      simp only [lines, List.flatMap_nil, List.append_nil] at here ⊢
      simpa using scanned first (by simp) at_column inside shallow at_token here
    | cons next later =>
      have later_scanned := ih (fun e mem => scanned e (by simp [mem]))
        (fun e mem => starts e (by simp [mem])) (fun e mem => ends e (by simp [mem])) (by simp)
      rw [lines_cons_cons] at here ⊢
      simp only [List.append_assoc] at here
      have at_next : IsAtToken (lines column line (next :: later) ++ (spaces n ++ rest)) := by
        rw [lines, List.append_assoc]
        exact starts next (by simp) _
      have first_scans : Scans _ (inBlock p ts true none indent outer) _ :=
        scanned first (by simp) at_column inside (Nat.le_refl _) at_next here
      have here_next := Place.rest_behind_eq (w := line first ++ spaces column)
        (by simpa using here)
      have whole := first_scans.trans (later_scanned ((ends first (by simp)).column_eq here)
        (Int.le_refl _) shallow at_token here_next)
      rw [← Place.behind_append] at whole
      simpa using whole

/-- A line of a sequence is a dash and an item. -/
theorem isLineScanned_item {item : Piece} (scanned : item.IsScanned) :
    IsLineScanned .blockSequenceStart column (itemText column item)
      (.blockEntry :: item.tokens .dash) item.IsLegible := by
  intro p ts indent outer n rest at_column inside shallow at_token here
  have dash : Leads (inBlock p ts true none indent outer) _ :=
    leads_blockEntry (by omega) here (startsGap_text (by decide))
  rw [at_column] at dash
  have above : (n : Int) ≤ column ∨ rest = [] ∧ n = 0 := .inl (by omega)
  have whole := dash.trans_scans (scanned (stands_behind at_column (by decide)).1 at_token above
    (Place.rest_behind_eq (w := ['-']) here))
  rw [← Place.behind_append] at whole
  simpa [itemText] using whole

/-- The tokens of an entry. -/
def entryTokensOf (entry : Piece × Piece) : List Token :=
  let behind : Behind := if (simpleKey? entry.1).isSome then .key else .mark
  .key :: (entry.1.tokens .mark ++ .value :: entry.2.tokens behind)

/-- A line of a mapping is a key and a value. -/
theorem isLineScanned_entry {entry : Piece × Piece} (key : entry.1.IsScanned)
    (value : entry.2.IsScanned) :
    IsLineScanned .blockMappingStart column (entryText column entry) (entryTokensOf entry)
      (entry.1.IsLegible ∧ entry.2.IsLegible) := by
  intro p ts indent outer n rest at_column inside shallow at_token here
  have above : (n : Int) ≤ column ∨ rest = [] ∧ n = 0 := .inl (by omega)
  cases simple : simpleKey? entry.1 with
  | some written =>
    have text_eq : entryText column entry = written ++ ':' :: entry.2.text .key column := by
      simp [entryText, simple]
    rw [text_eq] at here ⊢
    have here_key : p.rest = written ++ ':' :: (entry.2.text .key column ++ (spaces n ++ rest)) := by
      simpa using here
    have here_colon := Place.rest_behind_eq here_key
    have no_break := no_break_of_simpleKey? simple
    -- a key on one line: its colon makes it a key, if it is near enough
    have near := (isSimple_of_simpleKey? simple).2
    have key_scans : Scans _ (inBlock p ts true none indent outer) _ :=
      scans_key simple (by omega) (startsGap_text (by decide)) here_key
    have fresh : isStale (p.behind written) (keyAt indent p ts) = false :=
      isStale_keyAt (w := []) (by simpa using no_break) (by simpa using near) here_key
    have further : (keyAt indent p ts).column ≤ (p.behind written).column := by
      rw [Place.behind_eq_of_no_break no_break here_key]
      exact Nat.le_add_right _ _
    have key_column : (keyAt indent p ts).column = column := at_column
    have colon : Leads (inBlock (p.behind written) ((entry.1.tokens .mark).reverse ++ ts) false
        (some (keyAt indent p ts)) indent outer) _ :=
      leads_value here_colon (startsGap_text (by decide)) (by omega) further fresh rfl
    rw [key_column, ← Place.behind_append] at colon
    have stands : Stands .key column false column (p.behind (written ++ [':'])) := by
      refine stands_key (by simp) (fun c mem => ?_) at_column (by simpa using here_key)
      rcases List.mem_append.mp mem with mem | mem
      · exact no_break c mem
      · obtain rfl := List.mem_singleton.mp mem
        decide
    have whole := key_scans.trans (colon.trans_scans
      (value stands at_token above (Place.rest_behind_eq (by simpa using here_key))))
    rw [← Place.behind_append] at whole
    simpa [entryTokensOf, simple] using whole
  | none =>
    have text_eq : entryText column entry = '?' :: (entry.1.text .mark column ++
        (spaces column ++ ':' :: entry.2.text .mark column)) := by
      simp [entryText, simple]
    rw [text_eq] at here ⊢
    -- a key on lines of its own, behind a question mark
    have here_mark : p.rest = '?' :: (entry.1.text .mark column ++ (spaces column ++
        ':' :: (entry.2.text .mark column ++ (spaces n ++ rest)))) := by
      simpa using here
    have mark : Leads (inBlock p ts true none indent outer) _ :=
      leads_explicitKey (by omega) here_mark (startsGap_text (by decide))
    rw [at_column] at mark
    have here_first := Place.rest_behind_eq (w := ['?']) here_mark
    have at_colon : IsAtToken (':' :: (entry.2.text .mark column ++ (spaces n ++ rest))) :=
      isAtToken_cons (by decide)
    have key_scans : Scans _ (inBlock (p.behind ['?'])
        (.key :: marked .blockMappingStart indent column ts) true none column
        (around indent column outer)) _ :=
      key (n := column) (stands_behind at_column (by decide)).2 at_colon (.inl (Int.le_refl _))
        here_first
    have at_next := (endsLine_text entry.1 .mark column).column_eq here_first
    have here_colon := Place.rest_behind_eq (p := p.behind ['?'])
      (w := entry.1.text .mark column ++ spaces column) (by simpa using here_first)
    have colon : Leads (inBlock ((p.behind ['?']).behind (entry.1.text .mark column ++ spaces column))
        ((entry.1.tokens .mark).reverse ++ .key :: marked .blockMappingStart indent column ts) true none
        _ (around indent column outer)) _ :=
      leads_explicitValue here_colon (startsGap_text (by decide))
    rw [at_next] at colon
    have whole := mark.trans_scans (key_scans.trans (colon.trans_scans
      (value (stands_behind at_next (by decide)).2 at_token above
        (Place.rest_behind_eq (w := [':']) here_colon))))
    rw [← Place.behind_append, ← Place.behind_append, ← Place.behind_append] at whole
    simpa [entryTokensOf, simple] using whole

theorem areLegible_iff (all : List Piece) : AreLegible all ↔ ∀ item ∈ all, item.IsLegible := by
  induction all with
  | nil => simp [AreLegible]
  | cons item more ih => simp [AreLegible, ih]

/-- Entries are legible if each key and each value is. -/
theorem areLegibleEntries_iff (all : List (Piece × Piece)) :
    AreLegibleEntries all ↔ ∀ entry ∈ all, entry.1.IsLegible ∧ entry.2.IsLegible := by
  induction all with
  | nil => simp [AreLegibleEntries]
  | cons entry more ih => simp [AreLegibleEntries, ih, and_assoc]

/-- The tokens of items, line by line. -/
theorem itemTokens_eq (all : List Piece) :
    itemTokens all = all.flatMap fun item => .blockEntry :: item.tokens .dash := by
  induction all with
  | nil => rfl
  | cons item more ih => simp [itemTokens, ih]

/-- The tokens of entries, line by line. -/
theorem entryTokens_eq (all : List (Piece × Piece)) : entryTokens all = all.flatMap entryTokensOf := by
  induction all with
  | nil => rfl
  | cons entry more ih =>
    obtain ⟨k, v⟩ := entry
    simp [entryTokens, entryTokensOf, ih]

namespace Stands

variable (stands : Stands behind column allowed indent p)

include stands

/-- The dashes of a sequence stand further in than the keys around it, unless it is a loose one. -/
theorem dashes_cases (tagged : Bool) :
    indent < behind.dashes tagged column ∧ isLoose behind tagged = false ∨
      indent = behind.dashes tagged column ∧ isLoose behind tagged = true := by
  have := stands.start
  have := stands.other
  cases behind <;> cases tagged <;> simp_all [Behind.dashes, isLoose]

theorem lt_inner : indent < behind.inner column := by
  have := stands.start
  have := stands.other
  cases behind <;> simp_all [Behind.inner]

end Stands

theorem dashes_eq_inner (inside : behind ≠ .key) : behind.dashes false column = behind.inner column := by
  cases behind <;> simp_all [Behind.dashes, Behind.inner]

/-- A block that was opened ends with its last line. -/
theorem leads_closed {mark : Token} {tokens : List Token} {inside : Nat} (near : indent ≤ inside)
    (at_token : IsAtToken p.rest) (shallow : (p.column : Int) ≤ indent ∨ p.rest = [] ∧ p.column = 0) :
    Leads (inBlock p (tokens ++ marked mark indent inside ts) true none inside
        (around indent inside outer))
      (inBlock p (if indent < inside then .blockEnd :: (tokens ++ mark :: ts) else tokens ++ ts) true
        none indent outer) := by
  by_cases deeper : indent < inside
  · simp only [marked, around, deeper, if_true]
    refine leads_close at_token ?_
    rcases shallow with above | ⟨ended, -⟩
    · exact .inl (by omega)
    · exact .inr ⟨ended, by omega, deeper⟩
  · obtain rfl : indent = inside := by omega
    simpa [marked, around] using Leads.refl _

/-- A collection from what stands in front of it to its end. -/
theorem scans_collection {mark : Token} {w : List Char} {tokens : List Token} {legible : Prop}
    {inside : Nat} (stands : Stands behind column allowed indent p)
    (scanned : IsLineScanned mark inside w tokens legible) (starts : ∀ v, IsAtToken (w ++ v))
    (ends : EndsLine w) (near : indent ≤ inside)
    (inside_eq : property? = none → behind ≠ .key → inside = behind.inner column)
    (at_token : IsAtToken rest) (shallow : (n : Int) ≤ indent ∨ rest = [] ∧ n = 0)
    (here : p.rest = opening behind inside property? ++ (w ++ (spaces n ++ rest))) :
    Scans (HasToken property? ∧ legible) (inBlock p ts allowed none indent outer)
      (inBlock (p.behind (opening behind inside property? ++ (w ++ spaces n)))
        (if indent < inside then
          .blockEnd :: (tokens.reverse ++ mark :: ((propertyTokens property?).reverse ++ ts))
        else tokens.reverse ++ ((propertyTokens property?).reverse ++ ts)) true none indent outer) := by
  obtain ⟨opened, at_inside⟩ :=
    stands.scans_opening (starts _) here inside_eq
  have here_lines := Place.rest_behind_eq here
  have lines_scan : Scans _ (inBlock (p.behind (opening behind inside property?))
      ((propertyTokens property?).reverse ++ ts) true none indent outer) _ :=
    scanned at_inside near (by omega) at_token here_lines
  rw [← Place.behind_append] at lines_scan
  have rest_eq : (p.behind (opening behind inside property? ++ (w ++ spaces n))).rest = rest :=
    Place.rest_behind_eq (by simpa using here)
  have column_eq : (p.behind (opening behind inside property? ++ (w ++ spaces n))).column = n := by
    rw [Place.behind_append]
    exact ends.column_eq here_lines
  -- the block is closed where the next line stands further out
  exact (opened.trans lines_scan).trans_leads
    (leads_closed near (by rwa [rest_eq]) (by rwa [rest_eq, column_eq]))

/-- A sequence is scanned if its items are. -/
theorem isScanned_seq {property? : Option Property} {item : Piece} {more : List Piece}
    (scanned : ∀ e ∈ item :: more, IsScanned e) : IsScanned (.seq property? (item :: more)) := by
  intro behind column allowed indent p ts outer n rest stands at_token shallow here
  have loose := stands.dashes_cases property?.isSome
  have inside_eq (untagged : property? = none) (not_key : behind ≠ .key) :
      behind.dashes property?.isSome column = behind.inner column := by
    rw [untagged]
    exact dashes_eq_inner not_key
  rw [text_seq] at here ⊢
  rw [List.append_assoc] at here
  have lines_scanned : IsLineScanned _ (behind.dashes property?.isSome column) _ _ _ :=
    scans_lines (fun e mem => isLineScanned_item (scanned e mem)) (fun e _ w => isAtToken_cons (by decide))
      (fun e _ => .append ['-'] (endsLine_text e .dash _)) (List.cons_ne_nil item more)
  have scans : Scans _ (inBlock p ts allowed none indent outer) _ :=
    scans_collection stands lines_scanned (fun v => isAtToken_cons (by decide))
    (endsLine_lines (fun e _ => .append ['-'] (endsLine_text e .dash _)) (List.cons_ne_nil item more))
    (by omega) inside_eq at_token shallow here
  rw [List.append_assoc]
  refine (scans.congr (by rw [IsLegible, areLegible_iff])).trans_leads ?_
  rw [tokens, itemTokens_eq]
  -- a sequence in the column of the keys around it opens no block
  · rcases loose with ⟨deeper, closed⟩ | ⟨level, open_⟩
    · simpa [deeper, closed] using Leads.refl _
    · simpa [← level, open_] using Leads.refl _
  · simp

/-- An entry starts with a visible character. -/
theorem isAtToken_entryText (entry : Piece × Piece) (column : Nat) (w : List Char) :
    IsAtToken (entryText column entry ++ w) := by
  cases simple : simpleKey? entry.1 with
  | none =>
    simp only [entryText, simple]
    exact isAtToken_cons (by decide)
  | some written =>
    obtain ⟨⟨property?, bare, rfl, is_simple⟩, -⟩ := isSimple_of_simpleKey? simple
    simp only [entryText, simple, List.append_assoc]
    cases property? with
    | none => exact is_simple.isAtToken
    | some property =>
      simp only [lead, Behind.gap, List.nil_append, List.append_assoc]
      exact property.isAtToken_text

/-- A mapping is scanned if its keys and values are. -/
theorem isScanned_map {property? : Option Property} {entry : Piece × Piece}
    {more : List (Piece × Piece)}
    (scanned : ∀ e ∈ entry :: more, IsScanned e.1 ∧ IsScanned e.2) :
    IsScanned (.map property? (entry :: more)) := by
  intro behind column allowed indent p ts outer n rest stands at_token shallow here
  have deeper := stands.lt_inner
  rw [text_map] at here ⊢
  rw [List.append_assoc] at here
  have lines_scanned : IsLineScanned _ (behind.inner column) _ _ _ :=
    scans_lines (fun e mem => isLineScanned_entry (scanned e mem).1 (scanned e mem).2)
      (fun e _ w => isAtToken_entryText e _ w)
      (fun e _ => endsLine_entryText (endsLine_text e.2)) (List.cons_ne_nil entry more)
  have scans : Scans _ (inBlock p ts allowed none indent outer) _ := scans_collection stands lines_scanned
    (fun v => by rw [lines, List.append_assoc]; exact isAtToken_entryText entry _ _)
    (endsLine_lines (fun e _ => endsLine_entryText (endsLine_text e.2)) (List.cons_ne_nil entry more))
    (by omega) (fun _ _ => rfl) at_token shallow here
  rw [List.append_assoc]
  refine (scans.congr (by rw [IsLegible, areLegibleEntries_iff])).trans_leads ?_
  rw [tokens, entryTokens_eq]
  · simpa [deeper] using Leads.refl _
  · simp

/-- The text of a piece is scanned into its tokens wherever it stands, unless it has a property that
    cannot be read. -/
theorem isScanned (piece : Piece) : IsScanned piece := by
  induction piece with
  | reference name => exact isScanned_reference name
  | scalar property? leaf => exact isScanned_scalar property? leaf
  | seq property? all ih =>
    cases all with
    | nil => exact isScanned_brackets false (fun _ _ => rfl) (fun _ => rfl) (by simp [IsLegible, AreLegible])
    | cons item more => exact isScanned_seq ih
  | map property? all ih =>
    cases all with
    | nil =>
      exact isScanned_brackets true (fun _ _ => rfl) (fun _ => rfl)
        (by simp [IsLegible, AreLegibleEntries])
    | cons entry more => exact isScanned_map ih

/-! ## Documents -/

/-- At the end of a text, outside of all blocks, there are no more tokens. -/
theorem run?_end {fuel : Nat} (ended : p.rest = []) :
    run? (fuel + 1) (inBlock p ts true none (-1) []) = some ts.reverse := by
  have at_token : IsAtToken p.rest := by simp [ended, IsAtToken]
  have open_blocks (column : Int) :
      (inBlock p ts true none (-1) []).closeBlocks column = inBlock p ts true none (-1) [] := rfl
  have forgotten : refresh? p none = some none := rfl
  rw [run?, skipToToken_inBlock at_token, refreshKeys?_inBlock, forgotten, Option.map_some,
    Option.bind_some]
  simp only [open_blocks, show (inBlock p ts true none (-1) []).place.rest = [] from ended]
  rfl

/-- The tokens of a document that is a single piece. -/
theorem tokens?_text (piece : Piece) :
    (piece.IsLegible → (Source.ofString (String.ofList (piece.text .start 0))).tokens? =
      some (piece.tokens .start)) ∧
    (¬ piece.IsLegible → (Source.ofString (String.ofList (piece.text .start 0))).tokens? = none) := by
  have allowed : (piece.text .start 0).all isAllowed = true :=
    List.all_eq_true.mpr (areAllowed_text piece .start 0)
  have run : (Source.ofString (String.ofList (piece.text .start 0))).tokens? =
      run? ((piece.text .start 0).length + 1)
        (inBlock ⟨piece.text .start 0, 0, 0, 0⟩ [] true none (-1) []) := by
    simp only [Source.tokens?, Source.ofString, String.toList_ofList, Option.bind_some, allowed,
      if_true]
    rfl
  have stands : Stands .start 0 true (-1) ⟨piece.text .start 0, 0, 0, 0⟩ :=
    ⟨fun _ => ⟨rfl, rfl, rfl⟩, nofun, nofun, nofun, rfl⟩
  have scans : Scans _ (inBlock ⟨piece.text .start 0, 0, 0, 0⟩ [] true none (-1) []) _ :=
    isScanned piece (n := 0) stands (by simp [IsAtToken]) (.inr ⟨rfl, rfl⟩) (by simp [spaces])
  rw [run]
  refine ⟨fun legible => ?_, fun illegible => scans.2 illegible _⟩
  -- there is fuel for each character and for the end
  obtain ⟨k, enough, leads⟩ := scans.1 legible
  have split : (piece.text .start 0).length + 1 = (piece.text .start 0).length - k + 1 + k := by
    have : k ≤ (piece.text .start 0).length := Nat.le_trans (Nat.le_add_right k _) enough
    omega
  rw [split, leads, run?_end (by simp [spaces])]
  simp

end Piece
end DeployManifest.Yaml
