import DeployManifest.Proofs.Pieces
import DeployManifest.Proofs.TokenSteps

/-!
# Scanning properties and scalars

What is written in front of a node is scanned into its token, and so is a scalar, whatever the style it
is written in: on the line of a key up to its colon, and elsewhere up to the next line.

- `scans`: a property, in front of whatever comes next.
- `leads_key`: a scalar that is a key, with the colon behind it.
- `leads_quoted_line`, `leads_word_line`, `leads_line`: a scalar on a line of its own, in quotes, as a plain
  word, and in whatever style it is written.
-/

namespace DeployManifest.Yaml

open Scanner

variable {p : Place} {ts : List Token} {allowed : Bool} {key? key' : Option KeyStart}
  {indent : Int} {outer : List Int} {rest : List Char} {n : Nat}

namespace Property

/-- A property starts with a visible character. -/
theorem isAtToken_text (property : Property) : IsAtToken (property.text ++ rest) := by
  cases property with
  | anchor name => exact isAtToken_cons (by decide)
  | tag name =>
    rcases writtenTag_cases name with h | ⟨u, h, -⟩
    all_goals
      rw [text, h]
      exact isAtToken_cons (by decide)

/-- A property stands on one line. -/
theorem no_break_text (property : Property) : ∀ c ∈ property.text, isBreak c = false := by
  cases property with
  | anchor name =>
    intro c mem
    rcases List.mem_cons.mp mem with rfl | mem
    · decide
    · exact isBreak_of_isNameChar (name.valid c mem)
  | tag name =>
    rcases writtenTag_cases name with h | ⟨u, h, safe⟩
    · rw [text, h]
      exact forall_mem_of_all (by decide)
    · rw [text, h]
      exact List.forall_mem_cons.mpr ⟨by decide, fun c mem => isBreak_of_isTagSafe (safe c mem)⟩

/-- A property is read as its token, or nowhere if it has none. -/
theorem scans (property : Property) (gap : StartsGap rest) (here : p.rest = property.text ++ rest)
    (inside : indent ≤ p.column) (refreshed : refresh? p key? = some key')
    (fresh : allowed = true → key' = none) :
    Scans (property.token?.isSome = true) (inBlock p ts allowed key? indent outer)
      (inBlock (p.behind property.text) (property.token?.toList ++ ts) false
        (saved allowed key' indent p ts) indent outer) := by
  have rest_eq : (p.behind property.text).rest = rest := Place.rest_behind_eq here
  cases property with
  | anchor name =>
    have reads : anchorToken? .anchor p = some (.anchor name.text, p.behind (anchor name).text) := by
      rw [anchorToken?, readAnchor?_eq name (c := '&') (by decide) here gap]
      rfl
    refine ⟨fun _ => leads_keyLike (by decide) here inside refreshed fresh (token?_anchor here) reads
      ?_, fun unread => absurd rfl unread⟩
    rw [rest_eq, here]
    simp only [text, List.length_append, List.length_cons]
    omega
  | tag name =>
    -- a tag is always written with a bang, but not every tag can be read
    obtain ⟨u, starts⟩ : ∃ u, writtenTag name = '!' :: u := by
      rcases writtenTag_cases name with h | ⟨u, h, -⟩
      · exact ⟨_, h⟩
      · exact ⟨u, h⟩
    have here_mark : p.rest = '!' :: (u ++ rest) := by rw [here, text, starts]; rfl
    have reads := tagToken?_eq gap here
    cases legible : tagOf? name with
    | some token =>
      rw [legible, Option.map_some] at reads
      rw [token?, legible]
      refine ⟨fun _ => leads_keyLike (by decide) here_mark inside refreshed fresh
        (token?_tag here_mark) reads ?_, fun unread => absurd rfl unread⟩
      rw [rest_eq, here_mark]
      simp only [List.length_append, List.length_cons]
      omega
    | none =>
      rw [legible, Option.map_none] at reads
      exact ⟨fun h => by simp [token?, legible] at h, fun _ =>
        fails_keyLike (by decide) here_mark inside refreshed fresh (token?_tag here_mark) reads⟩

end Property

namespace Leaf

variable {leaf : Leaf}

/-- A scalar starts with a visible character, too. -/
theorem isAtToken_lines (leaf : Leaf) (column : Nat) :
    IsAtToken (scalarLines leaf.style column leaf.text.toList ++ rest) := by
  rcases leaf.style_cases with ⟨style, fits, nonempty⟩ | ⟨style, -⟩ | ⟨style, -⟩ | style
  · obtain ⟨c, more, starts⟩ := List.exists_cons_of_ne_nil nonempty
    rw [style, show scalarLines .plain column leaf.text.toList = leaf.text.toList from rfl, starts]
    rw [starts] at fits
    exact isAtToken_cons (isVisible_of_fitsPlain fits)
  all_goals
    rw [style]
    exact isAtToken_cons (by decide)

/-- Behind something that is read, less is left to be read. -/
theorem lt_length_of_quotes {c : Char} {w : List Char} (here : p.rest = c :: w ++ rest) :
    (p.behind (c :: w)).rest.length < p.rest.length := by
  rw [Place.rest_behind_eq here, here]
  simp only [List.length_append, List.length_cons]
  omega

theorem endLine_of_last {w : List Char} {c : Char} (no_break : isBreak c = false) :
    endLine (w ++ [c]) = w ++ [c] ++ ['\n'] := by
  simp [endLine, no_break]

/-- A text on one line gets a break at its end. -/
theorem endLine_of_no_break {text : List Char} (nonempty : text ≠ [])
    (no_break : text.any isBreak = false) : endLine text = text ++ ['\n'] := by
  have last : isBreak (text.getLast nonempty) = false := by
    have all := List.any_eq_false.mp no_break _ (List.getLast_mem nonempty)
    simpa using all
  rw [← List.dropLast_append_getLast nonempty]
  exact endLine_of_last last

/-- A text in quotes is one token.  What may have been a key in front of it is settled, and the text may be
    a key itself. -/
theorem leads_quoted {single : Bool} {column : Nat} {style : Style}
    (style_eq : style = if single then .singleQuoted else .doubleQuoted)
    (reads : readQuoted? single p = some (leaf.text.toList,
      p.behind (scalarLines style column leaf.text.toList)))
    (here : p.rest = scalarLines style column leaf.text.toList ++ rest) (inside : indent ≤ p.column)
    (refreshed : refresh? p key? = some key') (fresh : allowed = true → key' = none) :
    Leads (inBlock p ts allowed key? indent outer)
      (inBlock (p.behind (scalarLines style column leaf.text.toList))
        (.scalar style leaf.text :: ts) false (saved allowed key' indent p ts) indent outer) := by
  have token : quotedToken? single p = some (.scalar style leaf.text,
      p.behind (scalarLines style column leaf.text.toList)) := by
    rw [quotedToken?, reads, Option.map_some]
    simp [style_eq]
  cases single with
  | true =>
    obtain rfl : style = .singleQuoted := style_eq
    exact leads_keyLike (by decide) here inside refreshed fresh (token?_singleQuote here) token
      (lt_length_of_quotes here)
  | false =>
    obtain rfl : style = .doubleQuoted := style_eq
    exact leads_keyLike (by decide) here inside refreshed fresh (token?_doubleQuote here) token
      (lt_length_of_quotes here)

/-- A scalar without line breaks in front of the colon of its key. -/
theorem leads_key (leaf : Leaf) (no_break : leaf.text.toList.any isBreak = false)
    (gap : StartsGap rest) (here : p.rest = scalarLines leaf.style 0 leaf.text.toList ++ ':' :: rest)
    (inside : indent ≤ p.column) (refreshed : refresh? p key? = some key')
    (fresh : allowed = true → key' = none) :
    Leads (inBlock p ts allowed key? indent outer)
      (inBlock (p.behind (scalarLines leaf.style 0 leaf.text.toList))
        (.scalar leaf.style leaf.text :: ts) false (saved allowed key' indent p ts) indent outer) := by
  -- a key is on one line, which rules out block scalars
  rcases leaf.style_cases with ⟨style, fits, nonempty⟩ | ⟨style, fits, no_feed⟩ | ⟨-, -, feed⟩ | style
  · rw [style] at here ⊢
    have leads : Leads (inBlock p ts allowed key? indent outer) _ :=
      leads_plain_key fits nonempty here gap.atGap inside refreshed fresh
    rwa [String.ofList_toList] at leads
  · rw [style] at here ⊢
    have no_breaks : ∀ c ∈ leaf.text.toList, isBreak c = false := by simpa using no_break
    exact leads_quoted rfl
      (readQuoted?_single fits no_feed (.inr no_breaks) (by simp) here) here inside refreshed fresh
  · have breaks : leaf.text.toList.any isBreak = true :=
      List.any_eq_true.mpr ⟨'\n', feed, by decide⟩
    simp [breaks] at no_break
  · rw [style] at here ⊢
    exact leads_quoted rfl (readQuoted?_double here) here inside refreshed fresh

/-! ### Up to the next line -/

section Line

variable {column : Nat} (at_token : IsAtToken rest) (shallow : (n : Int) ≤ indent ∨ rest = [] ∧ n = 0)
  (inside : indent ≤ p.column) (refreshed : refresh? p key? = some key')
  (remembered : Idle (saved allowed key' indent p ts) p.line) (fresh : allowed = true → key' = none)

include at_token inside refreshed remembered fresh

/-- A text in quotes that has its line for itself is read up to the next line. -/
theorem leads_quoted_line {single : Bool} {style : Style}
    (style_eq : style = if single then .singleQuoted else .doubleQuoted)
    (reads : readQuoted? single p = some (leaf.text.toList,
      p.behind (scalarLines style column leaf.text.toList)))
    (closed : endLine (scalarLines style column leaf.text.toList) =
      scalarLines style column leaf.text.toList ++ ['\n'])
    (here : p.rest = endLine (scalarLines style column leaf.text.toList) ++ (spaces n ++ rest)) :
    Leads (inBlock p ts allowed key? indent outer)
      (inBlock (p.behind (endLine (scalarLines style column leaf.text.toList) ++ spaces n))
        (.scalar style leaf.text :: ts) true none indent outer) := by
  rw [closed, List.append_assoc] at here ⊢
  rw [Place.behind_append]
  exact (leads_quoted style_eq reads here inside refreshed fresh).trans
    (leads_lineEnd (remembered.mono (Place.line_le_line_behind _)) at_token
      (Place.rest_behind_eq here))

include shallow

/-- A plain word that has its line for itself is read up to the next line. -/
theorem leads_word_line (fits : fitsPlain leaf.text.toList = true) (nonempty : leaf.text.toList ≠ [])
    (here : p.rest = endLine leaf.text.toList ++ (spaces n ++ rest)) :
    Leads (inBlock p ts allowed key? indent outer)
      (inBlock (p.behind (endLine leaf.text.toList ++ spaces n)) (.scalar .plain leaf.text :: ts) true
        none indent outer) := by
  have closed : endLine leaf.text.toList = leaf.text.toList ++ ['\n'] := by
    simp only [fitsPlain, Bool.and_eq_true, Bool.not_eq_true'] at fits
    exact endLine_of_no_break nonempty fits.1.1.1.1.1.2
  rw [closed, List.append_assoc] at here ⊢
  have leads : Leads (inBlock p ts allowed key? indent outer) _ :=
    leads_plain_line fits nonempty here at_token
      (fun more => shallow.resolve_right fun ended => more ended.1) inside refreshed fresh
  rw [String.ofList_toList] at leads
  -- behind the line break a key that began with the word is out of reach
  refine leads.trans (leads_forget ?_ fun key mem => ?_)
  · rwa [Place.rest_behind_eq (w := leaf.text.toList ++ '\n' :: spaces n) (by simpa using here)]
  · obtain ⟨optional, above⟩ := remembered key mem
    have below : p.line + 1 ≤ (p.behind (leaf.text.toList ++ '\n' :: spaces n)).line := by
      rw [Place.behind_append, Place.behind_cons]
      exact Nat.le_trans (Nat.succ_le_succ (Place.line_le_line_behind _))
        (Place.line_le_line_behind (p := (p.behind leaf.text.toList).behind ['\n']) _)
    exact ⟨optional, by omega⟩

end Line

/-- A scalar up to the end of its last line, and the indentation of the next line. -/
theorem leads_line (leaf : Leaf) {column : Nat} (column_eq : column = (max indent 0).toNat + 2)
    (here : p.rest = endLine (scalarLines leaf.style column leaf.text.toList) ++ (spaces n ++ rest))
    (at_token : IsAtToken rest) (shallow : (n : Int) ≤ indent ∨ rest = [] ∧ n = 0)
    (inside : indent ≤ p.column) (apart : indent ≠ p.column) (idle : Idle key? p.line)
    (fresh : allowed = true → key? = none) :
    Leads (inBlock p ts allowed key? indent outer)
      (inBlock (p.behind (endLine (scalarLines leaf.style column leaf.text.toList) ++ spaces n))
        (.scalar leaf.style leaf.text :: ts) true none indent outer) := by
  obtain ⟨key', refreshed, idle', fresh'⟩ := idle.refreshed fresh
  have remembered : Idle (saved allowed key' indent p ts) p.line := idle_saved idle' apart
  -- plain, in single quotes, as a literal block, or in double quotes
  rcases leaf.style_cases with ⟨style, fits, nonempty⟩ | ⟨style, fits, no_feed⟩ | ⟨style, fits, -⟩ | style
  · rw [style] at here ⊢
    exact leads_word_line at_token shallow inside refreshed remembered fresh' fits nonempty here
  · rw [style] at here ⊢
    have closed : endLine (scalarLines .singleQuoted column leaf.text.toList) =
        scalarLines .singleQuoted column leaf.text.toList ++ ['\n'] :=
      endLine_of_last (by decide)
    have here_quoted : p.rest = inSingleQuotes column leaf.text.toList ++
        '\n' :: (spaces n ++ rest) := by
      rw [here, closed]
      simp [scalarLines]
    have reads := readQuoted?_single fits no_feed (.inl (by omega : 0 < column)) (by simp) here_quoted
    exact leads_quoted_line at_token inside refreshed remembered fresh' rfl reads closed here
  · rw [style] at here ⊢
    have leads : Leads (inBlock p ts allowed key? indent outer) _ :=
      leads_literal fits column_eq (by omega) at_token here inside refreshed
        fun key mem => (idle' key mem).1
    rwa [String.ofList_toList] at leads
  · rw [style] at here ⊢
    have closed : endLine (scalarLines .doubleQuoted column leaf.text.toList) =
        scalarLines .doubleQuoted column leaf.text.toList ++ ['\n'] :=
      endLine_of_last (by decide)
    have here_quoted : p.rest = scalarLines .doubleQuoted column leaf.text.toList ++
        '\n' :: (spaces n ++ rest) := by
      rw [here, closed]
      simp
    have reads := readQuoted?_double here_quoted
    exact leads_quoted_line at_token inside refreshed remembered fresh' rfl reads closed here

end Leaf

end DeployManifest.Yaml
