import DeployManifest.Proofs.LiteralReading
import DeployManifest.Proofs.PlainReading
import DeployManifest.Yaml.Token.Scan

/-!
# Steps of the scanner

A scanner leads to another one if what it makes of its text is what the other one makes of the rest,
with a step of its fuel for each character between them at most.  So a whole text is scanned piece by
piece, and what is said about a piece holds wherever the piece stands.

- `Leads`, `Fails`: a scanner that gets to another one, and a scanner that gets nowhere.
- `Scans`: a scanner that gets to another one if a condition holds, and nowhere if not.
- `inBlock`: a scanner in the midst of a block, outside of any brackets.
- `leads_spaces`, `leads_line`: getting to the next token, on the line or over the end of it.
- `leads_token`, `fails_token`: reading a token, and a token that cannot be read.
-/

namespace DeployManifest.Yaml

/-- Whether a token may start with this. -/
def isVisible (c : Char) : Bool := !isBlank c && !isBreak c && c ≠ '#' && !isByteOrderMark c

/-- Whether a token or the end of the text stands here. -/
def IsAtToken (rest : List Char) : Prop := ∀ c ∈ rest.head?, isVisible c = true

namespace Scanner

variable {s m t : Scanner} {p : Place} {ts : List Token} {allowed : Bool} {key? : Option KeyStart}
  {indent : Int} {outer : List Int} {rest : List Char} {c : Char} {n : Nat}

/-- Whatever is scanned with some fuel is scanned with more of it. -/
theorem run?_mono {fuel : Nat} {tokens : List Token} (run : run? fuel s = some tokens) (n : Nat) :
    run? (fuel + n) s = some tokens := by
  induction fuel generalizing s with
  | zero => simp [run?] at run
  | succ fuel ih =>
    rw [Nat.add_right_comm, run?]
    rw [run?] at run
    obtain ⟨ready, refreshed, run⟩ := Option.bind_eq_some_iff.mp run
    rw [refreshed, Option.bind_some]
    dsimp only at run ⊢
    split at run
    · next ended => simpa [ended] using run
    · next c rest here =>
      obtain ⟨next, step, run⟩ := Option.bind_eq_some_iff.mp run
      simp only [step, Option.bind_some]
      exact ih run

/-- A scanner that makes of its text what another one makes of the rest. -/
def Leads (s t : Scanner) : Prop :=
  ∃ n, n + t.place.rest.length ≤ s.place.rest.length ∧ ∀ fuel, run? (fuel + n) s = run? fuel t

/-- A scanner that never comes to the end of its text. -/
def Fails (s : Scanner) : Prop := ∀ fuel, run? fuel s = none

/-- A scanner that leads to another one under a condition and otherwise fails. -/
def Scans (condition : Prop) (s t : Scanner) : Prop :=
  (condition → Leads s t) ∧ (¬ condition → Fails s)

theorem Leads.refl (s : Scanner) : Leads s s := ⟨0, by omega, fun _ => rfl⟩

/-- Steps of a scanner can be taken one behind the other. -/
theorem Leads.trans (first : Leads s m) (second : Leads m t) : Leads s t := by
  obtain ⟨a, a_le, a_run⟩ := first
  obtain ⟨b, b_le, b_run⟩ := second
  refine ⟨b + a, by omega, fun fuel => ?_⟩
  rw [← Nat.add_assoc, a_run, b_run]

/-- What leads to a failure fails. -/
theorem Leads.fails (first : Leads s m) (fails : Fails m) : Fails s := by
  intro fuel
  obtain ⟨n, -, run⟩ := first
  cases tokens : run? fuel s with
  | none => rfl
  | some tokens_s =>
    -- with more fuel it would succeed as well, and so would the scanner it leads to
    have more := run?_mono tokens n
    rw [run, fails] at more
    exact absurd more (by simp)

theorem Leads.scans (leads : Leads s t) : Scans True s t := ⟨fun _ => leads, fun h => absurd trivial h⟩

theorem Scans.leads (scans : Scans True s t) : Leads s t := scans.1 trivial

/-- One piece of text after the other: all conditions have to hold. -/
theorem Scans.trans {first second : Prop} (a : Scans first s m) (b : Scans second m t) :
    Scans (first ∧ second) s t := by
  refine ⟨fun both => (a.1 both.1).trans (b.1 both.2), fun not_both => ?_⟩
  by_cases holds : first
  · exact (a.1 holds).fails (b.2 fun h => not_both ⟨holds, h⟩)
  · exact a.2 holds

theorem Scans.congr {first second : Prop} (same : first ↔ second) (a : Scans first s t) :
    Scans second s t := propext same ▸ a

theorem Leads.trans_scans {condition : Prop} (a : Leads s m) (b : Scans condition m t) :
    Scans condition s t :=
  (a.scans.trans b).congr (iff_of_eq (true_and condition))

theorem Scans.trans_leads {condition : Prop} (a : Scans condition s m) (b : Leads m t) :
    Scans condition s t :=
  (a.trans b.scans).congr (iff_of_eq (and_true condition))

/-- Scanners that make the same of what is left. -/
theorem Leads.of_eq (no_longer : t.place.rest.length ≤ s.place.rest.length)
    (same : ∀ fuel, run? fuel s = run? fuel t) : Leads s t :=
  ⟨0, by omega, same⟩

/-- The scanner in a block, outside of flow collections. -/
def inBlock (p : Place) (tokens : List Token) (allowed : Bool) (key? : Option KeyStart)
    (indent : Int) (outer : List Int) : Scanner :=
  ⟨p, tokens, tokens.length, allowed, key?, [], indent, outer⟩

/-! ## Up to the next token -/

/-- Skipping stops behind the spaces if nothing more is to be skipped. -/
theorem skipWhile_spaces {q : Char → Bool} (space : q ' ' = true)
    (stops : ∀ c ∈ rest.head?, q c = false) (here : p.rest = spaces n ++ rest) :
    p.skipWhile q = p.behind (spaces n) := by
  have taken : p.rest.takeWhile q = spaces n := by
    rw [here, List.takeWhile_append_of_pos fun c mem => by
      obtain rfl := List.eq_of_mem_replicate mem
      exact space]
    cases rest with
    | nil => simp
    | cons c more => simp [stops c rfl]
  rw [Place.skipWhile, taken, Place.advance_eq_behind isBreak_of_mem_spaces here]

theorem isVisible_iff : isVisible c = true ↔
    isBlank c = false ∧ isBreak c = false ∧ c ≠ '#' ∧ isByteOrderMark c = false := by
  simp [isVisible, and_assoc]

theorem isAtToken_cons (visible : isVisible c = true) : IsAtToken (c :: rest) := by
  intro d mem
  obtain rfl : c = d := by simpa using mem
  exact visible

/-- Where a token starts there is neither a blank nor a break. -/
theorem next_of_isAtToken (at_token : IsAtToken rest) :
    ∀ c ∈ rest.head?, isBlank c = false ∧ isBreak c = false := by
  intro c mem
  obtain ⟨no_blank, no_break, -⟩ := isVisible_iff.mp (at_token c mem)
  exact ⟨no_blank, no_break⟩

/-- Spaces in front of a token are skipped. -/
theorem skipFrom_spaces (fuel : Nat) (at_token : IsAtToken rest)
    (here : s.place.rest = spaces n ++ rest) :
    s.skipFrom (fuel + 1) = { s with place := s.place.behind (spaces n) } := by
  -- no byte order mark, no comment, and no further line to skip
  have unmarked : ∀ c ∈ s.place.rest.head?, isByteOrderMark c = false := by
    intro c mem
    rw [here] at mem
    cases n with
    | zero => exact (isVisible_iff.mp (at_token c mem)).2.2.2
    | succ n =>
      obtain rfl : ' ' = c := by simpa [spaces, List.replicate_succ] using mem
      decide
  have here_token : (s.place.behind (spaces n)).rest = rest := Place.rest_behind_eq here
  have uncommented : ∀ c ∈ (s.place.behind (spaces n)).rest.head?, c ≠ '#' := by
    rw [here_token]
    exact fun c mem => (isVisible_iff.mp (at_token c mem)).2.2.1
  have no_break : (s.place.behind (spaces n)).readBreak? = none := by
    cases rest with
    | nil => exact Place.readBreak?_eq_none_of_end here_token
    | cons c more =>
      exact Place.readBreak?_eq_none here_token (isVisible_iff.mp (at_token c rfl)).2.1
  rw [skipFrom, Place.skipMark_eq_self unmarked, skipWhile_spaces (by simp) (fun c mem => by
      obtain ⟨no_blank, -⟩ := isVisible_iff.mp (at_token c mem)
      simp only [isBlank, Bool.or_eq_false_iff] at no_blank
      simp [no_blank.1, no_blank.2]) here,
    Place.skipComment_eq_self uncommented, no_break]

/-- So is the end of a line; then a key may start. -/
theorem skipFrom_line (fuel : Nat) (block : s.inFlow = false) (at_token : IsAtToken rest)
    (here : s.place.rest = '\n' :: (spaces n ++ rest)) :
    s.skipFrom (fuel + 2) =
      { s with place := s.place.behind ('\n' :: spaces n), keyAllowed := true } := by
  have here_next := Place.rest_behind_eq (w := ['\n']) here
  have unmarked : ∀ c ∈ s.place.rest.head?, isByteOrderMark c = false := by
    simp [here, (by decide : isByteOrderMark '\n' = false)]
  rw [skipFrom, Place.skipMark_eq_self unmarked, Place.skipWhile_eq_self (by simp [here]),
    Place.skipComment_eq_self (by simp [here]),
    Place.readBreak?_eq_some here (by decide) (by decide), block]
  rw [Bool.not_false, Bool.or_true, Place.behind_cons (spaces n)]
  exact skipFrom_spaces fuel at_token here_next

/-- Scanners whose next token stands at the same place, with the same memory, make the same of what
    is left. -/
theorem run?_congr (same : s.skipToToken = t.skipToToken) (fuel : Nat) : run? fuel s = run? fuel t := by
  cases fuel with
  | zero => rfl
  | succ fuel => rw [run?, run?, same]

/-- The spaces in front of a token are skipped. -/
theorem leads_spaces (at_token : IsAtToken rest) (here : p.rest = spaces n ++ rest) :
    Leads (inBlock p ts allowed key? indent outer)
      (inBlock (p.behind (spaces n)) ts allowed key? indent outer) := by
  refine .of_eq (by simp [inBlock]) (run?_congr ?_)
  have stays := skipFrom_spaces (n := 0) (s := inBlock (p.behind (spaces n)) ts allowed key? indent outer)
    (p.behind (spaces n)).rest.length at_token (Place.rest_behind_eq here)
  rw [skipToToken, skipFrom_spaces _ at_token here]
  exact stays.symm

/-- So is the end of a line, and behind it a key may stand again. -/
theorem leads_line (at_token : IsAtToken rest) (here : p.rest = '\n' :: (spaces n ++ rest)) :
    Leads (inBlock p ts allowed key? indent outer)
      (inBlock (p.behind ('\n' :: spaces n)) ts true key? indent outer) := by
  refine .of_eq (by simp [inBlock]) (run?_congr ?_)
  -- behind the break and the spaces there is nothing more to skip
  have stays := skipFrom_spaces (n := 0)
    (s := inBlock (p.behind ('\n' :: spaces n)) ts true key? indent outer)
    (p.behind ('\n' :: spaces n)).rest.length at_token
    (Place.rest_behind_eq (w := '\n' :: spaces n) here)
  obtain ⟨fuel, enough⟩ : ∃ fuel, p.rest.length + 1 = fuel + 2 := by
    refine ⟨(spaces n ++ rest).length, ?_⟩
    rw [here]
    rfl
  rw [skipToToken, show (inBlock p ts allowed key? indent outer).place.rest.length + 1 = fuel + 2
    from enough, skipFrom_line fuel rfl at_token here]
  exact stays.symm

theorem skipToToken_inBlock (at_token : IsAtToken p.rest) :
    (inBlock p ts allowed key? indent outer).skipToToken = inBlock p ts allowed key? indent outer :=
  skipFrom_spaces (n := 0) p.rest.length at_token rfl

theorem refreshKeys?_inBlock : (inBlock p ts allowed key? indent outer).refreshKeys? =
    (refresh? p key?).map fun key? => inBlock p ts allowed key? indent outer := by
  cases h : refresh? p key? <;> simp [refreshKeys?, inBlock, h]

/-- A key start on a line further up is forgotten. -/
theorem leads_forget (at_token : IsAtToken p.rest)
    (idle : ∀ key ∈ key?, key.required = false ∧ key.line < p.line) :
    Leads (inBlock p ts allowed key? indent outer) (inBlock p ts allowed none indent outer) := by
  -- a key of a line above is stale
  have forgotten : refresh? p key? = some none := by
    cases key? with
    | none => rfl
    | some key =>
      obtain ⟨optional, above⟩ := idle key rfl
      simp [refresh?, isStale, optional, above]
  refine .of_eq (Nat.le_refl _) fun fuel => ?_
  cases fuel with
  | zero => rfl
  | succ fuel =>
    rw [run?, run?, skipToToken_inBlock at_token, skipToToken_inBlock at_token,
      refreshKeys?_inBlock, refreshKeys?_inBlock, forgotten]
    rfl

/-! ## Tokens -/

/-- The next token is read where it stands. -/
theorem run?_token {fuel : Nat} {key' : Option KeyStart} (visible : isVisible c = true)
    (here : p.rest = c :: rest) (inside : indent ≤ p.column)
    (refreshed : refresh? p key? = some key') :
    run? (fuel + 1) (inBlock p ts allowed key? indent outer) =
      ((inBlock p ts allowed key' indent outer).token? c rest).bind (run? fuel) := by
  have at_token : IsAtToken p.rest := by
    rw [here]
    exact isAtToken_cons visible
  -- it is not further left than the block that is open, so none is closed
  have open_blocks : (inBlock p ts allowed key' indent outer).closeBlocks p.column =
      inBlock p ts allowed key' indent outer := by
    have deep : ¬ (p.column : Int) < indent := by omega
    cases outer <;> simp [closeBlocks, inFlow, inBlock, closeFrom, deep]
  rw [run?, skipToToken_inBlock at_token, refreshKeys?_inBlock, refreshed, Option.map_some,
    Option.bind_some]
  rw [show (inBlock p ts allowed key' indent outer).place.column = p.column from rfl, open_blocks]
  simp only [show (inBlock p ts allowed key' indent outer).place.rest = c :: rest from here]

/-- A token that is read leads on, as it takes at least one character. -/
theorem leads_token {key' : Option KeyStart} (visible : isVisible c = true)
    (here : p.rest = c :: rest) (inside : indent ≤ p.column)
    (refreshed : refresh? p key? = some key')
    (read : (inBlock p ts allowed key' indent outer).token? c rest = some t)
    (shorter : t.place.rest.length < p.rest.length) :
    Leads (inBlock p ts allowed key? indent outer) t := by
  refine ⟨1, by rw [Nat.add_comm]; exact shorter, fun fuel => ?_⟩
  rw [run?_token visible here inside refreshed, read, Option.bind_some]

/-- A token that cannot be read is a failure of the scanner. -/
theorem fails_token {key' : Option KeyStart} (visible : isVisible c = true)
    (here : p.rest = c :: rest) (inside : indent ≤ p.column)
    (refreshed : refresh? p key? = some key')
    (unread : (inBlock p ts allowed key' indent outer).token? c rest = none) :
    Fails (inBlock p ts allowed key? indent outer) := by
  intro fuel
  cases fuel with
  | zero => rfl
  | succ fuel => rw [run?_token visible here inside refreshed, unread, Option.bind_none]

/-! ## The ends of blocks -/

/-- A block ends where less is indented, or at the end of the text. -/
theorem leads_close {around : Int} (at_token : IsAtToken p.rest)
    (shallow : (p.column : Int) < indent ∨ p.rest = [] ∧ -1 < indent ∧ around < indent) :
    Leads (inBlock p ts true none indent (around :: outer))
      (inBlock p (.blockEnd :: ts) true none around outer) := by
  refine .of_eq (Nat.le_refl _) fun fuel => ?_
  cases fuel with
  | zero => rfl
  | succ fuel =>
    have closing (column : Int) (below : column < indent) :
        (inBlock p ts true none indent (around :: outer)).closeBlocks column =
          (inBlock p (.blockEnd :: ts) true none around outer).closeBlocks column := by
      simp [closeBlocks, inFlow, inBlock, closeFrom, below, emit]
    rw [run?, run?, skipToToken_inBlock at_token, skipToToken_inBlock at_token,
      refreshKeys?_inBlock, refreshKeys?_inBlock]
    simp only [refresh?, Option.map_some, Option.bind_some]
    rw [show (inBlock p ts true none indent (around :: outer)).place.column = p.column from rfl,
      show (inBlock p (.blockEnd :: ts) true none around outer).place.column = p.column from rfl]
    by_cases below : (p.column : Int) < indent
    · rw [closing _ below]
    · -- at the end of the text all blocks are closed
      obtain ⟨ended, positive, deeper⟩ := shallow.resolve_left below
      have stays : (inBlock p ts true none indent (around :: outer)).closeBlocks p.column =
          inBlock p ts true none indent (around :: outer) := by
        simp [closeBlocks, inFlow, inBlock, closeFrom, below]
      have stays_closed : (inBlock p (.blockEnd :: ts) true none around outer).closeBlocks p.column =
          inBlock p (.blockEnd :: ts) true none around outer := by
        have below : ¬ (p.column : Int) < around := by omega
        cases outer <;> simp [closeBlocks, inFlow, inBlock, closeFrom, below]
      rw [stays, stays_closed]
      simp only [show (inBlock p ts true none indent (around :: outer)).place.rest = [] from ended,
        show (inBlock p (.blockEnd :: ts) true none around outer).place.rest = [] from ended,
        closing (-1) positive]

end Scanner
end DeployManifest.Yaml
