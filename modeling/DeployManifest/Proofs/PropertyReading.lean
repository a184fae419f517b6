import DeployManifest.Proofs.QuotedReading
import DeployManifest.Yaml.Token.Tag

/-!
# Anchors, aliases and tags read back

What is written in front of a node ends where the next space or the end of the line stands, so it is
read the same wherever it stands.  Names of anchors are always read back.  Not every tag is: some
signs are written as they are though they may not stand in a tag, and a reader stops at them.

- `StartsGap`: rests of a text that start with a space or a line end, or are empty.
- `readAnchor?_eq`: names of anchors and aliases.
- `isTagSafe`: characters of a tag that a reader does not stop at.
-/

namespace DeployManifest.Yaml

open Text (Bytes)

variable {p : Place} {rest : List Char} {c : Char}

/-- Whether a space or the end of a line follows. -/
def StartsGap (rest : List Char) : Prop := rest.head? = some ' ' ∨ rest.head? = some '\n'

/-- A gap starts with a space or a line feed. -/
theorem StartsGap.eq (gap : StartsGap rest) :
    ∃ more, rest = ' ' :: more ∨ rest = '\n' :: more := by
  cases rest with
  | nil => simp [StartsGap] at gap
  | cons c more =>
    obtain rfl | rfl : c = ' ' ∨ c = '\n' := by simpa [StartsGap] using gap
    · exact ⟨more, .inl rfl⟩
    · exact ⟨more, .inr rfl⟩

theorem StartsGap.atGap (gap : StartsGap rest) : atGap rest = true := by
  obtain ⟨more, rfl | rfl⟩ := gap.eq <;> simp [Yaml.atGap, isBlank, isBreak]

/-- A row of characters that satisfy `q` ends where a gap starts. -/
theorem takeWhile_append_gap {q : Char → Bool} (w : List Char) (space : q ' ' = false)
    (feed : q '\n' = false) (gap : rest = [] ∨ StartsGap rest) :
    (w ++ rest).takeWhile q = w.takeWhile q := by
  induction w with
  | nil =>
    rcases gap with rfl | gap
    · rfl
    · obtain ⟨more, rfl | rfl⟩ := gap.eq <;> simp [space, feed]
  | cons d w ih => by_cases holds : q d = true <;> simp [holds, ih]

/-! ## Names -/

/-- The name of an anchor. -/
structure AnchorName where
  text : String
  nonempty : text.toList ≠ []
  valid : ∀ c ∈ text.toList, isNameChar c = true

theorem isBreak_of_isNameChar (name : isNameChar c = true) : isBreak c = false := by
  rw [← Bool.not_eq_true]
  intro breaks
  rcases eq_of_isBreak breaks with rfl | rfl | rfl | rfl | rfl <;> exact absurd name (by decide)

/-- The name behind a sign is read up to the gap. -/
theorem readAnchor?_eq (name : AnchorName) (sign : isBreak c = false)
    (here : p.rest = c :: (name.text.toList ++ rest)) (gap : StartsGap rest) :
    readAnchor? p = some (name.text, p.behind (c :: name.text.toList)) := by
  have opened : p.advance 1 = p.behind [c] := (Place.behind_singleton sign).symm
  have here_name : (p.behind [c]).rest = name.text.toList ++ rest :=
    Place.rest_behind_eq (w := [c]) here
  -- the name ends where the gap starts
  have taken : (p.behind [c]).rest.takeWhile isNameChar = name.text.toList := by
    rw [here_name, takeWhile_append_gap _ (by decide) (by decide) (.inr gap),
      List.takeWhile_eq_self_iff.mpr name.valid]
  have moved := Place.advance_eq_behind (fun c mem => isBreak_of_isNameChar (name.valid c mem)) here_name
  have closed := gap.atGap
  have nonempty : name.text.toList.isEmpty = false := by simpa using name.nonempty
  rw [readAnchor?, opened]
  simp only [taken, moved, Place.rest_behind_eq here_name, closed, nonempty, Bool.true_or, Bool.not_true,
    Bool.or_self, Bool.false_eq_true, if_false, String.ofList_toList]
  rw [← Place.behind_append, List.singleton_append]

/-! ## Tags -/

/-- Whether a character occurs in written tags behind their mark. -/
def isTagSafe (c : Char) : Bool := isWrittenTagChar c || c = '%'

/-- Digits may stand in a tag. -/
theorem isTagSafe_of_digit? (digit : (Plain.digit? c).isSome = true) : isTagSafe c = true := by
  have alphanum : c.isAlphanum = true := by
    -- digits and the first six letters are letters and digits
    have f_le_z : 'f'.val.toNat ≤ 'z'.val.toNat := by decide
    have F_le_Z : 'F'.val.toNat ≤ 'Z'.val.toNat := by decide
    simp only [Char.isAlphanum, Char.isAlpha, Char.isUpper, Char.isLower, Char.isDigit,
      Bool.or_eq_true, Bool.and_eq_true, decide_eq_true_eq, ge_iff_le, UInt32.le_iff_toNat_le]
    simp only [Plain.digit?, Bool.and_eq_true, decide_eq_true_eq, Char.le_def,
      UInt32.le_iff_toNat_le] at digit
    split at digit
    · next range => exact .inr range
    split at digit
    · next range => exact .inl (.inr ⟨range.1, Nat.le_trans range.2 f_le_z⟩)
    split at digit
    · next range => exact .inl (.inl ⟨range.1, Nat.le_trans range.2 F_le_Z⟩)
    · exact absurd digit (by decide)
  simp [isTagSafe, isWrittenTagChar, alphanum]

/-- The written name of a tag consists of characters that may stand in a tag. -/
theorem isTagSafe_tagName (name : List Char) : ∀ c ∈ tagName name, isTagSafe c = true := by
  intro c mem
  obtain ⟨d, -, mem⟩ := List.mem_flatMap.mp mem
  split at mem
  · next written =>
    obtain rfl := List.mem_singleton.mp mem
    simp [isTagSafe, written]
  · obtain ⟨b, -, mem⟩ := List.mem_flatMap.mp mem
    rcases List.mem_cons.mp mem with rfl | mem
    · decide
    · exact isTagSafe_of_digit? (digit?_of_nat? (nat?_upperHex 2 b.toNat) c mem)

/-- A written tag is a mark and signs that may stand in a tag, or the mark in full. -/
theorem writtenTag_cases (name : String) : writtenTag name = "!<%21>".toList ∨
    ∃ u, writtenTag name = '!' :: u ∧ ∀ c ∈ u, isTagSafe c = true := by
  unfold writtenTag
  split
  · exact .inl rfl
  · exact .inr ⟨_, rfl, isTagSafe_tagName _⟩
  · exact .inr ⟨_, rfl, isTagSafe_tagName name.toList⟩

theorem isBreak_of_isTagSafe (safe : isTagSafe c = true) : isBreak c = false := by
  rw [← Bool.not_eq_true]
  intro breaks
  rcases eq_of_isBreak breaks with rfl | rfl | rfl | rfl | rfl <;> exact absurd safe (by decide)

/-- What reads a tag as a token, which has to end at a gap. -/
def tagToken? (p : Place) : Option (Token × Place) :=
  (readTag? p).filter fun (_, next) => atGap next.rest

/-- The token that a tag is read as when it stands alone. -/
def tagOf? (name : String) : Option Token := (tagToken? ⟨writtenTag name, 0, 0, 0⟩).map (·.1)

/-- The token for a local tag, of which `name` needs no escapes and `whole` is the rest. -/
def localTagToken (name : List Char) (whole : Bytes) : Token :=
  match Text.Utf8.encode (String.ofList name) ++ whole.takeWhile (· ≠ 0) with
  | [] => .tag "" (Text.Utf8.encode "!")
  | suffix => .tag "!" suffix

/-- A character that stands in no tag and starts no gap is not the next one. -/
theorem head?_append_gap {u : List Char} {d : Char} (not_safe : isTagSafe d = false)
    (no_space : d ≠ ' ') (no_feed : d ≠ '\n') (safe : ∀ c ∈ u, isTagSafe c = true)
    (gap : rest = [] ∨ StartsGap rest) : (u ++ rest).head? ≠ some d := by
  cases u with
  | nil =>
    rcases gap with rfl | gap
    · simp
    · obtain ⟨more, rfl | rfl⟩ := gap.eq
      · simpa using no_space.symm
      · simpa using no_feed.symm
  | cons e u =>
    have e_safe := safe e (by simp)
    simp only [List.cons_append, List.head?_cons, ne_eq, Option.some.injEq]
    rintro rfl
    rw [e_safe] at not_safe
    exact absurd not_safe (by decide)

/-- A handle without a second exclamation mark is not closed. -/
theorem not_isClosedHandle {name : List Char} (valid : ∀ c ∈ name, isNameChar c = true) :
    isClosedHandle ('!' :: name) = false := by
  cases last : name.getLast? with
  | none =>
    rw [List.getLast?_eq_none_iff.mp last]
    decide
  | some c =>
    have c_valid := valid c (List.mem_of_getLast? last)
    have other : c ≠ '!' := by
      rintro rfl
      exact absurd c_valid (by decide)
    simp [isClosedHandle, List.getLast?_cons, last, other]

theorem takeWhile_append_drop (q : Char → Bool) (l : List Char) :
    l.takeWhile q ++ l.drop (l.takeWhile q).length = l :=
  List.prefix_iff_eq_append.mp (List.takeWhile_prefix q)

/-- The handle of a local tag is its mark and the signs that need no escapes. -/
theorem readHandle?_mark {u : List Char} (safe : ∀ d ∈ u, isTagSafe d = true)
    (gap : rest = [] ∨ StartsGap rest) (here : p.rest = '!' :: (u ++ rest)) :
    readHandle? p = some ('!' :: u.takeWhile isNameChar, p.behind ('!' :: u.takeWhile isNameChar)) ∧
      (p.behind ('!' :: u.takeWhile isNameChar)).rest =
        u.drop (u.takeWhile isNameChar).length ++ rest := by
  have taken : (u ++ rest).takeWhile isNameChar = u.takeWhile isNameChar :=
    takeWhile_append_gap u (by decide) (by decide) gap
  have dropped : (u ++ rest).drop (u.takeWhile isNameChar).length =
      u.drop (u.takeWhile isNameChar).length ++ rest :=
    List.drop_append_of_le_length (List.takeWhile_prefix _).length_le
  -- no second bang follows, for there is none in the text
  have no_mark : (u.drop (u.takeWhile isNameChar).length ++ rest).head? ≠ some '!' :=
    head?_append_gap (by decide) (by decide) (by decide)
      (fun d mem => safe d (List.mem_of_mem_drop mem)) gap
  have no_break : ∀ d ∈ '!' :: u.takeWhile isNameChar, isBreak d = false := by
    intro d mem
    rcases List.mem_cons.mp mem with rfl | mem
    · decide
    · exact isBreak_of_isNameChar (List.mem_takeWhile_imp mem)
  have here_split : p.rest = ('!' :: u.takeWhile isNameChar) ++
      (u.drop (u.takeWhile isNameChar).length ++ rest) := by
    rw [here, List.cons_append, ← List.append_assoc, takeWhile_append_drop]
  refine ⟨?_, Place.rest_behind_eq here_split⟩
  have moved := Place.advance_eq_behind no_break here_split
  rw [readHandle?, here]
  simp only [taken, dropped]
  split
  · next h => exact absurd (by rw [h]; rfl) no_mark
  · simpa using moved

/-- What stands behind the mark of a written tag, split where the reader splits it. -/
theorem tagToken?_mark {u : List Char} (safe : ∀ d ∈ u, isTagSafe d = true)
    (gap : rest = [] ∨ StartsGap rest) (here : p.rest = '!' :: (u ++ rest)) :
    tagToken? p =
      (let name := u.takeWhile isNameChar
       let raw := (u.drop name.length).takeWhile (isTagChar false)
       if name.length + raw.length = u.length then
         (unescape? 0 raw).map fun whole => (localTagToken name whole, p.behind ('!' :: u))
       else none) := by
  obtain ⟨handle, here_raw⟩ := readHandle?_mark safe gap here
  -- without a second bang the name is no handle, and goes in front of the suffix
  have open_handle : isClosedHandle ('!' :: u.takeWhile isNameChar) = false :=
    not_isClosedHandle fun d mem => List.mem_takeWhile_imp mem
  have no_angle : (u ++ rest).head? ≠ some '<' :=
    head?_append_gap (by decide) (by decide) (by decide) safe gap
  have u_eq := takeWhile_append_drop isNameChar u
  have raw_eq := takeWhile_append_drop (isTagChar false) (u.drop (u.takeWhile isNameChar).length)
  have raw_safe : ∀ d ∈ u.drop (u.takeWhile isNameChar).length, isTagSafe d = true :=
    fun d mem => safe d (List.mem_of_mem_drop mem)
  have read : readTag? p = (unescape? 0 ((u.drop (u.takeWhile isNameChar).length).takeWhile
      (isTagChar false))).map fun whole => (localTagToken (u.takeWhile isNameChar) whole,
        (p.behind ('!' :: u.takeWhile isNameChar)).advance
          ((u.drop (u.takeWhile isNameChar).length).takeWhile (isTagChar false)).length) := by
    rw [readTag?, here]
    split
    · next h => exact absurd (by rw [(List.cons.inj h).2]; rfl) no_angle
    · rw [handle]
      simp only [open_handle, Bool.false_eq_true, if_false, readTagText?, here_raw, List.drop_one,
        List.tail_cons, takeWhile_append_gap _ (by decide : isTagChar false ' ' = false)
          (by decide : isTagChar false '\n' = false) gap, Option.map_map]
      congr 1
      funext whole
      simp only [Function.comp_apply, localTagToken]
      generalize Text.Utf8.encode (String.ofList (u.takeWhile isNameChar)) ++
        whole.takeWhile (· ≠ 0) = suffix
      cases suffix <;> rfl
  dsimp only
  -- the text is the name, what may stand in a tag behind it, and what is left
  generalize u.takeWhile isNameChar = name at *
  generalize u.drop name.length = later at *
  generalize later.takeWhile (isTagChar false) = raw at *
  generalize later.drop raw.length = left at *
  subst raw_eq u_eq
  have raw_no_break : ∀ d ∈ raw, isBreak d = false :=
    fun d mem => isBreak_of_isTagSafe (raw_safe d (List.mem_append_left left mem))
  have here_rest := here_raw.trans (List.append_assoc raw left rest)
  rw [tagToken?, read, Place.advance_eq_behind raw_no_break here_rest]
  have left_here := Place.rest_behind_eq here_rest
  -- something that is left is no gap, which a tag has to be followed by
  cases left with
  | nil =>
    have closed : atGap rest = true := by
      rcases gap with rfl | gap
      · rfl
      · exact gap.atGap
    have left_here : ((p.behind ('!' :: name)).behind raw).rest = rest := left_here
    simp only [List.append_nil, List.length_append, if_true]
    cases unescape? 0 raw with
    | none => rfl
    | some whole =>
      simp only [Option.map_some, Option.filter, left_here, closed, if_true]
      rw [← Place.behind_append, List.cons_append]
  | cons d left =>
    have d_safe := raw_safe d (by simp)
    have unclosed : atGap (d :: left ++ rest) = false := by
      have no_blank : isBlank d = false := by
        rw [← Bool.not_eq_true]
        intro blank
        simp only [isBlank, Bool.or_eq_true, beq_iff_eq] at blank
        rcases blank with rfl | rfl <;> exact absurd d_safe (by decide)
      simp [atGap, no_blank, isBreak_of_isTagSafe d_safe]
    rw [if_neg (by simp)]
    cases unescape? 0 raw with
    | none => rfl
    | some whole => simp only [Option.map_some, Option.filter, left_here, unclosed, Bool.false_eq_true, if_false]

/-- The mark in full stands for itself. -/
theorem tagToken?_full (gap : rest = [] ∨ StartsGap rest) (here : p.rest = "!<%21>".toList ++ rest) :
    tagToken? p = some (.tag "" [33], p.behind "!<%21>".toList) := by
  have closed : atGap rest = true := by
    rcases gap with rfl | gap
    · rfl
    · exact gap.atGap
  have no_break : ∀ d ∈ "!<%21>".toList, isBreak d = false :=
    forall_mem_of_all (by decide)
  have place := Place.behind_eq_of_no_break no_break here
  -- what is read between the brackets, and what it stands for
  have raw : ('%' :: '2' :: '1' :: '>' :: rest).takeWhile (isTagChar true) = ['%', '2', '1'] := by
    simp [(by decide : isTagChar true '%' = true), (by decide : isTagChar true '2' = true),
      (by decide : isTagChar true '1' = true), (by decide : isTagChar true '>' = false)]
  have opens : isTagChar true '%' = true := by decide
  have text : unescape? 0 ['%', '2', '1'] = some [33] := by decide
  have kept : [(33 : UInt8)].takeWhile (· ≠ 0) = [33] := by decide
  obtain ⟨_, index, line, column⟩ := p
  obtain rfl : _ = '!' :: '<' :: '%' :: '2' :: '1' :: '>' :: rest := here
  rw [place]
  simp only [tagToken?, readTag?, readWrittenTagText?, readTagText?, Place.advance, List.drop_succ_cons,
    List.drop_zero, List.head?_cons, Option.any_some, opens, if_true, raw, text, kept, Option.map_some,
    List.length_cons, List.length_nil, Nat.zero_add, Nat.reduceAdd, beq_self_eq_true, Option.filter, closed]
  rfl

/-- A tag is read as a token wherever it stands, or nowhere. -/
theorem tagToken?_eq {name : String} (gap : StartsGap rest) (here : p.rest = writtenTag name ++ rest) :
    tagToken? p = (tagOf? name).map fun token => (token, p.behind (writtenTag name)) := by
  have alone : (Place.mk (writtenTag name) 0 0 0).rest = writtenTag name ++ [] := by simp
  -- what the tag is read as does not depend on what stands behind it
  rcases writtenTag_cases name with full | ⟨u, written, safe⟩
  · rw [tagOf?]
    rw [full] at here alone ⊢
    rw [tagToken?_full (.inr gap) here, tagToken?_full (.inl rfl) alone]
    rfl
  · rw [tagOf?]
    rw [written] at here alone ⊢
    rw [tagToken?_mark safe (.inr gap) here, tagToken?_mark safe (.inl rfl) alone]
    dsimp only
    split
    · rw [Option.map_map, Option.map_map]
      rfl
    · rfl

/-- The token of a tag has no handle or that of local tags. -/
theorem tagOf?_cases {name : String} {token : Token} (read : tagOf? name = some token) :
    ∃ handle suffix, token = .tag handle suffix ∧ (handle = "" ∨ handle = "!") := by
  have alone : (Place.mk (writtenTag name) 0 0 0).rest = writtenTag name ++ [] := by simp
  -- a bang alone is written in full, and any other tag behind a mark
  rcases writtenTag_cases name with full | ⟨u, written, safe⟩
  · rw [tagOf?] at read
    rw [full] at alone read
    rw [tagToken?_full (.inl rfl) alone] at read
    obtain rfl := Option.some.inj read
    exact ⟨"", [33], rfl, .inl rfl⟩
  · rw [tagOf?] at read
    rw [written] at alone read
    rw [tagToken?_mark safe (.inl rfl) alone] at read
    dsimp only at read
    split at read
    · obtain ⟨pair, found, rfl⟩ := Option.map_eq_some_iff.mp read
      obtain ⟨whole, -, rfl⟩ := Option.map_eq_some_iff.mp found
      simp only [localTagToken]
      split
      · exact ⟨_, _, rfl, .inl rfl⟩
      · exact ⟨_, _, rfl, .inr rfl⟩
    · nomatch read

end DeployManifest.Yaml
