import DeployManifest.Proofs.LiteralReading
import DeployManifest.Proofs.Pieces
import DeployManifest.Proofs.QuotedReading
import DeployManifest.Yaml.Token.Scan

/-!
# Keys within reach

A key is written on the line of its colon if it has at most `maxKeySize` bytes, and it is read as a key
if the colon follows within `Scanner.maxKeySize` bytes.  Escapes make a key longer in between, but
never by so much that the colon gets out of reach.

- `bytes`: the size of a text.
- `bytes_writtenTag_le` and the bounds in front of it: how much longer texts and tags get when they are
  written.
- `isSimple_of_bareKey?`: so a key that is written on the line of its colon is read as a key.
-/

namespace DeployManifest.Yaml

variable {text : List Char} {c : Char}

theorem bytes_toList (s : String) : bytes s.toList = s.utf8ByteSize := by
  rw [bytes, String.ofList_toList]

/-- If every character becomes at most so many times as many bytes, the whole text does. -/
theorem bytes_flatMap_le {f : Char → List Char} {k : Nat} (le : ∀ c, bytes (f c) ≤ k * c.utf8Size)
    (text : List Char) : bytes (text.flatMap f) ≤ k * bytes text := by
  induction text with
  | nil => simp
  | cons c text ih =>
    rw [List.flatMap_cons, bytes_append, bytes_cons, Nat.mul_add]
    exact Nat.add_le_add (le c) ih

/-- Digits have one byte each. -/
theorem utf8Size_of_digit? (digit : (Plain.digit? c).isSome = true) : c.utf8Size = 1 := by
  rw [Char.utf8Size_eq_one_iff]
  simp only [Plain.digit?, Bool.and_eq_true, decide_eq_true_eq, Char.le_def,
    UInt32.le_iff_toNat_le] at digit
  rw [UInt32.le_iff_toNat_le]
  have a : '9'.val.toNat ≤ (127 : UInt32).toNat := by decide
  have b : 'f'.val.toNat ≤ (127 : UInt32).toNat := by decide
  have d : 'F'.val.toNat ≤ (127 : UInt32).toNat := by decide
  split at digit
  · next range => exact Nat.le_trans range.2 a
  split at digit
  · next range => exact Nat.le_trans range.2 b
  split at digit
  · next range => exact Nat.le_trans range.2 d
  · exact absurd digit (by decide)

/-- So a text of digits has as many bytes as digits. -/
theorem bytes_of_digits (digits : ∀ d ∈ text, (Plain.digit? d).isSome = true) :
    bytes text = text.length := by
  induction text with
  | nil => rfl
  | cons c text ih =>
    rw [bytes_cons, utf8Size_of_digit? (digits c (by simp)), ih fun d mem => digits d (by simp [mem])]
    simp [Nat.add_comm]

theorem bytes_upperHex {width n : Nat} (positive : 0 < width) (fits : n < 16 ^ width) :
    bytes (upperHex width n) = width := by
  rw [bytes_of_digits (digit?_of_nat? (nat?_upperHex width n)), length_upperHex positive fits]

/-- An escape takes at most six times the bytes of its character. -/
theorem bytes_escaped_le (c : Char) : bytes (escaped c) ≤ 6 * c.utf8Size := by
  have positive := c.utf8Size_pos
  unfold escaped
  split
  · rw [bytes_cons, bytes_nil]
    omega
  rw [bytes_cons, show Char.utf8Size '\\' = 1 from rfl]
  split
  all_goals first
    | next => exact Nat.le_trans (by decide : _ ≤ 6 * 1) (Nat.mul_le_mul_left 6 positive)
    | skip
  -- the last case is that of a character without a letter
  split
  · next small =>
    rw [bytes_cons, bytes_upperHex (by decide) (by omega), show Char.utf8Size 'x' = 1 from rfl]
    omega
  split
  · next moderate =>
    rw [bytes_cons, bytes_upperHex (by decide) (by omega), show Char.utf8Size 'u' = 1 from rfl]
    omega
  · next large =>
    have several : c.utf8Size ≠ 1 := by
      rw [ne_eq, Char.utf8Size_eq_one_iff, UInt32.le_iff_toNat_le]
      exact fun least => large (Nat.le_trans least (by decide))
    have fits : c.toNat < 16 ^ 8 := c.val.toNat_lt
    rw [bytes_cons, bytes_upperHex (by decide) fits, show Char.utf8Size 'U' = 1 from rfl]
    omega

/-- Doubling the quotes at most doubles the bytes. -/
theorem bytes_doubled_le (text : List Char) :
    bytes (text.flatMap fun c => if c = '\'' then [c, c] else [c]) ≤ 2 * bytes text := by
  refine bytes_flatMap_le (fun c => ?_) text
  split
  · rw [bytes_cons, bytes_cons, bytes_nil]
    omega
  · rw [bytes_cons, bytes_nil]
    omega

/-- It brings in no line breaks. -/
theorem no_break_doubled (no_break : text.any isBreak = false) :
    ∀ c ∈ text.flatMap fun c => if c = '\'' then [c, c] else [c], isBreak c = false := by
  intro c mem
  obtain ⟨d, mem_text, mem⟩ := List.mem_flatMap.mp mem
  have no_break_d : isBreak d = false := by simpa using List.any_eq_false.mp no_break d mem_text
  split at mem <;> simp_all

/-- Between single quotes on one line nothing but quotes is added. -/
theorem inSingleQuotes_of_no_break {column : Nat} (no_break : text.any isBreak = false) :
    inSingleQuotes column text =
      '\'' :: ((text.flatMap fun c => if c = '\'' then [c, c] else [c]) ++ ['\'']) := by
  have ended : text.getLast?.any isBreak = false := by
    rw [Option.any_eq_false]
    exact fun c mem => by simpa using List.any_eq_false.mp no_break c (List.mem_of_getLast? mem)
  have line : indentLines column false _ = _ := indentLines_no_break (no_break_doubled no_break) []
  rw [indentLines, List.append_nil] at line
  simp [inSingleQuotes, ended, line]

/-- On one line a scalar takes at most six times the bytes of its text, and two quotes. -/
theorem scalarLines_of_no_break (leaf : Leaf) (no_break : leaf.text.toList.any isBreak = false) :
    bytes (scalarLines leaf.style 0 leaf.text.toList) ≤ 6 * leaf.text.utf8ByteSize + 2 ∧
      ∀ c ∈ scalarLines leaf.style 0 leaf.text.toList, isBreak c = false := by
  have size := bytes_toList leaf.text
  -- quotes double the bytes at most, escapes make six of one, and a block would have a break
  rcases leaf.style_cases with ⟨style, -⟩ | ⟨style, -⟩ | ⟨style, -, feed⟩ | style
  · rw [style, show scalarLines .plain 0 leaf.text.toList = leaf.text.toList from rfl]
    exact ⟨by omega, by simpa using no_break⟩
  · have doubled := bytes_doubled_le leaf.text.toList
    rw [style, scalarLines, inSingleQuotes_of_no_break no_break]
    refine ⟨?_, fun c mem => ?_⟩
    · rw [bytes_cons, bytes_append, show Char.utf8Size '\'' = 1 from rfl, show bytes ['\''] = 1 from rfl]
      omega
    · simp only [List.mem_cons, List.mem_append, List.not_mem_nil, or_false] at mem
      rcases mem with rfl | mem | rfl
      · decide
      · exact no_break_doubled no_break c mem
      · decide
  · have breaks : leaf.text.toList.any isBreak = true :=
      List.any_eq_true.mpr ⟨'\n', feed, by decide⟩
    simp [breaks] at no_break
  · have escapes := bytes_flatMap_le bytes_escaped_le leaf.text.toList
    rw [style, show scalarLines .doubleQuoted 0 leaf.text.toList =
      '"' :: (leaf.text.toList.flatMap escaped ++ ['"']) from rfl]
    refine ⟨?_, fun c mem => ?_⟩
    · rw [bytes_cons, bytes_append, show Char.utf8Size '"' = 1 from rfl, show bytes ['"'] = 1 from rfl]
      omega
    · simp only [List.mem_cons, List.mem_append, List.mem_flatMap, List.not_mem_nil, or_false] at mem
      rcases mem with rfl | ⟨d, -, mem⟩ | rfl
      · decide
      · exact (escaped_spec d).no_break c mem
      · decide

theorem length_encode (s : String) : (Text.Utf8.encode s).length = s.utf8ByteSize := rfl

/-- Escaped bytes take three characters each. -/
theorem bytes_escapes (written : Text.Bytes) :
    bytes (written.flatMap fun b => '%' :: upperHex 2 b.toNat) = 3 * written.length := by
  induction written with
  | nil => rfl
  | cons b written ih =>
    rw [List.flatMap_cons, bytes_append, bytes_cons, bytes_upperHex (by decide) b.toNat_lt, ih,
      show Char.utf8Size '%' = 1 from rfl, List.length_cons]
    omega

/-- The name of a tag becomes at most three times as long. -/
theorem bytes_tagName_le (name : List Char) : bytes (tagName name) ≤ 3 * bytes name := by
  refine bytes_flatMap_le (fun c => ?_) name
  split
  · rw [bytes_cons, bytes_nil]
    omega
  · rw [bytes_escapes, length_encode, String.utf8ByteSize_singleton]

/-- So does a whole tag, but for the characters around it. -/
theorem bytes_writtenTag_le (name : String) : bytes (writtenTag name) ≤ 3 * tagSize name + 6 := by
  have size := bytes_toList name
  have counted : name.utf8ByteSize ≤ tagSize name := by
    unfold tagSize
    split <;> omega
  unfold writtenTag
  split
  · next h =>
    have : bytes "!<%21>".toList = 6 := by decide
    omega
  · next rest _ h =>
    have := bytes_tagName_le rest
    rw [h, bytes_cons] at size
    rw [bytes_cons, show Char.utf8Size '!' = 1 from rfl] at *
    omega
  · have := bytes_tagName_le name.toList
    rw [bytes_cons, show Char.utf8Size '!' = 1 from rfl]
    omega

namespace Piece

/-- A key on one line: a scalar without line breaks or an empty collection, perhaps behind a tag. -/
inductive IsSimple : Piece → Option Property → List Char → Prop where
  | scalar (property? : Option Property) (leaf : Leaf)
    (no_break : leaf.text.toList.any isBreak = false) :
    IsSimple (.scalar property? leaf) property? (scalarLines leaf.style 0 leaf.text.toList)
  | seq (property? : Option Property) : IsSimple (.seq property? []) property? ['[', ']']
  | map (property? : Option Property) : IsSimple (.map property? []) property? ['\x7b', '\x7d']

/-- What may be written in front of a colon is one line of limited size. -/
theorem isSimple_of_bareKey? {key : Piece} {text : List Char} {size : Nat}
    (bare : key.bareKey? = some (text, size)) :
    IsSimple key key.property? text ∧ bytes text ≤ 6 * size + 2 := by
  match key, bare with
  | .scalar property? leaf, bare =>
    rw [bareKey?] at bare
    cases no_break : leaf.text.toList.any isBreak with
    | true => simp [no_break] at bare
    | false =>
      simp only [no_break, Bool.false_eq_true, if_false, Leaf.style_oneLine no_break, Option.some.injEq,
        Prod.mk.injEq] at bare
      obtain ⟨rfl, rfl⟩ := bare
      exact ⟨.scalar property? leaf no_break, (scalarLines_of_no_break leaf no_break).1⟩
  | .seq property? [], bare =>
    obtain ⟨rfl, rfl⟩ : ['[', ']'] = text ∧ 0 = size := by simpa [bareKey?] using bare
    exact ⟨.seq property?, by decide⟩
  | .map property? [], bare =>
    obtain ⟨rfl, rfl⟩ : ['\x7b', '\x7d'] = text ∧ 0 = size := by simpa [bareKey?] using bare
    exact ⟨.map property?, by decide⟩

/-- A key that is written on one line is within reach of its colon. -/
theorem isSimple_of_simpleKey? {key : Piece} {text : List Char} (simple : key.simpleKey? = some text) :
    (∃ property? bare, text = lead .start property? ++ bare ∧ IsSimple key property? bare) ∧
      bytes text ≤ Scanner.maxKeySize := by
  rw [simpleKey?] at simple
  obtain ⟨⟨written, size⟩, found, rfl⟩ := Option.map_eq_some_iff.mp simple
  obtain ⟨found, small⟩ := Option.filter_eq_some_iff.mp found
  have small : size ≤ 128 := of_decide_eq_true small
  split at found
  · next none =>
    obtain ⟨is_simple, le⟩ := isSimple_of_bareKey? found
    refine ⟨⟨_, written, ?_, is_simple⟩, ?_⟩
    · rw [none]
      rfl
    · simp only [Scanner.maxKeySize]
      omega
  · next tag some =>
    obtain ⟨⟨bare, bareSize⟩, found_bare, eq⟩ := Option.map_eq_some_iff.mp found
    obtain ⟨rfl, rfl⟩ := Prod.mk.inj eq
    obtain ⟨is_simple, le⟩ := isSimple_of_bareKey? found_bare
    -- escaped, a tag takes up to three times its size, and this still fits
    have tag_le := bytes_writtenTag_le tag
    refine ⟨⟨_, bare, ?_, is_simple⟩, ?_⟩
    · rw [some]
      simp [lead, Behind.gap, Property.text]
    · simp only [Scanner.maxKeySize]
      rw [bytes_append, bytes_cons, show Char.utf8Size ' ' = 1 from rfl]
      omega
  · simp at found

end Piece
end DeployManifest.Yaml
