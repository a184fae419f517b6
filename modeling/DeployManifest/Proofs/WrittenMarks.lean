import DeployManifest.Proofs.AnchorKeys
import DeployManifest.Proofs.TextSearch

/-!
# Marks in a printed tree

The text of a tree with marks consists of parts: marks, and what stands between them.  Every part ends with
a space or a line, and no match of a search for marks reaches over such an end.  So the marks are turned part
by part (`putIn_append`), and each of them as its digest comes up (`Part.written`).  If there is nothing
between the marks that looks like one of them, all that changes is the marks.

Main statement: `putInAll_written`.

- `Part`, `Part.written`: the parts of a text, and what is written of them when some digests have come up.
- `HoldsMark`: texts in which a mark of a digest would be found.
- `EndsWord`, `putIn_append`: the ends that no match reaches over.
- `Turns`: a text without marks, the text with marks, and the text with anchors.
-/

namespace DeployManifest.Yaml.Anchors

variable {digest name : String} {text before after : List Char} {anchors : Anchors} {sign : Char}

/-! ## Signs of marks -/

/-- A sign that is no hexadecimal digit is in no digest. -/
theorem notMem_of_isDigest (hex : isDigest digest.toList = true) (apart : sign ∉ "0123456789abcdef".toList) :
    sign ∉ digest.toList := by
  unfold isDigest at hex
  simp only [Bool.and_eq_true, List.all_eq_true, List.contains_iff_mem] at hex
  exact fun mem => apart (hex.2 sign mem)

theorem notMem_of_isAnchorKey (isKey : isAnchorKey name = true)
    (apart : ¬ (sign.isAlphanum = true ∨ sign ∈ "_.-/".toList)) : sign ∉ name.toList :=
  fun mem => apart ((isAnchorKey_spec isKey).2.1 sign mem)

/-- Whether a text looks like a mark for a digest somewhere. -/
def HoldsMark (digest : String) (text : List Char) : Prop :=
  '*' :: digest.toList <:+: text ∨ '=' :: digest.toList <:+: text

instance (digest : String) (text : List Char) : Decidable (HoldsMark digest text) :=
  inferInstanceAs (Decidable (_ ∨ _))

theorem not_infix_of_notMem {c : Char} {pattern : List Char} (mem : c ∈ pattern) (clean : c ∉ text) :
    ¬ pattern <:+: text := fun within => clean (within.subset mem)

/-- Two digests behind a sign that stands in the text but once are the same. -/
theorem eq_of_mark_within {other : String} (hex : isDigest digest.toList = true) (hex' : isDigest other.toList = true)
    (not_before : sign ∉ before) (not_behind : sign ∉ other.toList ++ after)
    (within : sign :: digest.toList <:+: before ++ sign :: (other.toList ++ after)) : digest = other := by
  obtain ⟨front, back, whole⟩ := within
  rw [List.append_assoc, List.cons_append] at whole
  obtain ⟨-, -, same⟩ := (List.append_cons_inj_of_notMem not_before not_behind).mp whole.symm
  have length : other.toList.length = digest.toList.length := by
    rw [length_of_isDigest hex, length_of_isDigest hex']
  exact String.toList_inj.mp (List.append_inj same length).1.symm

/-! ## Parts -/

/-- Whether a text ends with a word or a line, if there is any text. -/
inductive EndsWord : List Char → Prop where
  | nil : EndsWord []
  | concat (before : List Char) {c : Char} (ends : c = ' ' ∨ isBreak c = true) : EndsWord (before ++ [c])

/-- A part of the text of a tree with marks. -/
inductive Part where
  | plain (text : List Char)
  /-- A reference to a text, which would be written as `gone`. -/
  | reference (gone : List Char) (digest : String)
  /-- The key of an entry whose value gets an anchor, up to the value. -/
  | definition (name digest : String)

namespace Part

/-- A part as it is written without marks. -/
def unmarked : Part → List Char
  | .plain text => text
  | .reference gone _ => gone
  | .definition name _ => name.toList ++ [':', ' ']

/-- A part as it is written when the marks for some digests are turned. -/
def written (turned : List String) : Part → List Char
  | .plain text => text
  | .reference _ digest =>
    if digest ∈ turned then '*' :: digest.toList ++ ['\n'] else '\'' :: '*' :: digest.toList ++ ['\'', '\n']
  | .definition name digest =>
    if digest ∈ turned then name.toList ++ ':' :: ' ' :: '&' :: digest.toList ++ [' ']
    else name.toList ++ '=' :: digest.toList ++ [':', ' ']

/-- Whether the marks in a part are those of some anchors. -/
inductive FitsIn (anchors : Anchors) : Part → Prop where
  | plain {text : List Char} (ends : EndsWord text) : FitsIn anchors (.plain text)
  | reference {gone : List Char} {digest : String} (hex : isDigest digest.toList = true)
    (known : digest ∈ anchors.keys) : FitsIn anchors (.reference gone digest)
  | definition {name digest : String} (hex : isDigest digest.toList = true) (isKey : isAnchorKey name = true)
    (bound : anchors.get? digest = some name) : FitsIn anchors (.definition name digest)

/-- The order in which marks are turned does not matter. -/
theorem written_congr {turned others : List String} (same : ∀ digest, digest ∈ turned ↔ digest ∈ others)
    (part : Part) : part.written turned = part.written others := by
  cases part <;> simp only [written, same]

/-- What is written of a part ends a word. -/
theorem endsWord_written {part : Part} (fits : part.FitsIn anchors) (turned : List String) :
    EndsWord (part.written turned) := by
  -- marks end the line, or are followed by a space
  have line (front : List Char) : EndsWord (front ++ ['\n']) := .concat front (.inr (by decide))
  have word (front : List Char) : EndsWord (front ++ [' ']) := .concat front (.inl rfl)
  cases fits with
  | plain ends => exact ends
  | @reference _ digest =>
    rw [written]
    split
    · exact line ('*' :: digest.toList)
    · simpa using line ('\'' :: '*' :: digest.toList ++ ['\''])
  | @definition name digest =>
    rw [written]
    split
    · exact word _
    · simpa using word (name.toList ++ '=' :: digest.toList ++ [':'])

end Part

/-! ## Turning the marks for one digest -/

/-- What ends with a word or a line is searched on its own. -/
theorem putIn_append (ends : EndsWord before) (after : List Char) (hex : isDigest digest.toList = true)
    (isKey : isAnchorKey name = true) :
    putIn (before ++ after) digest name = putIn before digest name ++ putIn after digest name := by
  cases ends with
  | nil => rfl
  | @concat before c ends =>
    have no_plain : ¬ IsPlainChar c := by
      intro plain
      rcases ends with rfl | breaks
      · exact absurd plain (by decide)
      · rw [isBreak_of_isPlainChar plain] at breaks
        nomatch breaks
    have other {d : Char} (apart : d ≠ ' ' ∧ isBreak d = false) : c ≠ d := by
      rintro rfl
      rcases ends with same | breaks
      · exact apart.1 same
      · exact absurd breaks (by simp [apart.2])
    have no_digit : c ∉ digest.toList := fun mem => no_plain (isPlainChar_of_isDigest hex c mem)
    have no_name : c ∉ name.toList := fun mem => no_plain (isPlainChar_of_isAnchorKey isKey c mem)
    have single : c ∉ '\'' :: '*' :: digest.toList ++ ['\''] := by
      have quote : c ≠ '\'' := other (by decide)
      have star : c ≠ '*' := other (by decide)
      simp [quote, star, no_digit]
    have double : c ∉ '"' :: '*' :: digest.toList ++ ['"'] := by
      have quote : c ≠ '"' := other (by decide)
      have star : c ≠ '*' := other (by decide)
      simp [quote, star, no_digit]
    -- this match may well end with a space
    have mark : c ∉ (name.toList ++ '=' :: digest.toList ++ [':', ' ']).dropLast := by
      have sign : c ≠ '=' := other (by decide)
      have colon : c ≠ ':' := other (by decide)
      rw [List.append_cons, List.dropLast_concat]
      simp [sign, colon, no_digit, no_name]
    unfold putIn
    dsimp only
    rw [← List.append_cons, Text.replaceAll_append_cons (by simp) fun mem => single (List.dropLast_subset _ mem),
      Text.replaceAll_concat (by simp) single, ← List.append_cons,
      Text.replaceAll_append_cons (by simp) fun mem => double (List.dropLast_subset _ mem),
      Text.replaceAll_concat (by simp) double, ← List.append_cons,
      Text.replaceAll_append_cons (by simp) mark]

/-- A text that looks like no mark is left as it is. -/
theorem putIn_eq_self (quiet : ¬ HoldsMark digest text) : putIn text digest name = text := by
  have reference (front back : List Char) : ¬ front ++ '*' :: digest.toList ++ back <:+: text := fun within =>
    quiet (.inl ((List.infix_append _ _ _).trans within))
  have definition (front back : List Char) : ¬ front ++ '=' :: digest.toList ++ back <:+: text := fun within =>
    quiet (.inr ((List.infix_append _ _ _).trans within))
  have single : ¬ '\'' :: '*' :: digest.toList ++ ['\''] <:+: text := reference ['\''] ['\'']
  have double : ¬ '"' :: '*' :: digest.toList ++ ['"'] <:+: text := reference ['"'] ['"']
  have mark : ¬ name.toList ++ '=' :: digest.toList ++ [':', ' '] <:+: text := definition _ _
  unfold putIn
  dsimp only
  rw [Text.replaceAll_eq_self single, Text.replaceAll_eq_self double, Text.replaceAll_eq_self mark]

/-- Quotes and equals signs are not found in a reference that has been turned. -/
theorem not_infix_turned (hex : isDigest digest.toList = true) {pattern : List Char} (mem : sign ∈ pattern)
    (apart : sign ∈ "\x27\x22=".toList) : ¬ pattern <:+: '*' :: digest.toList ++ ['\n'] := by
  have outside : ∀ c ∈ "\x27\x22=".toList, c ∉ "0123456789abcdef".toList ∧ c ≠ '*' ∧ c ≠ '\n' :=
    forall_mem_of_all (by decide)
  obtain ⟨no_hex, no_star, no_feed⟩ := outside sign apart
  exact not_infix_of_notMem mem (by simp [no_star, no_feed, notMem_of_isDigest hex no_hex])

/-- A reference that has been turned is not turned again. -/
theorem putIn_turned (hex : isDigest digest.toList = true) (other name : String) :
    putIn ('*' :: digest.toList ++ ['\n']) other name = '*' :: digest.toList ++ ['\n'] := by
  unfold putIn
  dsimp only
  rw [Text.replaceAll_eq_self (not_infix_turned hex (by simp) (by decide : '\'' ∈ _)),
    Text.replaceAll_eq_self (not_infix_turned hex (by simp) (by decide : '"' ∈ _)),
    Text.replaceAll_eq_self (not_infix_turned hex (by simp) (by decide : '=' ∈ _))]

/-- The quotes around a reference are taken away. -/
theorem putIn_reference (hex : isDigest digest.toList = true) (name : String) :
    putIn ('\'' :: '*' :: digest.toList ++ ['\'', '\n']) digest name = '*' :: digest.toList ++ ['\n'] := by
  have whole : '\'' :: '*' :: digest.toList ++ ['\'', '\n'] =
      ('\'' :: '*' :: digest.toList ++ ['\'']) ++ ['\n'] := by simp
  have feed : ¬ '\'' :: '*' :: digest.toList ++ ['\''] <:+: ['\n'] :=
    not_infix_of_notMem (c := '\'') (by simp) (by decide)
  unfold putIn
  dsimp only
  rw [whole, Text.replaceAll_append (by simp), Text.replaceAll_eq_self feed,
    Text.replaceAll_eq_self (not_infix_turned hex (by simp) (by decide : '"' ∈ _)),
    Text.replaceAll_eq_self (not_infix_turned hex (by simp) (by decide : '=' ∈ _))]

/-- The definition of a digest turns into an anchor. -/
theorem putIn_definition (hex : isDigest digest.toList = true) (isKey : isAnchorKey name = true) :
    putIn (name.toList ++ '=' :: digest.toList ++ [':', ' ']) digest name =
      name.toList ++ ':' :: ' ' :: '&' :: digest.toList ++ [' '] := by
  have no_name : '*' ∉ name.toList := notMem_of_isAnchorKey isKey (by decide)
  have no_digit : '*' ∉ digest.toList := notMem_of_isDigest hex (by decide)
  have no_star : '*' ∉ name.toList ++ '=' :: digest.toList ++ [':', ' '] := by
    simp [no_name, no_digit]
  unfold putIn
  dsimp only
  rw [Text.replaceAll_eq_self (not_infix_of_notMem (by simp) no_star),
    Text.replaceAll_eq_self (not_infix_of_notMem (by simp) no_star), Text.replaceAll_self (by simp)]

/-- A reference to another digest is no mark of this one. -/
theorem not_holdsMark_reference {other : String} (hex : isDigest digest.toList = true)
    (hex' : isDigest other.toList = true) (differ : other ≠ digest) :
    ¬ HoldsMark digest ('\'' :: '*' :: other.toList ++ ['\'', '\n']) := by
  rintro (within | within)
  · have no_star : '*' ∉ other.toList ++ ['\'', '\n'] := by
      simp [notMem_of_isDigest hex' (by decide : '*' ∉ _)]
    have within : '*' :: digest.toList <:+: ['\''] ++ '*' :: (other.toList ++ ['\'', '\n']) := within
    exact differ (eq_of_mark_within hex hex' (by decide) no_star within).symm
  · have no_equals : '=' ∉ '\'' :: '*' :: other.toList ++ ['\'', '\n'] := by
      simp [notMem_of_isDigest hex' (by decide : '=' ∉ _)]
    exact not_infix_of_notMem List.mem_cons_self no_equals within

/-- The definition of another digest is no mark of this one. -/
theorem not_holdsMark_definition {other : String} (hex : isDigest digest.toList = true)
    (hex' : isDigest other.toList = true) (isKey : isAnchorKey name = true) (differ : other ≠ digest) :
    ¬ HoldsMark digest (name.toList ++ '=' :: other.toList ++ [':', ' ']) := by
  rintro (within | within)
  · have no_name : '*' ∉ name.toList := notMem_of_isAnchorKey isKey (by decide)
    have no_star : '*' ∉ name.toList ++ '=' :: other.toList ++ [':', ' '] := by
      simp [no_name, notMem_of_isDigest hex' (by decide : '*' ∉ _)]
    exact not_infix_of_notMem List.mem_cons_self no_star within
  · have no_equals : '=' ∉ other.toList ++ [':', ' '] := by
      simp [notMem_of_isDigest hex' (by decide : '=' ∉ _)]
    rw [List.append_assoc] at within
    exact differ (eq_of_mark_within hex hex' (notMem_of_isAnchorKey isKey (by decide)) no_equals within).symm

/-- An anchor is no mark any more. -/
theorem not_holdsMark_anchor {other : String} (hex' : isDigest other.toList = true)
    (isKey : isAnchorKey name = true) :
    ¬ HoldsMark digest (name.toList ++ ':' :: ' ' :: '&' :: other.toList ++ [' ']) := by
  have clean {sign : Char} (no_name : sign ∉ name.toList) (no_digit : sign ∉ other.toList)
      (apart : sign ≠ ':' ∧ sign ≠ ' ' ∧ sign ≠ '&') :
      sign ∉ name.toList ++ ':' :: ' ' :: '&' :: other.toList ++ [' '] := by
    simp [no_name, no_digit, apart]
  rintro (within | within)
  · exact not_infix_of_notMem List.mem_cons_self
      (clean (notMem_of_isAnchorKey isKey (by decide)) (notMem_of_isDigest hex' (by decide)) (by decide)) within
  · exact not_infix_of_notMem List.mem_cons_self
      (clean (notMem_of_isAnchorKey isKey (by decide)) (notMem_of_isDigest hex' (by decide)) (by decide)) within

/-- A part of which the marks for some digests are turned, with those for another one turned. -/
theorem putIn_written {part : Part} (fits : part.FitsIn anchors) (bound : anchors.get? digest = some name)
    (hex : isDigest digest.toList = true) (isKey : isAnchorKey name = true)
    (quiet : ∀ text, part = .plain text → ¬ HoldsMark digest text) (turned : List String) :
    putIn (part.written turned) digest name = part.written (digest :: turned) := by
  -- a part is turned as its own digest comes up, and stays as it is for all others
  cases fits with
  | plain => exact putIn_eq_self (quiet _ rfl)
  | @reference _ other hex' =>
    rw [Part.written, Part.written]
    by_cases before : other ∈ turned
    · rw [if_pos before, if_pos (List.mem_cons_of_mem digest before)]
      exact putIn_turned hex' digest name
    · rw [if_neg before]
      by_cases here : other = digest
      · rw [here, if_pos List.mem_cons_self]
        exact putIn_reference hex name
      · rw [if_neg (List.not_mem_cons_of_ne_of_not_mem here before)]
        exact putIn_eq_self (not_holdsMark_reference hex hex' here)
  | @definition other_name other hex' isKey' bound' =>
    rw [Part.written, Part.written]
    by_cases before : other ∈ turned
    · rw [if_pos before, if_pos (List.mem_cons_of_mem digest before)]
      exact putIn_eq_self (not_holdsMark_anchor hex' isKey')
    · rw [if_neg before]
      by_cases here : other = digest
      · rw [here] at bound' ⊢
        obtain rfl : other_name = name := Option.some.inj (bound'.symm.trans bound)
        rw [if_pos List.mem_cons_self]
        exact putIn_definition hex isKey
      · rw [if_neg (List.not_mem_cons_of_ne_of_not_mem here before)]
        exact putIn_eq_self (not_holdsMark_definition hex hex' isKey' here)

/-! ## Turning all marks -/

theorem HoldsMark.mono (holds : HoldsMark digest text) (within : text <:+: after) : HoldsMark digest after :=
  holds.imp (·.trans within) (·.trans within)

/-- Whether there are digests and names of keys only in anchors. -/
def AreProper (anchors : Anchors) : Prop :=
  ∀ e ∈ anchors.entries, isDigest e.1.toList = true ∧ isAnchorKey e.2 = true

variable {parts : List Part}

/-- As a digest comes up, its marks are turned and all others stay. -/
theorem putIn_parts (fits : ∀ part ∈ parts, part.FitsIn anchors) (bound : anchors.get? digest = some name)
    (hex : isDigest digest.toList = true) (isKey : isAnchorKey name = true)
    (quiet : ¬ HoldsMark digest (parts.flatMap Part.unmarked)) (turned : List String) :
    putIn (parts.flatMap (Part.written turned)) digest name = parts.flatMap (Part.written (digest :: turned)) := by
  induction parts with
  | nil => rfl
  | cons part rest ih =>
    obtain ⟨first, others⟩ := List.forall_mem_cons.mp fits
    rw [List.flatMap_cons] at quiet
    have quiet_here : ∀ text, part = .plain text → ¬ HoldsMark digest text := by
      rintro text rfl holds
      exact quiet (holds.mono (List.prefix_append _ _).isInfix)
    have quiet_later : ¬ HoldsMark digest (rest.flatMap Part.unmarked) := fun holds =>
      quiet (holds.mono (List.suffix_append _ _).isInfix)
    rw [List.flatMap_cons, List.flatMap_cons, putIn_append (Part.endsWord_written first turned) _ hex isKey,
      putIn_written first bound hex isKey quiet_here, ih others quiet_later]

/-- All marks are turned, and nothing else. -/
theorem putInAll_written (proper : anchors.AreProper) (fits : ∀ part ∈ parts, part.FitsIn anchors)
    (quiet : ∀ digest ∈ anchors.keys, ¬ HoldsMark digest (parts.flatMap Part.unmarked)) :
    anchors.putInAll (String.ofList (parts.flatMap (Part.written []))) =
      String.ofList (parts.flatMap (Part.written anchors.keys)) := by
  -- entry by entry, the digests so far are turned
  have step : ∀ (entries : List (String × String)) (turned : List String), entries <:+ anchors.entries →
      entries.foldl (fun text e => putIn text e.1 e.2) (parts.flatMap (Part.written turned)) =
        parts.flatMap (Part.written ((entries.map (·.1)).reverse ++ turned)) := by
    intro entries
    induction entries with
    | nil => exact fun _ _ => rfl
    | cons e rest ih =>
      intro turned suffix
      have mem : e ∈ anchors.entries := suffix.subset List.mem_cons_self
      obtain ⟨hex, isKey⟩ := proper e mem
      rw [List.foldl_cons, putIn_parts fits (Table.get?_of_mem mem) hex isKey (quiet _ (List.mem_map_of_mem mem)),
        ih (e.1 :: turned) ((List.suffix_cons e rest).trans suffix)]
      simp
  have all := step anchors.entries [] List.suffix_rfl
  unfold putInAll
  rw [String.toList_ofList, all, List.append_nil]
  refine congrArg String.ofList (List.flatMap_congr fun part _ => ?_)
  exact Part.written_congr (fun _ => List.mem_reverse) part

/-! ## Texts with the same parts -/

/-- Whether three texts have the same parts, in the first without marks, in the second with marks and in the
    last with all of them turned. -/
def Turns (anchors : Anchors) (unmarked marked put : List Char) : Prop :=
  ∃ parts : List Part, (∀ part ∈ parts, part.FitsIn anchors) ∧ unmarked = parts.flatMap Part.unmarked ∧
    marked = parts.flatMap (Part.written []) ∧ put = parts.flatMap (Part.written anchors.keys)

namespace Turns

theorem of_part {part : Part} (fits : part.FitsIn anchors) :
    Turns anchors part.unmarked (part.written []) (part.written anchors.keys) :=
  ⟨[part], List.forall_mem_singleton.mpr fits, by simp, by simp, by simp⟩

theorem plain (ends : EndsWord text) : Turns anchors text text text := of_part (.plain ends)

/-- Two texts that are turned are turned together. -/
theorem append {a b c a' b' c' : List Char} (first : Turns anchors a b c) (second : Turns anchors a' b' c') :
    Turns anchors (a ++ a') (b ++ b') (c ++ c') := by
  obtain ⟨parts, fits, rfl, rfl, rfl⟩ := first
  obtain ⟨more, fits', rfl, rfl, rfl⟩ := second
  refine ⟨parts ++ more, fun part mem => ?_, ?_, ?_, ?_⟩
  · exact (List.mem_append.mp mem).elim (fits part) (fits' part)
  all_goals rw [List.flatMap_append]

/-- A reference to a known digest is turned, and there is nothing quoted left of it. -/
theorem reference (hex : isDigest digest.toList = true) (known : digest ∈ anchors.keys) (gone : List Char) :
    Turns anchors gone ('\'' :: '*' :: digest.toList ++ ['\'', '\n']) ('*' :: digest.toList ++ ['\n']) := by
  have fits : Part.FitsIn anchors (.reference gone digest) := .reference hex known
  have turns := of_part fits
  rwa [Part.written, if_neg List.not_mem_nil, Part.written, if_pos known] at turns

/-- A key with the digest that it defines is turned into the key with an anchor. -/
theorem definition (hex : isDigest digest.toList = true) (isKey : isAnchorKey name = true)
    (bound : anchors.get? digest = some name) :
    Turns anchors (name.toList ++ [':', ' ']) (name.toList ++ '=' :: digest.toList ++ [':', ' '])
      (name.toList ++ ':' :: ' ' :: '&' :: digest.toList ++ [' ']) := by
  have known : digest ∈ anchors.keys := List.mem_map_of_mem (Table.mem_entries_of_get? bound)
  have turns := of_part (.definition hex isKey bound)
  rwa [Part.written, if_neg List.not_mem_nil, Part.written, if_pos known] at turns

/-- Turning all marks gives the text with the marks turned, if nothing else looks like one of them. -/
theorem putInAll {unmarked marked put : List Char} (turns : Turns anchors unmarked marked put)
    (proper : anchors.AreProper) (quiet : ∀ digest ∈ anchors.keys, ¬ HoldsMark digest unmarked) :
    anchors.putInAll (String.ofList marked) = String.ofList put := by
  obtain ⟨parts, fits, rfl, rfl, rfl⟩ := turns
  exact putInAll_written proper fits quiet

end Turns

end DeployManifest.Yaml.Anchors
