import Mathlib.Data.List.DropRight
import DeployManifest.Proofs.Addresses
import DeployManifest.Proofs.TextSearch

/-!
# Paths of keys

Every key can be written in a path, however many tildes and slashes it has: a tilde is written `~0` and a
slash `~1` (`escape`).  A step is read by two replacements, one after the other.  The first one turns `~1`
into a slash, and it finds no `~1` but those that a slash was written as, since a `1` behind the tilde of
the text has a zero between (`replaceAll_escape`).  The second one turns `~0` into a tilde
(`replaceAll_escapeTildes`).  The order matters: the other way around `~01` would become a slash.

Behind the escapes a name is a key unless it has another meaning: it is empty, stands for the place behind the
last item or for an index, has an equals sign, or ends with a question mark (`IsKeyName`).

Main statement: `parse_keyPath`.  It rests on `steps?_written`, which is about a single key, and on
`steps?_map_written`, which carries the mark of a key along to all keys behind it.

- `escape`, `unescape_escape`: escapes, and that reading undoes them.
- `Spells`, `index?_eq_some_iff`: the texts that are indices; a sign is allowed, and the number has to fit.
- `IsKeyName`, `IsKeyName.ofText`: the texts that are keys.
- `KeyPart`, `keyPath`, `keySteps`: lists of keys as they are written and as they are read.
-/

namespace DeployManifest.Patch

/-! ## Escapes -/

/-- A character as it is written within a step. -/
def escapeChar (c : Char) : List Char :=
  if c = '~' then ['~', '0'] else if c = '/' then ['~', '1'] else [c]

/-- A text as it is written within a step. -/
def escape (text : List Char) : List Char := text.flatMap escapeChar

/-- A text of which only the tildes are escaped. -/
def escapeTildes (text : List Char) : List Char := text.flatMap fun c => if c = '~' then ['~', '0'] else [c]

section

variable {text : List Char}

theorem escape_append (text more : List Char) : escape (text ++ more) = escape text ++ escape more :=
  List.flatMap_append

/-- No slash is left, so what is escaped stays one step. -/
theorem slash_not_mem_escape (text : List Char) : '/' ∉ escape text := by
  intro mem
  obtain ⟨c, -, written⟩ := List.mem_flatMap.mp mem
  unfold escapeChar at written
  split at written
  · exact absurd written (by decide)
  · split at written
    · exact absurd written (by decide)
    · next other => exact other (List.mem_singleton.mp written).symm

/-- What is escaped is not empty unless the text is. -/
theorem escape_ne_nil (nonempty : text ≠ []) : escape text ≠ [] := by
  obtain ⟨c, rest, rfl⟩ := List.exists_cons_of_ne_nil nonempty
  have written : escapeChar c ≠ [] := by
    unfold escapeChar
    split
    · exact List.cons_ne_nil _ _
    · split <;> exact List.cons_ne_nil _ _
  exact List.append_ne_nil_of_left_ne_nil written _

/-- The first replacement undoes what was done to slashes. -/
theorem replaceAll_escape (text : List Char) :
    Text.replaceAll ['~', '1'] ['/'] (escape text) = escapeTildes text := by
  induction text with
  | nil => rfl
  | cons c rest ih =>
    show Text.replaceAll _ _ (escapeChar c ++ escape rest) =
      (if c = '~' then ['~', '0'] else [c]) ++ escapeTildes rest
    by_cases tilde : c = '~'
    -- the zero behind a tilde keeps it from being taken for an escape
    · subst tilde
      show Text.replaceAll _ _ ('~' :: '0' :: escape rest) = _
      rw [Text.replaceAll_cons (by simp), Text.replaceAll_cons (by simp), ih]
      rfl
    · by_cases slash : c = '/'
      · subst slash
        exact (Text.replaceAll_append (by decide) _).trans (congrArg ('/' :: ·) ih)
      · have plain : escapeChar c = [c] := by rw [escapeChar, if_neg tilde, if_neg slash]
        rw [plain, if_neg tilde, List.singleton_append,
          Text.replaceAll_cons (by simp [Ne.symm tilde]), ih]
        rfl

/-- The second replacement undoes what was done to tildes. -/
theorem replaceAll_escapeTildes (text : List Char) :
    Text.replaceAll ['~', '0'] ['~'] (escapeTildes text) = text := by
  induction text with
  | nil => rfl
  | cons c rest ih =>
    show Text.replaceAll _ _ ((if c = '~' then ['~', '0'] else [c]) ++ escapeTildes rest) = c :: rest
    by_cases tilde : c = '~'
    · rw [if_pos tilde, Text.replaceAll_append (by decide), ih, tilde]
      rfl
    · rw [if_neg tilde, List.singleton_append, Text.replaceAll_cons (by simp [Ne.symm tilde]), ih]

theorem unescape_escape (text : List Char) : Step.unescape (escape text) = text := by
  unfold Step.unescape
  rw [replaceAll_escape, replaceAll_escapeTildes]

end

/-! ## Indices -/

/-- Whether a text is an index: decimal digits, perhaps behind a plus sign, that fit into 64 bits. -/
def Spells (text : List Char) (n : Nat) : Prop :=
  n < UInt64.size ∧ ∃ digits, (text = digits ∨ text = '+' :: digits) ∧ digits ≠ [] ∧
    (∀ c ∈ digits, c.isDigit = true) ∧ Nat.ofDigitChars 10 digits 0 = n

section

variable {text digits : List Char} {value n : Nat}

/-- Letters stand for digits from ten on. -/
theorem natFrom?_ten_cons (value : Nat) (c : Char) (rest : List Char) :
    Yaml.Plain.natFrom? 10 value (c :: rest) =
      if c.isDigit then Yaml.Plain.natFrom? 10 (value * 10 + (c.toNat - 48)) rest else none := by
  have digit_iff : ('0' ≤ c && c ≤ '9') = c.isDigit := rfl
  rw [Yaml.Plain.natFrom?, Yaml.Plain.digit?, digit_iff]
  by_cases digit : c.isDigit = true
  · have small : c.toNat - 48 < 10 := by
      have high : c.toNat ≤ 57 := (Char.isDigit_iff_toNat.mp digit).2
      omega
    simp only [if_pos digit, if_pos small]
  -- letters are digits, too, but not below ten
  · have above : ∀ low high : Char, (low ≤ c && c ≤ high) = true → low.toNat ≤ c.toNat := by
      intro low high within
      exact Char.le_def.mp (of_decide_eq_true (Bool.and_eq_true_iff.mp within).1)
    simp only [if_neg digit]
    split
    · next d letter =>
      have large : ¬ d < 10 := by
        split at letter
        · next within =>
          have low : 97 ≤ c.toNat := above 'a' 'f' within
          cases letter
          omega
        · split at letter
          · next within =>
            have low : 65 ≤ c.toNat := above 'A' 'F' within
            cases letter
            omega
          · nomatch letter
      rw [if_neg large]
    · rfl

/-- Decimal digits are read from the left, each one behind the value of those before. -/
theorem natFrom?_ten_eq_some_iff :
    Yaml.Plain.natFrom? 10 value digits = some n ↔
      (∀ c ∈ digits, c.isDigit = true) ∧ Nat.ofDigitChars 10 digits value = n := by
  induction digits generalizing value with
  | nil => simp [Yaml.Plain.natFrom?, Nat.ofDigitChars]
  | cons c rest ih =>
    rw [natFrom?_ten_cons, List.forall_mem_cons, Nat.ofDigitChars_cons, Nat.mul_comm 10]
    by_cases digit : c.isDigit = true
    · rw [if_pos digit, ih, and_iff_right digit]
      rfl
    · rw [if_neg digit]
      exact ⟨nofun, fun ⟨⟨also, _⟩, _⟩ => absurd also digit⟩

/-- A whole number is read just from a text of digits, of which there is at least one. -/
theorem nat?_ten_eq_some_iff :
    Yaml.Plain.nat? 10 digits = some n ↔
      digits ≠ [] ∧ (∀ c ∈ digits, c.isDigit = true) ∧ Nat.ofDigitChars 10 digits 0 = n := by
  cases digits with
  | nil => exact ⟨nofun, fun ⟨nonempty, _⟩ => absurd rfl nonempty⟩
  | cons c rest => rw [and_iff_right (List.cons_ne_nil c rest), ← natFrom?_ten_eq_some_iff]; rfl

/-- A text is an index just if it spells one. -/
theorem index?_eq_some_iff : Step.index? text = some n ↔ Spells text n := by
  unfold Step.index? Spells
  rw [Option.filter_eq_some_iff, and_comm, decide_eq_true_iff]
  refine and_congr_right fun _ => ?_
  rw [nat?_ten_eq_some_iff]
  constructor
  · rintro ⟨nonempty, digits, value⟩
    refine ⟨_, ?_, nonempty, digits, value⟩
    cases stripped : Text.stripStart? ['+'] text with
    | none => exact .inl rfl
    | some rest => exact .inr (Text.stripStart?_eq_some_iff.mp stripped)
  · rintro ⟨digits, rfl | rfl, nonempty, all, value⟩
    -- digits do not start with a plus sign
    · have no_sign : Text.stripStart? ['+'] text = none := by
        rw [Option.eq_none_iff_forall_ne_some]
        intro rest stripped
        have whole := Text.stripStart?_eq_some_iff.mp stripped
        exact absurd (all '+' (whole ▸ List.mem_cons_self)) (by decide)
      rw [no_sign]
      exact ⟨nonempty, all, value⟩
    · have sign : Text.stripStart? ['+'] ('+' :: digits) = some digits :=
        Text.stripStart?_eq_some_iff.mpr rfl
      rw [sign]
      exact ⟨nonempty, all, value⟩

theorem index?_eq_none_iff : Step.index? text = none ↔ ∀ n, ¬ Spells text n := by
  simp only [← index?_eq_some_iff, Option.eq_none_iff_forall_ne_some, ne_eq]

end

/-! ## Names of keys -/

/-- Whether a text means nothing else in a path than the key of this name. -/
structure IsKeyName (name : List Char) : Prop where
  nonempty : name ≠ []
  not_afterLast : name ≠ ['-']
  not_index : ∀ n, ¬ Spells name n
  no_equals : '=' ∉ name
  unmarked : name.getLast? ≠ some '?'

/-- A key that a path asks for, and whether a question mark is put behind it. -/
structure KeyPart where
  name : String
  isMarked : Bool

/-- A key as it is written between the slashes of a path. -/
def KeyPart.written (key : KeyPart) : List Char :=
  escape key.name.toList ++ if key.isMarked then ['?'] else []

/-- The path that asks for one key after another. -/
def keyPath (keys : List KeyPart) : String :=
  String.ofList ('/' :: ['/'].intercalate (keys.map KeyPart.written))

/-- The steps for keys; `isOptional` tells whether a step in front of them is optional. -/
def keySteps (isOptional : Bool) : List KeyPart → List Step
  | [] => []
  | key :: rest =>
    .key key.name (isOptional || key.isMarked) :: keySteps (isOptional || key.isMarked) rest

section

variable {name : List Char} {key : KeyPart} {keys : List KeyPart} {isOptional : Bool}

instance (name : List Char) : Decidable (IsKeyName name) :=
  decidable_of_iff (name ≠ [] ∧ name ≠ ['-'] ∧ Step.index? name = none ∧ '=' ∉ name ∧ name.getLast? ≠ some '?')
    ⟨fun ⟨nonempty, inside, unindexed, plain, unmarked⟩ =>
        ⟨nonempty, inside, index?_eq_none_iff.mp unindexed, plain, unmarked⟩,
      fun named => ⟨named.nonempty, named.not_afterLast, index?_eq_none_iff.mpr named.not_index,
        named.no_equals, named.unmarked⟩⟩

/-- The name of a key is read as this key. -/
theorem IsKeyName.ofText (named : IsKeyName name) (isOptional : Bool) :
    Step.ofText isOptional name = .key (String.ofList name) isOptional := by
  have unindexed : Step.index? name = none := index?_eq_none_iff.mpr named.not_index
  have no_field : Text.splitOnce? '=' name = none := by
    rw [Option.eq_none_iff_forall_ne_some]
    intro (field, value) found
    obtain ⟨whole, -⟩ := Text.splitOnce?_eq_some_iff.mp found
    exact named.no_equals (whole ▸ List.mem_append_right field List.mem_cons_self)
  rw [Step.ofText, if_neg named.not_afterLast, unindexed]
  dsimp only
  rw [no_field]

/-- The mark of a key is behind its name, and nothing that belongs to the name is taken for a mark. -/
theorem unescape_written (key : KeyPart) :
    Step.unescape key.written = key.name.toList ++ if key.isMarked then ['?'] else [] := by
  have mark : escape (if key.isMarked then ['?'] else []) = if key.isMarked then ['?'] else [] := by
    cases key.isMarked <;> rfl
  rw [KeyPart.written, ← mark, ← escape_append, unescape_escape, mark]

/-- A name without a question mark at its end loses nothing when the marks are taken off. -/
theorem dropEndWhile_of_unmarked (unmarked : name.getLast? ≠ some '?') :
    Text.dropEndWhile (· = '?') name = name := by
  refine List.rdropWhile_eq_self_iff.mpr ?_
  intro nonempty last
  rw [List.getLast?_eq_some_getLast nonempty] at unmarked
  exact unmarked (congrArg some (of_decide_eq_true last))

/-- The mark of a name is taken off, and nothing else. -/
theorem dropEndWhile_marked (unmarked : name.getLast? ≠ some '?') :
    Text.dropEndWhile (· = '?') (name ++ ['?']) = name := by
  have dropped : Text.dropEndWhile (· = '?') (name ++ ['?']) = Text.dropEndWhile (· = '?') name :=
    List.rdropWhile_concat_pos _ name '?' (by decide)
  rw [dropped, dropEndWhile_of_unmarked unmarked]

/-- A key is read as one step, and its mark counts for the steps behind it. -/
theorem steps?_written (named : IsKeyName key.name.toList) (isOptional : Bool) (rest : List (List Char)) :
    Path.steps? isOptional (key.written :: rest) =
      (Path.steps? (isOptional || key.isMarked) rest).map fun steps =>
        .key key.name (isOptional || key.isMarked) :: steps := by
  -- read back, the token is the name, behind which stands the mark if there is one
  have marked : decide ((Step.unescape key.written).getLast? = some '?') = key.isMarked := by
    rw [unescape_written]
    cases key.isMarked with
    | true => simp
    | false => simpa using named.unmarked
  have text : Text.dropEndWhile (· = '?') (Step.unescape key.written) = key.name.toList := by
    rw [unescape_written]
    cases key.isMarked with
    | true => exact dropEndWhile_marked named.unmarked
    | false => simpa using dropEndWhile_of_unmarked named.unmarked
  rw [Path.steps?]
  simp only [marked, text]
  rw [if_neg (by simpa using named.nonempty), named.ofText, String.ofList_toList]

/-- Keys that are written one behind another are read as their steps, each marked from the first mark on. -/
theorem steps?_map_written (named : ∀ key ∈ keys, IsKeyName key.name.toList) (isOptional : Bool) :
    Path.steps? isOptional (keys.map KeyPart.written) = some (keySteps isOptional keys) := by
  induction keys generalizing isOptional with
  | nil => rfl
  | cons key rest ih =>
    have ⟨here, later⟩ := List.forall_mem_cons.mp named
    rw [List.map_cons, steps?_written here, ih later]
    rfl

/-- Each key makes one step. -/
theorem length_keySteps (isOptional : Bool) (keys : List KeyPart) :
    (keySteps isOptional keys).length = keys.length := by
  induction keys generalizing isOptional with
  | nil => rfl
  | cons key rest ih => rw [keySteps, List.length_cons, ih, List.length_cons]

/-- A key is optional if it or one in front of it is marked. -/
theorem getElem?_keySteps (isOptional : Bool) (keys : List KeyPart) (i : Nat) :
    (keySteps isOptional keys)[i]? = keys[i]?.map fun key =>
      .key key.name (isOptional || (keys.take (i + 1)).any KeyPart.isMarked) := by
  induction keys generalizing isOptional i with
  | nil => rfl
  | cons key rest ih =>
    cases i with
    | zero => simp [keySteps]
    | succ i =>
      rw [keySteps, List.getElem?_cons_succ, ih, List.getElem?_cons_succ, List.take_succ_cons,
        List.any_cons, Bool.or_assoc]

/-- Keys lead to the address that is made of them, from wherever they start. -/
theorem resolves_keySteps_iff {earlier : Bool} {node? : Option Yaml.Value} {address : Address} :
    Resolves earlier (keySteps isOptional keys) node? address ↔
      address = keys.map fun key => .key (.string key.name) := by
  induction keys generalizing isOptional earlier node? address with
  | nil =>
    constructor
    · intro resolves
      cases resolves
      rfl
    · rintro rfl
      exact .here _ _
  | cons key rest ih =>
    constructor
    · intro resolves
      cases resolves with
      | step takes later =>
        cases takes
        rw [ih.mp later]
        rfl
    · rintro rfl
      exact .step (.key _ _) (ih.mpr rfl)

/-- A key is written without slashes. -/
theorem slash_not_mem_written (key : KeyPart) : '/' ∉ key.written := by
  intro mem
  rcases List.mem_append.mp mem with in_name | in_mark
  · exact slash_not_mem_escape _ in_name
  · revert in_mark
    cases key.isMarked <;> decide

/-- The path of a list of keys is read as the steps of these keys. -/
theorem parse_keys (named : ∀ key ∈ keys, IsKeyName key.name.toList) :
    Path.parse (keyPath keys) = .ok ⟨keyPath keys, keySteps false keys⟩ := by
  cases keys with
  | nil => rfl
  | cons first rest =>
    have clean : ∀ part ∈ (first :: rest).map KeyPart.written, '/' ∉ part := by
      intro part mem
      obtain ⟨key, -, rfl⟩ := List.mem_map.mp mem
      exact slash_not_mem_written key
    have parts : Text.splitAt '/' (['/'].intercalate ((first :: rest).map KeyPart.written)) =
        (first :: rest).map KeyPart.written := Text.splitAt_intercalate (List.cons_ne_nil _ _) clean
    have read := steps?_map_written named false
    -- behind the first slash there is something, so the path is not the one of no keys
    have more : ['/'].intercalate ((first :: rest).map KeyPart.written) ≠ [] := by
      have filled : first.written ≠ [] :=
        List.append_ne_nil_of_left_ne_nil (escape_ne_nil (named first List.mem_cons_self).nonempty) _
      rw [List.map_cons, Text.intercalate_cons]
      exact List.append_ne_nil_of_left_ne_nil filled _
    unfold Path.parse
    rw [keyPath, String.toList_ofList]
    split
    · next alone => exact absurd (List.cons.inj alone).2 more
    · next behind _ whole =>
      obtain ⟨-, rfl⟩ := List.cons.inj whole
      rw [parts, read]
    · next other => exact absurd rfl (other _)

end

/-- Every list of names of keys, each with or without a mark, has a path that is read as just these keys, in
    this order; a key is optional if it or one in front of it is marked.  The path leads to the address that
    is made of the names.  That of no names is a single slash, and stands for the whole tree. -/
theorem parse_keyPath (keys : List KeyPart) (named : ∀ key ∈ keys, IsKeyName key.name.toList) :
    (∃ path, Path.parse (keyPath keys) = .ok path ∧ path.text = keyPath keys ∧
      path.steps.length = keys.length ∧
      (∀ i key, keys[i]? = some key →
        path.steps[i]? = some (Step.key key.name ((keys.take (i + 1)).any KeyPart.isMarked))) ∧
      ∀ node? address, Resolves false path.steps node? address ↔
        address = keys.map fun key => Branch.key (.string key.name)) ∧
    keyPath [] = "/" ∧
    ∀ value tree, ∃ path, Path.parse "/" = .ok path ∧
      Operation.apply ⟨.replace value, path⟩ tree = (value, none) := by
  refine ⟨⟨_, parse_keys named, rfl, length_keySteps false keys, ?_, ?_⟩, rfl, ?_⟩
  · intro i key here
    show (keySteps false keys)[i]? = _
    rw [getElem?_keySteps, here]
    simp
  · intro node? address
    exact resolves_keySteps_iff
  · intro value tree
    exact ⟨⟨"/", []⟩, rfl, rfl⟩

/-- Names that look like escapes, have a question mark within, and are digits of too large a number. -/
def trickyKeys : List KeyPart := [⟨"a~1/b", false⟩, ⟨"why?~0", true⟩, ⟨"18446744073709551616", false⟩]

theorem isKeyName_tricky : ∀ key ∈ trickyKeys, IsKeyName key.name.toList := by decide +kernel

/-- A path of such keys: the first one has no mark, and the second one marks the third. -/
theorem parse_keyPath_tricky :
    (∀ key ∈ trickyKeys, IsKeyName key.name.toList) ∧
    ∃ path, Path.parse "/a~01~1b/why?~00?/18446744073709551616" = .ok path ∧ path.steps.length = 3 ∧
      path.steps[0]? = some (Step.key "a~1/b" false) ∧
      path.steps[1]? = some (Step.key "why?~0" true) ∧
      path.steps[2]? = some (Step.key "18446744073709551616" true) := by
  have written : keyPath trickyKeys = "/a~01~1b/why?~00?/18446744073709551616" := by decide +kernel
  obtain ⟨⟨path, read, -, length, steps, -⟩, -, -⟩ := parse_keyPath trickyKeys isKeyName_tricky
  rw [written] at read
  exact ⟨isKeyName_tricky, path, read, length, steps 0 _ rfl, steps 1 _ rfl, steps 2 _ rfl⟩

end DeployManifest.Patch
