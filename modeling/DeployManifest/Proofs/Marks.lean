import DeployManifest.Yaml.Canonical
import DeployManifest.Proofs.TableLaws

/-!
# Marks

What marking does to a tree is seen on a list, that of the spots where values stand, in the order in which
they are printed (`Value.spots`).  `MarksSpot` says what may happen at one spot, given the anchors that are
defined so far, and `MarksSpots` that this happens at one spot after the other.

Marks are in order if every digest is defined once, before it is referred to, and if what it stands for is
not the value of an entry again (`AreOrdered`); and no entry with a long string goes without a mark unless
its key can be given none.  So they are after marking, if there were no marks before
(`MarksSpots.areOrdered`).

- `IsNoMark`, `reference?_eq_some_iff`, `definition?_eq_some_iff`: what looks like a mark.
- `Spot`, `Value.spots`: the places of a tree where values stand, in the order in which they are printed.
- `MarksSpot`, `MarksSpots`: what marking does at one spot, and at all of them.
- `AreOrdered`: marks that are in order.
-/

namespace DeployManifest

namespace Digest

/-- Digests consist of hexadecimal digits. -/
theorem exists_digitChar_of_mem {text : String} {c : Char} (mem : c ∈ (ofText text).toList) :
    ∃ n < 16, c = Nat.digitChar n := by
  unfold ofText sha256 at mem
  rw [String.toList_ofList] at mem
  obtain ⟨w, -, mem⟩ := List.mem_flatMap.mp mem
  obtain ⟨shift, -, rfl⟩ := List.mem_map.mp mem
  exact ⟨_, Nat.mod_lt _ (by decide), rfl⟩

/-- A digest has 64 of them. -/
theorem length_ofText (text : String) : (ofText text).toList.length = 64 := by
  unfold ofText sha256
  rw [String.toList_ofList]
  simp [wordText]

end Digest

namespace Yaml

/-! ## Marks as texts -/

namespace Anchors

/-- Whether characters are 64 hexadecimal digits. -/
def isDigest (digits : List Char) : Bool :=
  digits.length == 64 && digits.all fun c => "0123456789abcdef".toList.contains c

/-- So a digest looks like one. -/
theorem isDigest_ofText (text : String) : isDigest (Digest.ofText text).toList = true := by
  have digit : ∀ n < 16, "0123456789abcdef".toList.contains (Nat.digitChar n) = true := by decide
  unfold isDigest
  rw [Digest.length_ofText, beq_self_eq_true, Bool.true_and, List.all_eq_true]
  intro c mem
  obtain ⟨n, lt, rfl⟩ := Digest.exists_digitChar_of_mem mem
  exact digit n lt

theorem length_of_isDigest {digits : List Char} (digest : isDigest digits = true) : digits.length = 64 := by
  unfold isDigest at digest
  simp only [Bool.and_eq_true, beq_iff_eq] at digest
  exact digest.1

/-- What is known of a key that may be given an anchor. -/
theorem isAnchorKey_spec {key : String} (isKey : isAnchorKey key = true) :
    (∃ c rest, key.toList = c :: rest ∧ (c.isAlpha = true ∨ c = '_')) ∧
      (∀ c ∈ key.toList, c.isAlphanum = true ∨ c ∈ "_.-/".toList) ∧
      key.utf8ByteSize ≤ maxKeySize ∧ key.toLower ∉ reservedWords := by
  unfold isAnchorKey at isKey
  split at isKey
  · nomatch isKey
  · next c rest chars =>
    simp only [Bool.and_eq_true, List.all_eq_true, Bool.or_eq_true, beq_iff_eq, decide_eq_true_eq,
      Bool.not_eq_true', List.contains_eq_mem, decide_eq_false_iff_not] at isKey
    obtain ⟨⟨⟨first, others⟩, short⟩, no_word⟩ := isKey
    refine ⟨⟨c, rest, chars, first⟩, ?_, short, no_word⟩
    rw [chars]
    refine List.forall_mem_cons.mpr ⟨?_, fun d mem => ?_⟩
    · rcases first with alpha | rfl
      · exact .inl (by simp [Char.isAlphanum, alpha])
      · exact .inr (by decide)
    · rcases others d mem with (((alphanum | rfl) | rfl) | rfl) | rfl
      · exact .inl alphanum
      all_goals exact .inr (by decide)

/-- The digest that a string refers to. -/
def reference? (text : String) : Option String :=
  match text.toList with
  | '*' :: digits => if isDigest digits then some (String.ofList digits) else none
  | _ => none

/-- The name of a key that defines an anchor, and the digest. -/
def definition? (text : String) : Option (String × String) :=
  let size := text.toList.length - 65
  match text.toList.drop size with
  | '=' :: digits =>
    if isDigest digits then some (String.ofList (text.toList.take size), String.ofList digits) else none
  | _ => none

variable {text name digest : String}

/-- A text refers to a digest just if it is an asterisk and the digest. -/
theorem reference?_eq_some_iff :
    reference? text = some digest ↔ text = "*" ++ digest ∧ isDigest digest.toList = true := by
  unfold reference?
  constructor
  · intro refers
    split at refers
    · next digits chars =>
      split at refers
      · next hex =>
        obtain rfl := Option.some.inj refers
        exact ⟨String.ext (by simp [chars]), by simpa using hex⟩
      · cases refers
    · cases refers
  · rintro ⟨rfl, hex⟩
    simp [hex]

/-- A text defines a digest just if it is a name, an equals sign and the digest. -/
theorem definition?_eq_some_iff :
    definition? text = some (name, digest) ↔ text = name ++ "=" ++ digest ∧ isDigest digest.toList = true := by
  unfold definition?
  dsimp only
  constructor
  · intro defines
    split at defines
    · next digits chars =>
      split at defines
      · next hex =>
        obtain ⟨rfl, rfl⟩ := Prod.mk.inj (Option.some.inj defines)
        -- the sign and the digest are the last 65 characters
        have split := List.take_append_drop (text.toList.length - 65) text.toList
        rw [chars] at split
        exact ⟨String.ext (by simp [split]), by simpa using hex⟩
      · cases defines
    · cases defines
  · rintro ⟨rfl, hex⟩
    have chars : (name ++ "=" ++ digest).toList = name.toList ++ '=' :: digest.toList := by simp
    have size : (name.toList ++ '=' :: digest.toList).length - 65 = name.toList.length := by
      simp [length_of_isDigest hex]
    rw [chars, size, List.drop_left, List.take_left]
    simp [hex]

theorem reference?_reference (hex : isDigest digest.toList = true) : reference? ("*" ++ digest) = some digest :=
  reference?_eq_some_iff.mpr ⟨rfl, hex⟩

theorem definition?_definition (name : String) (hex : isDigest digest.toList = true) :
    definition? (name ++ "=" ++ digest) = some (name, digest) :=
  definition?_eq_some_iff.mpr ⟨rfl, hex⟩

end Anchors

namespace Value

open Anchors (digest? isAnchorKey reference? definition?)

/-- Whether a string is no mark. -/
def IsNoMark (s : String) : Prop := reference? s = none ∧ definition? s = none

instance (s : String) : Decidable (IsNoMark s) := inferInstanceAs (Decidable (_ ∧ _))

theorem IsNoMark.ne_definition {s name digest : String} (no_mark : IsNoMark s)
    (hex : Anchors.isDigest digest.toList = true) : s ≠ name ++ "=" ++ digest := by
  rintro rfl
  cases no_mark.2.symm.trans (Anchors.definition?_definition name hex)

/-- What has a digest is a string, and it is the digest of this string. -/
theorem exists_string_of_digest? {v : Value} {digest : String} (long : digest? v = some digest) :
    ∃ text, v = .string text ∧ Digest.ofText text = digest := by
  unfold Anchors.digest? at long
  split at long
  · next text =>
    split at long
    · exact ⟨text, rfl, Option.some.inj long⟩
    · cases long
  · cases long

/-- The digest of a long string is that of its text. -/
theorem digest?_string_eq_some {text digest : String} (long : digest? (.string text) = some digest) :
    Digest.ofText text = digest := by
  obtain ⟨_, same, digest_of⟩ := exists_string_of_digest? long
  obtain rfl := string.inj same
  exact digest_of

theorem isDigest_of_digest? {v : Value} {digest : String} (long : digest? v = some digest) :
    Anchors.isDigest digest.toList = true := by
  obtain ⟨text, -, rfl⟩ := exists_string_of_digest? long
  exact Anchors.isDigest_ofText text

/-! ## Spots -/

/-- The text of a string without tags. -/
def bareText? : Value → Option String
  | .string s => some s
  | _ => none

/-- A value has a text of its own just if it is a string without tags. -/
theorem bareText?_eq_some_iff {v : Value} {s : String} : v.bareText? = some s ↔ v = .string s := by
  cases v <;> simp [bareText?]

/-- A place in a tree where a value stands: the key in front of it, if it is the value of an entry, and
    its text, if it is a string without tags. -/
structure Spot where
  key? : Option Value
  text? : Option String

namespace Spot

/-- The digest that is defined by the key. -/
def defines? (spot : Spot) : Option String :=
  (spot.key?.bind bareText?).bind fun name => (definition? name).map Prod.snd

/-- The digest that the value refers to. -/
def refersTo? (spot : Spot) : Option String := spot.text?.bind reference?

end Spot

mutual

/-- The spots within a value, in the order in which they are printed.  Keys are not looked into. -/
def spotsWithin : Value → List Spot
  | .seq items => spotsOfItems items
  | .map entries => spotsOfEntries entries
  | .tagged _ content => ⟨none, bareText? content⟩ :: spotsWithin content
  | _ => []

/-- The same for the items of a sequence, which have no keys. -/
def spotsOfItems : List Value → List Spot
  | [] => []
  | v :: rest => ⟨none, bareText? v⟩ :: (spotsWithin v ++ spotsOfItems rest)

/-- The same for the entries of a mapping, with their keys. -/
def spotsOfEntries : List (Value × Value) → List Spot
  | [] => []
  | (k, v) :: rest => ⟨some k, bareText? v⟩ :: (spotsWithin v ++ spotsOfEntries rest)

end

/-- All spots of a tree. -/
def spots (v : Value) : List Spot := ⟨none, bareText? v⟩ :: spotsWithin v

/-- Whether marks at some spots are in order. -/
structure AreOrdered (spots : List Spot) : Prop where
  /-- A key that defines a digest stands in front of a string with this digest. -/
  sound : ∀ spot ∈ spots, ∀ digest, spot.defines? = some digest →
    ∃ text, spot.text? = some text ∧ Digest.ofText text = digest
  once : (spots.filterMap Spot.defines?).Nodup
  before : ∀ front spot back digest, spots = front ++ spot :: back → spot.refersTo? = some digest →
    digest ∈ front.filterMap Spot.defines?
  /-- No entry behind the definition of a digest has the same string again. -/
  behind : ∀ front spot back, spots = front ++ spot :: back → spot.defines? ≠ none →
    ∀ other ∈ back, other.key? ≠ none → other.text? ≠ spot.text?
  /-- An entry with a long string refers to it or defines it, unless its key can be given no anchor. -/
  complete : ∀ spot ∈ spots, ∀ key text, spot.key? = some key → spot.text? = some text →
    digest? (.string text) ≠ none →
    spot.refersTo? ≠ none ∨ spot.defines? ≠ none ∨ key.asString?.filter isAnchorKey = none

/-! ## One spot -/

/-- All that marking can do at a spot. -/
inductive MarksSpot (anchors : Anchors) : Spot → Spot → Anchors → Prop where
  | keeps {spot : Spot} (free : ∀ key text digest, spot.key? = some key → spot.text? = some text →
      digest? (.string text) = some digest →
      digest ∉ anchors.keys ∧ key.asString?.filter isAnchorKey = none) :
    MarksSpot anchors spot spot anchors
  | refers {key : Value} {text digest : String} (long : digest? (.string text) = some digest)
    (known : digest ∈ anchors.keys) :
    MarksSpot anchors ⟨some key, some text⟩ ⟨some key, some ("*" ++ digest)⟩ anchors
  | defines {key : Value} {text digest name : String} (long : digest? (.string text) = some digest)
    (fresh : digest ∉ anchors.keys) (named : key.asString? = some name) (isKey : isAnchorKey name = true) :
    MarksSpot anchors ⟨some key, some text⟩ ⟨some (.string (name ++ "=" ++ digest)), some text⟩
      (anchors.insert digest name)

theorem refersTo?_reference {key? : Option Value} {digest : String}
    (hex : Anchors.isDigest digest.toList = true) :
    Spot.refersTo? ⟨key?, some ("*" ++ digest)⟩ = some digest :=
  Anchors.reference?_reference hex

theorem defines?_definition {text? : Option String} {name digest : String}
    (hex : Anchors.isDigest digest.toList = true) :
    Spot.defines? ⟨some (.string (name ++ "=" ++ digest)), text?⟩ = some digest := by
  simp [Spot.defines?, bareText?, Anchors.definition?_definition name hex]

/-- Whether there is no mark at a spot. -/
structure Spot.IsPlain (spot : Spot) : Prop where
  defines_nothing : spot.defines? = none
  refers_to_nothing : spot.refersTo? = none

section

variable {anchors between after : Anchors} {spot marked : Spot} {spots rest others front back : List Spot}
  {text digest : String}

/-- What is defined has not been defined before, and is the digest of the string that is there. -/
theorem MarksSpot.of_defines? (marks : MarksSpot anchors spot marked after) (plain : spot.IsPlain)
    (defines : marked.defines? = some digest) :
    digest ∉ anchors.keys ∧
      ∃ text, spot.text? = some text ∧ marked.text? = some text ∧ digest? (.string text) = some digest := by
  cases marks with
  | keeps | refers => cases plain.defines_nothing.symm.trans defines
  | @defines key text found name long fresh named isKey =>
    obtain rfl := Option.some.inj ((defines?_definition (isDigest_of_digest? long)).symm.trans defines)
    exact ⟨fresh, text, rfl, rfl, long⟩

/-- What is referred to has been defined before. -/
theorem MarksSpot.of_refersTo? (marks : MarksSpot anchors spot marked after) (plain : spot.IsPlain)
    (refers : marked.refersTo? = some digest) : digest ∈ anchors.keys := by
  cases marks with
  | keeps | defines => cases plain.refers_to_nothing.symm.trans refers
  | refers long known =>
    obtain rfl := Option.some.inj ((refersTo?_reference (isDigest_of_digest? long)).symm.trans refers)
    exact known

/-- Behind a spot just those digests are known that were, or that it defines. -/
theorem MarksSpot.mem_keys_iff (marks : MarksSpot anchors spot marked after) (plain : spot.IsPlain) :
    digest ∈ after.keys ↔ digest ∈ anchors.keys ∨ marked.defines? = some digest := by
  cases marks with
  | keeps => simp [plain.defines_nothing]
  | @refers key _ found =>
    have defines_nothing : Spot.defines? ⟨some key, some ("*" ++ found)⟩ = none := plain.defines_nothing
    simp [defines_nothing]
  | defines long =>
    rw [Table.mem_keys_insert, defines?_definition (isDigest_of_digest? long), Option.some.injEq, or_comm]
    exact or_congr_right eq_comm

/-- An entry does not keep a string whose digest has been defined before. -/
theorem MarksSpot.text?_ne (marks : MarksSpot anchors spot marked after)
    (known : digest ∈ anchors.keys) (long : digest? (.string text) = some digest)
    (plain : Anchors.reference? text = none) (entry : marked.key? ≠ none) : marked.text? ≠ some text := by
  intro same
  cases marks with
  | keeps free =>
    obtain ⟨key, here⟩ := Option.ne_none_iff_exists'.mp entry
    exact (free key text digest here same long).1 known
  | @refers _ _ found long_here _ =>
    obtain rfl := Option.some.inj same
    cases plain.symm.trans (Anchors.reference?_reference (isDigest_of_digest? long_here))
  | defines long_here fresh =>
    obtain rfl := Option.some.inj same
    exact fresh (Option.some.inj (long_here.symm.trans long) ▸ known)

/-- An entry with a long string is left alone only if its key can be given no anchor. -/
theorem MarksSpot.complete {key : Value} (marks : MarksSpot anchors spot marked after)
    (entry : marked.key? = some key) (here : marked.text? = some text) (long : digest? (.string text) ≠ none) :
    marked.refersTo? ≠ none ∨ marked.defines? ≠ none ∨ key.asString?.filter isAnchorKey = none := by
  cases marks with
  | keeps free =>
    obtain ⟨digest, long⟩ := Option.ne_none_iff_exists'.mp long
    exact .inr (.inr (free key text digest entry here long).2)
  | refers long_here => exact .inl (by simp [refersTo?_reference (isDigest_of_digest? long_here)])
  | defines long_here => exact .inr (.inl (by simp [defines?_definition (isDigest_of_digest? long_here)]))

/-! ## One spot after the other -/

/-- What marking does at spots in their order. -/
inductive MarksSpots : Anchors → List Spot → List Spot → Anchors → Prop where
  | nil (anchors : Anchors) : MarksSpots anchors [] [] anchors
  | cons {anchors between after : Anchors} {spot marked : Spot} {spots others : List Spot}
    (first : MarksSpot anchors spot marked between) (rest : MarksSpots between spots others after) :
    MarksSpots anchors (spot :: spots) (marked :: others) after

/-- Spots are marked together if they are one after the other. -/
theorem MarksSpots.append {more further : List Spot} (marks : MarksSpots anchors spots others between)
    (later : MarksSpots between more further after) :
    MarksSpots anchors (spots ++ more) (others ++ further) after := by
  induction marks with
  | nil => exact later
  | cons first _ ih => exact .cons first (ih later)

/-- The marked spot in the middle, and what it has been made from. -/
theorem MarksSpots.exists_of_append (marks : MarksSpots anchors spots (front ++ marked :: back) after) :
    ∃ start spot rest before beyond, spots = start ++ spot :: rest ∧ MarksSpots anchors start front before ∧
      MarksSpot before spot marked beyond ∧ MarksSpots beyond rest back after := by
  induction front generalizing anchors spots with
  | nil =>
    cases marks with
    | cons first rest => exact ⟨[], _, _, _, _, rfl, .nil _, first, rest⟩
  | cons _ _ ih =>
    cases marks with
    | cons first others =>
      obtain ⟨start, spot, rest, before, beyond, rfl, earlier, here, later⟩ := ih others
      exact ⟨_ :: start, spot, rest, before, beyond, rfl, .cons first earlier, here, later⟩

/-- The anchors are those that are defined at the spots. -/
theorem MarksSpots.mem_keys_iff (marks : MarksSpots anchors spots others after)
    (plain : ∀ spot ∈ spots, spot.IsPlain) :
    digest ∈ after.keys ↔ digest ∈ anchors.keys ∨ digest ∈ others.filterMap Spot.defines? := by
  induction marks with
  | nil => simp
  | cons first rest ih =>
    obtain ⟨plain_here, plain⟩ := List.forall_mem_cons.mp plain
    rw [ih plain, first.mem_keys_iff plain_here, or_assoc]
    simp [List.mem_filterMap, or_and_right, exists_or]

/-- Where a digest is defined stands a long string with this digest, which was there before. -/
theorem MarksSpots.exists_of_defines? (marks : MarksSpots anchors spots others after)
    (plain : ∀ spot ∈ spots, spot.IsPlain) (mem : marked ∈ others) (defines : marked.defines? = some digest) :
    ∃ text, marked.text? = some text ∧ digest? (.string text) = some digest ∧
      ∃ spot ∈ spots, spot.text? = some text := by
  obtain ⟨front, back, rfl⟩ := List.append_of_mem mem
  obtain ⟨start, spot, rest, before, beyond, rfl, -, here, -⟩ := marks.exists_of_append
  have mem_here : spot ∈ start ++ spot :: rest := by simp
  obtain ⟨-, text, was, is, long⟩ := here.of_defines? (plain spot mem_here) defines
  exact ⟨text, is, long, spot, mem_here, was⟩

/-- What is defined at the spots is defined once, and has not been defined before. -/
theorem MarksSpots.nodup (marks : MarksSpots anchors spots others after)
    (plain : ∀ spot ∈ spots, spot.IsPlain) :
    (others.filterMap Spot.defines?).Nodup ∧
      ∀ digest ∈ others.filterMap Spot.defines?, digest ∉ anchors.keys := by
  induction marks with
  | nil => exact ⟨.nil, nofun⟩
  | @cons anchors between after spot marked spots others first rest ih =>
    obtain ⟨plain_here, plain⟩ := List.forall_mem_cons.mp plain
    obtain ⟨once, fresh⟩ := ih plain
    have keys {digest : String} : digest ∈ between.keys ↔
        digest ∈ anchors.keys ∨ marked.defines? = some digest := first.mem_keys_iff plain_here
    -- anchors stay, so what is new behind this spot was new in front of it
    have fresh_before : ∀ digest ∈ others.filterMap Spot.defines?, digest ∉ anchors.keys :=
      fun digest mem known => fresh digest mem (keys.mpr (.inl known))
    cases defines : marked.defines? with
    | none =>
      rw [List.filterMap_cons_none defines]
      exact ⟨once, fresh_before⟩
    | some digest =>
      rw [List.filterMap_cons_some defines, List.nodup_cons, List.forall_mem_cons]
      have defined_here : digest ∉ others.filterMap Spot.defines? := fun mem =>
        fresh digest mem (keys.mpr (.inr defines))
      exact ⟨⟨defined_here, once⟩, (first.of_defines? plain_here defines).1, fresh_before⟩

/-- Marking puts marks in order. -/
theorem MarksSpots.areOrdered (marks : MarksSpots .empty spots others after)
    (plain : ∀ spot ∈ spots, spot.IsPlain) : AreOrdered others where
  sound spot mem digest defines := by
    obtain ⟨text, is, long, -⟩ := marks.exists_of_defines? plain mem defines
    exact ⟨text, is, digest?_string_eq_some long⟩
  once := (marks.nodup plain).1
  before front marked back digest split refers := by
    subst split
    obtain ⟨start, spot, rest, before, beyond, rfl, earlier, here, -⟩ := marks.exists_of_append
    have known := here.of_refersTo? (plain spot (by simp)) refers
    exact ((earlier.mem_keys_iff fun s mem => plain s (by simp [mem])).mp known).resolve_left nofun
  behind front marked back split defines other mem entry := by
    subst split
    obtain ⟨digest, defines⟩ := Option.ne_none_iff_exists'.mp defines
    obtain ⟨start, spot, rest, before, beyond, rfl, -, here, later⟩ := marks.exists_of_append
    have plain_here := plain spot (by simp)
    obtain ⟨-, text, was, is, long⟩ := here.of_defines? plain_here defines
    have known : digest ∈ beyond.keys := (here.mem_keys_iff plain_here).mpr (.inr defines)
    have unmarked : Anchors.reference? text = none := by
      have nothing := plain_here.refers_to_nothing
      rwa [Spot.refersTo?, was] at nothing
    -- the digest is still known at the other spot, so the string cannot be kept there
    obtain ⟨between, behind, rfl⟩ := List.append_of_mem mem
    obtain ⟨start', spot', rest', before', beyond', rfl, earlier, there, -⟩ := later.exists_of_append
    have known : digest ∈ before'.keys :=
      (earlier.mem_keys_iff fun s mem => plain s (by simp [mem])).mpr (.inl known)
    rw [is]
    exact there.text?_ne known long unmarked entry
  complete marked mem key text entry here long := by
    obtain ⟨front, back, rfl⟩ := List.append_of_mem mem
    obtain ⟨_, _, _, _, _, rfl, -, there, -⟩ := marks.exists_of_append
    exact there.complete entry here long

end

end Value
end Yaml
end DeployManifest
