import DeployManifest.Variables.SecretName
import DeployManifest.Proofs.DomainNames
import DeployManifest.Proofs.Marks
import DeployManifest.Proofs.Places

/-!
# What names secrets can have

The name of a secret has to be a domain name with lower case letters, since that is what an object of the cluster
can be called.  The name that is made for a variable has the right characters, the right ends and the right size
(`IsInBounds`), but dots are left as they are, and so it can have empty labels and labels with dashes at their ends:
the name for `a..b` is no domain name (`not_forall_isDomainName_ofVariable`).

A name is shortened by cutting bytes off.  `ofTextByBytes?` measures and cuts in bytes, and has no answer where a cut
is out of bounds or splits a character; it always has one, the same as `ofText`.

Main statement: `isInBounds_and_isDomainName_iff`.  The name for a variable is a domain name just if each dot that is
kept stands between letters or digits.

- `IsInBounds`: the right characters, the right ends and the right size.
- `ofTextByBytes?`, `ofTextByBytes?_eq_some`: the name cut in bytes, which is the one cut in characters.
- `kept`, `suffix`, `ofText_eq`: what is kept of a name and what is put behind it.
-/

namespace DeployManifest.SecretName

open Yaml (bytes bytes_append bytes_cons)

variable {text front : List Char} {c : Char} {n : Nat}

/-! ## Characters -/

theorem toLower_of_not_isUpper (lower : c.isUpper = false) : c.toLower = c := by
  unfold Char.toLower
  rw [dif_neg]
  simpa [Char.isUpper] using lower

/-- The lower case letters stand 32 places behind the upper case ones. -/
theorem isLetterOrDigit_toLower_of_isUpper (upper : c.isUpper = true) : isLetterOrDigit c.toLower = true := by
  have range : c.val ≥ 'A'.val ∧ c.val ≤ 'Z'.val := by
    simpa [Char.isUpper] using upper
  -- the sum does not overflow
  have value : c.toLower.val.toNat = c.val.toNat + 32 := by
    have below := UInt32.le_iff_toNat_le.mp range.2
    have Z : 'Z'.val.toNat = 90 := rfl
    have step : ('a'.val - 'A'.val).toNat = 32 := rfl
    unfold Char.toLower
    rw [dif_pos range]
    change (c.val + ('a'.val - 'A'.val)).toNat = _
    rw [UInt32.toNat_add, step, Nat.mod_eq_of_lt (by omega)]
  simp only [isLetterOrDigit, Bool.or_eq_true, Bool.and_eq_true, decide_eq_true_eq, Char.le_def,
    UInt32.le_iff_toNat_le, value, ge_iff_le] at range ⊢
  have A : 'A'.val.toNat = 65 := rfl
  have Z : 'Z'.val.toNat = 90 := rfl
  have a : 'a'.val.toNat = 97 := rfl
  have z : 'z'.val.toNat = 122 := rfl
  omega

/-- In lower case, letters and digits are the letters and digits of names. -/
theorem isLetterOrDigit_toLower (c : Char) : isLetterOrDigit c.toLower = c.isAlphanum := by
  rw [Char.isAlphanum, Char.isAlpha]
  cases upper : c.isUpper with
  | true => exact isLetterOrDigit_toLower_of_isUpper upper
  | false =>
    rw [toLower_of_not_isUpper upper]
    rfl

/-- Letters and digits stay such, and nothing else becomes one. -/
theorem isLetterOrDigit_clean (c : Char) : isLetterOrDigit (clean c) = c.isAlphanum := by
  rw [← isLetterOrDigit_toLower]
  unfold clean
  dsimp only
  split
  · rfl
  · next other =>
    simp only [Bool.or_eq_true, not_or, Bool.not_eq_true] at other
    rw [other.1.1]
    decide

/-- Cleaning gives characters that names may have. -/
theorem isNameChar_clean (c : Char) : IsNameChar isLetterOrDigit (clean c) := by
  unfold clean
  dsimp only
  split
  · next allowed =>
    simpa [IsNameChar, or_assoc] using allowed
  · exact .inr (.inl rfl)

/-- Dots are left as they are. -/
theorem clean_eq_dot_iff : clean c = '.' ↔ c = '.' := by
  constructor
  · intro dot
    have other : c.isAlphanum = false := by
      rw [← isLetterOrDigit_clean, dot]
      decide
    have lower : c.isUpper = false := by
      simp only [Char.isAlphanum, Char.isAlpha, Bool.or_eq_false_iff] at other
      exact other.1.1
    unfold clean at dot
    rw [toLower_of_not_isUpper lower] at dot
    dsimp only at dot
    split at dot
    · exact dot
    · exact absurd dot (by decide)
  · rintro rfl
    decide

/-- The characters of a name take one byte each. -/
theorem utf8Size_of_isNameChar (allowed : IsNameChar isLetterOrDigit c) : c.utf8Size = 1 := by
  rcases allowed with word | rfl | rfl
  · rw [Char.utf8Size_eq_one_iff, UInt32.le_iff_toNat_le]
    simp only [isLetterOrDigit, Bool.or_eq_true, Bool.and_eq_true, decide_eq_true_eq, Char.le_def,
      UInt32.le_iff_toNat_le] at word
    have z : 'z'.val.toNat = 0x7A := rfl
    have nine : '9'.val.toNat = 0x39 := rfl
    have most : (127 : UInt32).toNat = 127 := rfl
    omega
  · decide
  · decide

/-- Such a text has a byte for each character. -/
theorem bytes_eq_length (allowed : ∀ c ∈ text, IsNameChar isLetterOrDigit c) :
    bytes text = text.length := by
  induction text with
  | nil => rfl
  | cons c text ih =>
    obtain ⟨first, rest⟩ := List.forall_mem_cons.mp allowed
    rw [bytes_cons, utf8Size_of_isNameChar first, ih rest, List.length_cons, Nat.add_comm]

/-! ## Cuts at bytes -/

/-- So many bytes of the front of a text, if it has as many and no character is split. -/
def firstBytes? : Nat → List Char → Option (List Char)
  | 0, _ => some []
  | _ + 1, [] => none
  | n + 1, c :: rest =>
    if c.utf8Size ≤ n + 1 then (firstBytes? (n + 1 - c.utf8Size) rest).map (c :: ·) else none

/-- Only the empty text has no bytes. -/
theorem bytes_eq_zero_iff : bytes text = 0 ↔ text = [] := by
  constructor
  · intro blank
    cases text with
    | nil => rfl
    | cons c rest =>
      have := Char.utf8Size_pos c
      rw [bytes_cons] at blank
      omega
  · rintro rfl
    rfl

/-- What is cut off is the one piece of the text in front that has so many bytes. -/
theorem firstBytes?_eq_some_iff : firstBytes? n text = some front ↔ front <+: text ∧ bytes front = n := by
  induction text generalizing n front with
  | nil =>
    rw [List.prefix_nil]
    cases n with
    | zero =>
      simp only [firstBytes?, Option.some.injEq, bytes_eq_zero_iff, and_self]
      exact eq_comm
    | succ n =>
      simp only [firstBytes?, reduceCtorEq, false_iff, not_and]
      rintro rfl
      exact (Nat.succ_ne_zero n).symm
  | cons c rest ih =>
    cases n with
    | zero =>
      simp only [firstBytes?, Option.some.injEq, bytes_eq_zero_iff]
      exact ⟨fun blank => ⟨blank ▸ List.nil_prefix, blank.symm⟩, fun blank => blank.2.symm⟩
    | succ n =>
      -- a character is taken if all of its bytes are asked for
      unfold firstBytes?
      constructor
      · intro found
        split at found
        · obtain ⟨behind, cut, rfl⟩ := Option.map_eq_some_iff.mp found
          obtain ⟨start, size⟩ := ih.mp cut
          refine ⟨List.cons_prefix_cons.mpr ⟨rfl, start⟩, ?_⟩
          rw [bytes_cons]
          omega
        · nomatch found
      · rintro ⟨start, size⟩
        cases front with
        | nil => nomatch size
        | cons d behind =>
          obtain ⟨rfl, continues⟩ := List.cons_prefix_cons.mp start
          rw [bytes_cons] at size
          have left : bytes behind = n + 1 - d.utf8Size := by omega
          rw [if_pos (by omega), ih.mpr ⟨continues, left⟩]
          rfl

/-- Among characters of one byte each a cut at bytes is a cut at characters. -/
theorem firstBytes?_eq_take (allowed : ∀ c ∈ text, IsNameChar isLetterOrDigit c)
    (long : n ≤ text.length) : firstBytes? n text = some (text.take n) := by
  refine firstBytes?_eq_some_iff.mpr ⟨List.take_prefix n text, ?_⟩
  rw [bytes_eq_length fun c mem => allowed c (List.mem_of_mem_take mem), List.length_take_of_le long]

/-- The name for a text, with all lengths in bytes and all cuts at bytes. -/
def ofTextByBytes? (text : List Char) : Option (List Char) := do
  let name := trim (text.map clean)
  if bytes name ≤ maxLength then return name
  let front ← firstBytes? (maxLength - digestLength - 1) name
  let digits ← firstBytes? digestLength (Digest.ofText (String.ofList text)).toList
  return trimEnd front ++ '-' :: digits

theorem mem_of_mem_trimEnd (mem : c ∈ trimEnd text) : c ∈ text := by
  unfold trimEnd Text.dropEndWhile at mem
  exact List.mem_reverse.mp ((List.dropWhile_sublist _).subset (List.mem_reverse.mp mem))

theorem mem_of_mem_trim (mem : c ∈ trim text) : c ∈ text :=
  (List.dropWhile_sublist _).subset (mem_of_mem_trimEnd mem)

theorem isNameChar_of_mem_trim (mem : c ∈ trim (text.map clean)) : IsNameChar isLetterOrDigit c := by
  obtain ⟨d, -, rfl⟩ := List.mem_map.mp (mem_of_mem_trim mem)
  exact isNameChar_clean d

/-- And so do digests. -/
theorem isLetterOrDigit_of_mem_digest (mem : c ∈ (Digest.ofText (String.ofList text)).toList) :
    isLetterOrDigit c = true := by
  have digit : ∀ n < 16, isLetterOrDigit (Nat.digitChar n) = true := by decide
  obtain ⟨n, lt, rfl⟩ := Digest.exists_digitChar_of_mem mem
  exact digit n lt

/-- No cut is out of bounds, and none splits a character. -/
theorem ofTextByBytes?_eq_some (text : List Char) : ofTextByBytes? text = some (ofText text) := by
  unfold ofTextByBytes? ofText
  dsimp only
  rw [bytes_eq_length fun c => isNameChar_of_mem_trim]
  split
  · rfl
  · next long =>
    have front : firstBytes? (maxLength - digestLength - 1) (trim (text.map clean)) = some _ :=
      firstBytes?_eq_take (fun c => isNameChar_of_mem_trim) (by omega)
    have digits : firstBytes? digestLength (Digest.ofText (String.ofList text)).toList = some _ :=
      firstBytes?_eq_take (fun c mem => .inl (isLetterOrDigit_of_mem_digest mem)) (by rw [Digest.length_ofText]; decide)
    rw [front, digits]
    rfl

/-! ## What is kept of a text -/

/-- Whether the name for a text is shortened. -/
def isShortened (text : List Char) : Bool := maxLength < (trim (text.map clean)).length

/-- The characters of a text that are kept in its name, up to the last letter or digit among them. -/
def kept (text : List Char) : List Char :=
  Text.dropEndWhile (fun c => !c.isAlphanum)
    (if isShortened text then text.take (maxLength - digestLength - 1) else text)

/-- What stands behind them: the first digits of a digest, in a shortened name. -/
def suffix (text : List Char) : List Char :=
  if isShortened text then '-' :: (Digest.ofText (String.ofList text)).toList.take digestLength else []

/-- Cleaning may be done before or behind the trimming of the end. -/
theorem trimEnd_map_clean (text : List Char) :
    trimEnd (text.map clean) = (Text.dropEndWhile (fun c => !c.isAlphanum) text).map clean := by
  have same : (fun c => !isLetterOrDigit c) ∘ clean = fun c => !c.isAlphanum := by
    funext c
    rw [Function.comp_apply, isLetterOrDigit_clean]
  unfold trimEnd Text.dropEndWhile
  rw [← List.map_reverse, List.dropWhile_map, same, List.map_reverse]

/-- What is dropped at the end of a text satisfies the predicate. -/
theorem exists_append_dropEndWhile (p : Char → Bool) (text : List Char) :
    ∃ dropped, text = Text.dropEndWhile p text ++ dropped ∧ ∀ c ∈ dropped, p c = true := by
  refine ⟨(text.reverse.takeWhile p).reverse, ?_, fun c mem => List.mem_takeWhile_imp (List.mem_reverse.mp mem)⟩
  unfold Text.dropEndWhile
  rw [← List.reverse_append, List.takeWhile_append_dropWhile, List.reverse_reverse]

/-- Where a text starts with a letter or digit there is nothing to trim in front. -/
theorem trim_eq_trimEnd (starts : StartsIn isLetterOrDigit text) : trim text = trimEnd text := by
  obtain ⟨c, head, word⟩ := starts
  obtain ⟨rest, rfl⟩ := List.head?_eq_some_iff.mp head
  unfold trim
  rw [List.dropWhile_cons_of_neg (by simp [word])]

/-- A name is what is kept of its text, cleaned, with the suffix behind it. -/
theorem ofText_eq (starts : StartsIn Char.isAlphanum text) : ofText text = (kept text).map clean ++ suffix text := by
  have trimmed := trim_eq_trimEnd ((startsIn_map_iff isLetterOrDigit_clean).mpr starts)
  obtain ⟨dropped, whole, -⟩ := exists_append_dropEndWhile (fun c => !isLetterOrDigit c) (text.map clean)
  change text.map clean = trimEnd (text.map clean) ++ dropped at whole
  unfold ofText kept suffix
  dsimp only
  cases shortened : isShortened text with
  | true =>
    have long : maxLength < (trim (text.map clean)).length := of_decide_eq_true shortened
    -- what was trimmed stands behind the cut, so the cut can be made on the text itself
    have cut : (trim (text.map clean)).take (maxLength - digestLength - 1) =
        (text.take (maxLength - digestLength - 1)).map clean := by
      rw [trimmed] at long ⊢
      calc (trimEnd (text.map clean)).take (maxLength - digestLength - 1)
        _ = (trimEnd (text.map clean) ++ dropped).take (maxLength - digestLength - 1) :=
          (List.take_append_of_le_length (by omega)).symm
        _ = (text.take (maxLength - digestLength - 1)).map clean := by rw [← whole, List.map_take]
    rw [if_neg (by omega), if_pos rfl, if_pos rfl, cut, trimEnd_map_clean]
  | false =>
    have short : ¬ maxLength < (trim (text.map clean)).length := of_decide_eq_false shortened
    rw [if_pos (by omega), if_neg Bool.false_ne_true, if_neg Bool.false_ne_true, trimmed, trimEnd_map_clean,
      List.append_nil]

/-- What holds of the names of all secrets: the right characters, at both ends letters or digits, and no more bytes
than there may be. -/
structure IsInBounds (name : List Char) : Prop where
  size : bytes name ≤ maxLength
  chars : ∀ c ∈ name, IsNameChar isLetterOrDigit c
  starts : StartsIn isLetterOrDigit name
  ends : EndsIn isLetterOrDigit name

/-- The front of a text starts as the text does. -/
theorem startsIn_take (starts : StartsIn Char.isAlphanum text) (positive : 0 < n) :
    StartsIn Char.isAlphanum (text.take n) := by
  obtain ⟨c, head, word⟩ := starts
  refine ⟨c, ?_, word⟩
  rwa [List.head?_take, if_neg (by omega)]

/-- The first letter or digit is never dropped, so that there is one at the end as well. -/
theorem startsIn_and_endsIn_dropEndWhile (starts : StartsIn Char.isAlphanum text) :
    StartsIn Char.isAlphanum (Text.dropEndWhile (fun c => !c.isAlphanum) text) ∧
      EndsIn Char.isAlphanum (Text.dropEndWhile (fun c => !c.isAlphanum) text) := by
  obtain ⟨dropped, whole, low⟩ := exists_append_dropEndWhile (fun c => !c.isAlphanum) text
  have filled : Text.dropEndWhile (fun c => !c.isAlphanum) text ≠ [] := by
    intro blank
    obtain ⟨c, head, word⟩ := starts
    rw [blank, List.nil_append] at whole
    have dropped_mem := low c (whole ▸ List.mem_of_mem_head? head)
    simp [word] at dropped_mem
  refine ⟨StartsIn.of_append (whole ▸ starts) filled, ?_⟩
  have last := List.head?_dropWhile_not (fun c => !c.isAlphanum) text.reverse
  unfold Text.dropEndWhile at filled ⊢
  obtain ⟨c, rest, split⟩ := List.exists_cons_of_ne_nil (List.reverse_ne_nil_iff.mp filled)
  rw [split] at last ⊢
  refine ⟨c, by simp, ?_⟩
  simpa using last

/-- What is kept of a name has the right ends. -/
theorem startsIn_and_endsIn_kept (starts : StartsIn Char.isAlphanum text) :
    StartsIn Char.isAlphanum (kept text) ∧ EndsIn Char.isAlphanum (kept text) := by
  unfold kept
  split
  · exact startsIn_and_endsIn_dropEndWhile (startsIn_take starts (by decide))
  · exact startsIn_and_endsIn_dropEndWhile starts

/-- What is put behind a shortened name consists of letters, digits and a dash. -/
theorem of_mem_suffix (mem : c ∈ suffix text) : isLetterOrDigit c = true ∨ c = '-' := by
  unfold suffix at mem
  split at mem
  · rcases List.mem_cons.mp mem with dash | mem
    · exact .inr dash
    · exact .inl (isLetterOrDigit_of_mem_digest (List.mem_of_mem_take mem))
  · nomatch mem

/-- So it has no dots. -/
theorem dot_not_mem_suffix : '.' ∉ suffix text := by
  intro mem
  rcases of_mem_suffix mem with word | dash
  · exact absurd word (by decide)
  · exact absurd dash (by decide)

/-- It is empty, or ends with a letter or digit. -/
theorem eq_nil_or_endsIn_suffix (text : List Char) : suffix text = [] ∨ EndsIn isLetterOrDigit (suffix text) := by
  unfold suffix
  split
  · have digits : (Digest.ofText (String.ofList text)).toList.take digestLength ≠ [] := by
      rw [← List.length_pos_iff, List.length_take, Digest.length_ofText]
      decide
    obtain ⟨front, last, split⟩ := List.eq_nil_or_concat _ |>.resolve_left digits
    have last_mem : last ∈ (Digest.ofText (String.ofList text)).toList.take digestLength := by
      rw [split]
      simp
    have ends : EndsIn isLetterOrDigit ((Digest.ofText (String.ofList text)).toList.take digestLength) :=
      ⟨last, by simp [split], isLetterOrDigit_of_mem_digest (List.mem_of_mem_take last_mem)⟩
    exact .inr (ends.cons '-')
  · exact .inl rfl

/-- A name is never longer than it may be. -/
theorem length_ofText_le (text : List Char) : (ofText text).length ≤ maxLength := by
  unfold ofText
  dsimp only
  split
  · assumption
  · obtain ⟨dropped, whole, -⟩ := exists_append_dropEndWhile (fun c => !isLetterOrDigit c)
      ((trim (text.map clean)).take (maxLength - digestLength - 1))
    have cut := congrArg List.length whole
    change _ = (trimEnd _ ++ dropped).length at cut
    rw [List.length_append] at cut ⊢
    have front := List.length_take_le (maxLength - digestLength - 1) (trim (text.map clean))
    have digits := List.length_take_le digestLength (Digest.ofText (String.ofList text)).toList
    -- room is left for the digest and the dash in front of it
    have room : maxLength - digestLength - 1 + (digestLength + 1) = maxLength := rfl
    rw [List.length_cons]
    omega

/-- A name made from a text that starts with a letter or digit has the right characters, ends and size. -/
theorem isInBounds_ofText (starts : StartsIn Char.isAlphanum text) : IsInBounds (ofText text) := by
  have chars : ∀ c ∈ ofText text, IsNameChar isLetterOrDigit c := by
    rw [ofText_eq starts]
    intro c mem
    rcases List.mem_append.mp mem with mem | mem
    · obtain ⟨d, -, rfl⟩ := List.mem_map.mp mem
      exact isNameChar_clean d
    · exact (of_mem_suffix mem).imp_right .inl
  obtain ⟨kept_starts, kept_ends⟩ := startsIn_and_endsIn_kept starts
  refine ⟨(bytes_eq_length chars).trans_le (length_ofText_le text), chars, ?_, ?_⟩
  · rw [ofText_eq starts]
    exact ((startsIn_map_iff isLetterOrDigit_clean).mpr kept_starts).append _
  · rw [ofText_eq starts]
    rcases eq_nil_or_endsIn_suffix text with blank | ends
    · rw [blank, List.append_nil]
      exact (endsIn_map_iff isLetterOrDigit_clean).mpr kept_ends
    · exact ends.append _

/-- The dots of a name are those that are kept of the text. -/
theorem isDomainName_ofText_iff (starts : StartsIn Char.isAlphanum text) :
    IsDomainName isLetterOrDigit (ofText text) ↔ DotsInside Char.isAlphanum (kept text) := by
  have apart : isLetterOrDigit '.' = false := by decide
  have bounds := isInBounds_ofText starts
  obtain ⟨kept_starts, kept_ends⟩ := startsIn_and_endsIn_kept starts
  rw [isDomainName_iff_dotsInside apart bounds.chars, and_iff_right bounds.starts, and_iff_right bounds.ends,
    ofText_eq starts, dotsInside_append_iff apart ((startsIn_map_iff isLetterOrDigit_clean).mpr kept_starts)
      ((endsIn_map_iff isLetterOrDigit_clean).mpr kept_ends) dot_not_mem_suffix,
    dotsInside_map_iff isLetterOrDigit_clean fun c => clean_eq_dot_iff]

/-! ## Variables -/

/-- A variable's name behind the start that the names of all secrets have, put there only if it is missing. -/
def withStart (name : String) : List Char := start ++ (Text.stripStart? start name.toList).getD name.toList

theorem toList_ofVariable (name : String) : (ofVariable name).toList = ofText (withStart name) := by
  unfold ofVariable
  rw [String.toList_ofList]
  rfl

theorem startsIn_withStart (name : String) : StartsIn Char.isAlphanum (withStart name) := ⟨'v', rfl, by decide⟩

theorem isInBounds_ofVariable (name : String) : IsInBounds (ofVariable name).toList := by
  rw [toList_ofVariable]
  exact isInBounds_ofText (startsIn_withStart name)

/-- No name of a secret has a slash. -/
theorem slash_not_mem_ofVariable (name : String) : '/' ∉ (ofVariable name).toList := by
  intro mem
  rcases (isInBounds_ofVariable name).chars '/' mem with word | dash | dot
  · exact absurd word (by decide)
  · exact absurd dash (by decide)
  · exact absurd dot (by decide)

/-- What is kept of a text is its front. -/
theorem kept_isPrefix (text : List Char) : kept text <+: text := by
  have cut : (if isShortened text then text.take (maxLength - digestLength - 1) else text) <+: text := by
    split
    · exact List.take_prefix _ text
    · exact List.prefix_rfl
  obtain ⟨dropped, whole, -⟩ := exists_append_dropEndWhile (fun c => !c.isAlphanum)
    (if isShortened text then text.take (maxLength - digestLength - 1) else text)
  exact List.IsPrefix.trans ⟨dropped, whole.symm⟩ cut

/-- If the dots of a variable stand between letters or digits, so do those that are kept. -/
theorem dotsInside_kept {name : String} (inside : DotsInside Char.isAlphanum name.toList) :
    DotsInside Char.isAlphanum (kept (withStart name)) := by
  have started : DotsInside Char.isAlphanum (withStart name) := by
    unfold withStart
    cases stripped : Text.stripStart? start name.toList with
    | none => exact inside.append_front (by decide)
    | some rest => rwa [Option.getD_some, ← Text.stripStart?_eq_some_iff.mp stripped]
  obtain ⟨kept_starts, kept_ends⟩ := startsIn_and_endsIn_kept (startsIn_withStart name)
  obtain ⟨rest, whole⟩ := kept_isPrefix (withStart name)
  rw [← whole, ← List.nil_append (kept (withStart name))] at started
  exact started.piece (by decide) [] rest kept_starts kept_ends

/-- The name for a variable is in bounds and is made without a cut out of bounds or within a character.  It is a domain
name just if each dot that is kept of the variable's name stands between letters or digits, and so if all of them do. -/
theorem isInBounds_and_isDomainName_iff (name : String) :
    IsInBounds (ofVariable name).toList ∧
      ofTextByBytes? (withStart name) = some (ofVariable name).toList ∧
      (IsDomainName isLetterOrDigit (ofVariable name).toList ↔ DotsInside Char.isAlphanum (kept (withStart name))) ∧
      (DotsInside Char.isAlphanum name.toList → IsDomainName isLetterOrDigit (ofVariable name).toList) := by
  have is_name_iff := isDomainName_ofText_iff (startsIn_withStart name)
  rw [← toList_ofVariable] at is_name_iff
  refine ⟨isInBounds_ofVariable name, ?_, is_name_iff, fun inside => is_name_iff.mpr (dotsInside_kept inside)⟩
  rw [toList_ofVariable, ofTextByBytes?_eq_some]

/-- A variable with letters of both cases, a dot and an underscore. -/
theorem isInBounds_and_isDomainName_iff_router :
    DotsInside Char.isAlphanum "Router.Cert_1".toList ∧ ofVariable "Router.Cert_1" = "var-router.cert-1" ∧
      IsDomainName isLetterOrDigit "var-router.cert-1".toList := by
  have inside : DotsInside Char.isAlphanum "Router.Cert_1".toList := by
    intro before after split
    have no_dot : '.' ∉ "Router".toList := by decide
    change "Router".toList ++ '.' :: "Cert_1".toList = before ++ '.' :: after at split
    rcases eq_or_exists_of_append_dot no_dot split with ⟨rfl, rfl⟩ | ⟨more, -, behind⟩
    · exact ⟨⟨'r', rfl, by decide⟩, ⟨'C', rfl, by decide⟩⟩
    · have no_dot : '.' ∉ "Cert_1".toList := by decide
      exact absurd (by simp [behind]) no_dot
  have name : ofVariable "Router.Cert_1" = "var-router.cert-1" := by decide
  exact ⟨inside, name, name ▸ (isInBounds_and_isDomainName_iff "Router.Cert_1").2.2.2 inside⟩

/-- Not all names are domain names: a dot next to another one leaves an empty label. -/
theorem not_forall_isDomainName_ofVariable :
    ¬ ∀ name : String, (ofVariable name).utf8ByteSize ≤ maxLength ∧
      IsDomainName isLetterOrDigit (ofVariable name).toList := by
  intro all
  have name : (ofVariable "a..b").toList = "var-a..b".toList := by decide
  have labels := (isDomainName_iff_splitAt (by decide)).mp (name ▸ (all "a..b").2)
  exact (labels [] (by decide)).ne_nil rfl

end DeployManifest.SecretName
