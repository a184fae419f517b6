import Mathlib
import DeployManifest.Yaml.Token.Place
import DeployManifest.Yaml.Printer.Scalar

/-!
# Moving behind a text

What stands at a place is read a piece at a time.  `Place.behind` is the place behind a piece of text,
whatever line breaks are in it, so that what is said about two pieces can be put together.  A printed
text has no breaks but line feeds and the two separators, and each of them is read as it is.

- `bytes`: the size of a text.
- `Place.behind`: the place behind a text, with its laws.
- `Place.advance_eq_behind`, `Place.readBreak?_eq_some`: how the scanner moves within a line and over its
  end.
-/

namespace DeployManifest.Yaml

/-- What can be checked for some characters one by one holds of each of them. -/
theorem forall_mem_of_all {P : Char → Prop} [DecidablePred P] {text : List Char}
    (all : text.all (fun c => decide (P c)) = true) : ∀ c ∈ text, P c := fun c mem =>
  of_decide_eq_true (List.all_eq_true.mp all c mem)

/-- Letters and digits are among the first characters that can be seen. -/
theorem visible_of_isAlphanum {c : Char} (alphanum : c.isAlphanum = true) :
    0x20 ≤ c.toNat ∧ c.toNat ≤ 0x7E := by
  have z : 'z'.val.toNat = 0x7A := rfl
  have a : 'a'.val.toNat = 0x61 := rfl
  have Z : 'Z'.val.toNat = 0x5A := rfl
  have A : 'A'.val.toNat = 0x41 := rfl
  have nine : '9'.val.toNat = 0x39 := rfl
  have zero : '0'.val.toNat = 0x30 := rfl
  simp only [Char.isAlphanum, Char.isAlpha, Char.isUpper, Char.isLower, Char.isDigit,
    Bool.or_eq_true, Bool.and_eq_true, decide_eq_true_eq, ge_iff_le, UInt32.le_iff_toNat_le] at alphanum
  change 0x20 ≤ c.val.toNat ∧ c.val.toNat ≤ 0x7E
  omega

/-- How many bytes a text takes. -/
def bytes (text : List Char) : Nat := (String.ofList text).utf8ByteSize

@[simp] theorem bytes_nil : bytes [] = 0 := rfl

theorem bytes_append (a b : List Char) : bytes (a ++ b) = bytes a + bytes b := by
  unfold bytes
  rw [String.ofList_append, String.utf8ByteSize_append]

theorem bytes_cons (c : Char) (text : List Char) : bytes (c :: text) = c.utf8Size + bytes text := by
  have single : bytes [c] = c.utf8Size := by simp [bytes]
  rw [← List.singleton_append, bytes_append, single]

/-- The five characters that end a line. -/
theorem eq_of_isBreak {c : Char} (breaks : isBreak c = true) : c = '\r' ∨ c = '\n' ∨
    c = Char.ofNat 0x85 ∨ c = Char.ofNat 0x2028 ∨ c = Char.ofNat 0x2029 := by
  have named (n : Nat) : c.toNat = n → c = Char.ofNat n := by
    rintro rfl
    exact (Char.ofNat_toNat c).symm
  simp only [isBreak, Bool.or_eq_true, beq_iff_eq] at breaks
  obtain (((h | h) | h) | h) | h := breaks
  · exact .inl h
  · exact .inr (.inl h)
  · exact .inr (.inr (.inl (named _ h)))
  · exact .inr (.inr (.inr (.inl (named _ h))))
  · exact .inr (.inr (.inr (.inr (named _ h))))

theorem isBreak_of_mem_spaces {n : Nat} : ∀ c ∈ spaces n, isBreak c = false := by
  intro c mem
  obtain rfl := List.eq_of_mem_replicate mem
  decide

/-- A break that is printed is a line feed or a separator. -/
theorem eq_of_isPrintable {c : Char} (printable : isPrintable c = true) (breaks : isBreak c = true) :
    c = '\n' ∨ c = Char.ofNat 0x2028 ∨ c = Char.ofNat 0x2029 := by
  rcases eq_of_isBreak breaks with rfl | h | rfl | h | h
  · exact absurd printable (by decide)
  · exact .inl h
  · exact absurd printable (by decide)
  · exact .inr (.inl h)
  · exact .inr (.inr h)

namespace Place

variable {p : Place} {c : Char} {rest : List Char}

/-- The place behind the text `w` that stands at `p`. -/
def behind (p : Place) : List Char → Place
  | [] => p
  | c :: w =>
    if isBreak c then behind ⟨p.rest.drop 1, p.index + c.utf8Size, p.line + 1, 0⟩ w
    else behind (p.advance 1) w

@[simp] theorem behind_nil : p.behind [] = p := rfl

theorem behind_append (v w : List Char) : p.behind (v ++ w) = (p.behind v).behind w := by
  induction v generalizing p with
  | nil => rfl
  | cons c v ih => by_cases breaks : isBreak c <;> simp [behind, breaks, ih]

theorem behind_cons (w : List Char) : p.behind (c :: w) = (p.behind [c]).behind w := behind_append [c] w

theorem behind_singleton (no_break : isBreak c = false) : p.behind [c] = p.advance 1 := by
  simp [behind, no_break]

@[simp] theorem rest_behind (w : List Char) : (p.behind w).rest = p.rest.drop w.length := by
  induction w generalizing p with
  | nil => rfl
  | cons c w ih => by_cases breaks : isBreak c <;> simp [behind, breaks, ih, advance]

theorem rest_behind_eq {w : List Char} (here : p.rest = w ++ rest) : (p.behind w).rest = rest := by
  simp [here]

/-- A text never leads back to an earlier line. -/
theorem line_le_line_behind (w : List Char) : p.line ≤ (p.behind w).line := by
  induction w generalizing p with
  | nil => exact Nat.le_refl _
  | cons c w ih =>
    rw [behind]
    split
    · exact Nat.le_trans (Nat.le_succ p.line) (ih (p := ⟨_, _, p.line + 1, 0⟩))
    · exact ih (p := p.advance 1)

/-- Within a line the place moves on by the bytes and the characters of the text. -/
theorem behind_eq_of_no_break {w : List Char} (no_break : ∀ c ∈ w, isBreak c = false)
    (here : p.rest = w ++ rest) :
    p.behind w = ⟨rest, p.index + bytes w, p.line, p.column + w.length⟩ := by
  induction w generalizing p with
  | nil => simp [← (show p.rest = rest from here)]
  | cons c w ih =>
    have step : p.advance 1 = ⟨w ++ rest, p.index + c.utf8Size, p.line, p.column + 1⟩ := by
      simp [advance, here]
    rw [behind_cons, behind_singleton (no_break c (by simp)), step, ih (fun d mem => no_break d (by simp [mem])) rfl,
      bytes_cons]
    simp only [List.length_cons, mk.injEq, true_and]
    omega

theorem advance_eq_behind {w : List Char} (no_break : ∀ c ∈ w, isBreak c = false)
    (here : p.rest = w ++ rest) : p.advance w.length = p.behind w := by
  rw [behind_eq_of_no_break no_break here]
  simp [advance, here, bytes]

/-- Nothing is skipped in front of what does not satisfy `q`. -/
theorem skipWhile_eq_self {q : Char → Bool} (stops : ∀ c ∈ p.rest.head?, q c = false) :
    p.skipWhile q = p := by
  have nothing : p.rest.takeWhile q = [] := by
    cases here : p.rest with
    | nil => rfl
    | cons c more => simp [stops c (by simp [here])]
  simp [skipWhile, nothing, advance]

/-- Where no byte order mark stands there is none to skip. -/
theorem skipMark_eq_self (unmarked : ∀ c ∈ p.rest.head?, isByteOrderMark c = false) :
    p.skipMark = p := by
  unfold skipMark
  split
  · next c more here => simp [unmarked c (by simp [here])]
  · rfl

/-- Where no comment starts there is none to skip. -/
theorem skipComment_eq_self (uncommented : ∀ c ∈ p.rest.head?, c ≠ '#') : p.skipComment = p := by
  unfold skipComment
  split
  · next here => exact absurd rfl (uncommented '#' (by simp [here]))
  · rfl

/-- A character that ends no line is no break. -/
theorem readBreak?_eq_none (here : p.rest = c :: rest) (no_break : isBreak c = false) :
    p.readBreak? = none := by
  have not_return : c ≠ '\r' := by
    rintro rfl
    exact absurd no_break (by decide)
  unfold readBreak?
  rw [here]
  split
  · next h => exact absurd (List.cons.inj h).1 not_return
  · next h =>
    obtain ⟨rfl, rfl⟩ := List.cons.inj h
    rw [if_neg (by simp [no_break])]
  · rfl

theorem readBreak?_eq_none_of_end (here : p.rest = []) : p.readBreak? = none := by
  simp [readBreak?, here]

/-- A printed break is kept. -/
theorem readBreak?_eq_some (here : p.rest = c :: rest) (printable : isPrintable c = true)
    (breaks : isBreak c = true) : p.readBreak? = some (c, p.behind [c]) := by
  have not_return : c ≠ '\r' := by
    rintro rfl
    exact absurd printable (by decide)
  unfold readBreak?
  rw [here]
  split
  · next h => exact absurd (List.cons.inj h).1 not_return
  · next h =>
    obtain ⟨rfl, rfl⟩ := List.cons.inj h
    rw [if_pos breaks]
    rcases eq_of_isPrintable printable breaks with rfl | rfl | rfl <;> simp [behind, breaks, here]
  · next h => exact absurd h (by simp)

end Place
end DeployManifest.Yaml
