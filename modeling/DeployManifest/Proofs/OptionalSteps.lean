import DeployManifest.Patch.Path

/-!
# Optional steps

A question mark makes the step that it is behind optional, and all steps behind that one.  An index and
the place behind the last item are never optional themselves, so this shows at the keys and matches only:
in a path that was read, each of them that stands behind an optional step is optional (`CarriesOn`).

So it is all the same for a key or a match in such a path whether it is asked for its own mark or for one
in front of it.

Main statement: `carriesOn_of_parse`.

- `CarriesOn`: steps of which each key or match behind an optional one is optional.
- `CarriesOn.isOptional_of_markable`: what was carried so far shows at the next key or match.
-/

namespace DeployManifest.Patch

variable {isOptional earlier : Bool}

/-- Whether a question mark can make a step optional. -/
def Step.isMarkable : Step → Bool
  | .key _ _ => true
  | .matching _ _ _ => true
  | _ => false

/-- Whether all keys and matches behind an optional step are optional; `isOptional` tells whether a step
    in front of them all is. -/
def CarriesOn (isOptional : Bool) : List Step → Prop
  | [] => True
  | step :: rest =>
    (isOptional = true → step.isMarkable = true → step.isOptional = true) ∧
      CarriesOn (isOptional || step.isOptional) rest

/-- A key or match that is optional, or stands behind an optional step, has a mark of its own. -/
theorem CarriesOn.isOptional_of_markable {step : Step} {rest : List Step}
    (carries : CarriesOn isOptional (step :: rest)) (markable : step.isMarkable = true)
    (optional : (isOptional || step.isOptional) = true) : step.isOptional = true := by
  rcases Bool.or_eq_true_iff.mp optional with inherited | own
  · exact carries.1 inherited markable
  · exact own

/-- A key or match gets the mark that it is made with; other steps get none. -/
theorem isOptional_ofText (isOptional : Bool) (text : List Char) :
    (Step.ofText isOptional text).isOptional = (isOptional && (Step.ofText isOptional text).isMarkable) := by
  unfold Step.ofText
  split
  · simp [Step.isOptional, Step.isMarkable]
  · split
    · simp [Step.isOptional, Step.isMarkable]
    · split <;> simp [Step.isOptional, Step.isMarkable]

/-- Every part of a path takes over the marks in front of it; so the steps carry on what is known of the
    steps in front of them, as long as the parts know of it too. -/
theorem carriesOn_of_steps? {parts : List (List Char)} {steps : List Step}
    (read : Path.steps? isOptional parts = some steps) (known : earlier = true → isOptional = true) :
    CarriesOn earlier steps := by
  induction parts generalizing isOptional earlier steps with
  | nil =>
    obtain rfl := Option.some.inj read
    trivial
  | cons part rest ih =>
    unfold Path.steps? at read
    dsimp only at read
    split at read
    · nomatch read
    -- a part is optional by its own mark or by one in front of it, and the parts behind it inherit both
    · generalize carried : (isOptional || decide ((Step.unescape part).getLast? = some '?')) = marked at read
      have carries_on : isOptional = true → marked = true := by
        intro optional
        rw [← carried, optional, Bool.true_or]
      obtain ⟨later, read_later, rfl⟩ := Option.map_eq_some_iff.mp read
      have own := isOptional_ofText marked (Text.dropEndWhile (· = '?') (Step.unescape part))
      refine ⟨fun inherited markable => ?_, ih read_later fun optional => ?_⟩
      · rw [own, markable, Bool.and_true]
        exact carries_on (known inherited)
      · rcases Bool.or_eq_true_iff.mp optional with inherited | own_mark
        · exact carries_on (known inherited)
        · rw [own] at own_mark
          exact (Bool.and_eq_true_iff.mp own_mark).1

/-- In a path that was read, all keys and matches behind an optional step are optional. -/
theorem carriesOn_of_parse {text : String} {path : Path} (read : Path.parse text = .ok path) :
    CarriesOn false path.steps := by
  unfold Path.parse at read
  split at read
  · obtain rfl := Except.ok.inj read
    trivial
  · split at read
    · next steps parts =>
      obtain rfl := Except.ok.inj read
      exact carriesOn_of_steps? parts nofun
    · nomatch read
  · nomatch read

end DeployManifest.Patch
