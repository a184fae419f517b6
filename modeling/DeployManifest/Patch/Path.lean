import DeployManifest.Text.Search
import DeployManifest.Yaml.Scalar

/-!
# Paths into trees

A path leads from the root of a tree to a place in it, step by step.  It is written as a slash before
every step:

- `name` is a key of a mapping, `3` an index into a sequence, `-` the place behind the last item;
- `key=value` is the first item of a sequence with this value in a field;
- a question mark behind a key or a match makes it, and the steps behind it, optional.

Within a step `~1` stands for a slash and `~0` for a tilde.  `Path.parse` reads a path.

- `Step.ofText`: the step that a word between slashes stands for.
- `steps?`: the steps of all words, of which those behind an optional one are optional themselves.
-/

namespace DeployManifest.Patch

/-- A step of a path. -/
inductive Step where
  | key (name : String) (isOptional : Bool)
  | index (n : Nat)
  | afterLast
  | matching (field value : String) (isOptional : Bool)
  deriving DecidableEq, Repr

namespace Step

/-- Whether a step is marked as optional, or follows one that is. -/
def isOptional : Step → Bool
  | .key _ isOptional => isOptional
  | .matching _ _ isOptional => isOptional
  | _ => false

/-- How messages name the step. -/
def text : Step → String
  | .key name _ => name
  | .index n => toString n
  | .afterLast => "-"
  | .matching field value _ => field ++ "=" ++ value

/-- The step without its escapes. -/
def unescape (text : List Char) : List Char :=
  Text.replaceAll ['~', '0'] ['~'] (Text.replaceAll ['~', '1'] ['/'] text)

/-- The index that digits, perhaps behind a plus sign, stand for; it fits into 64 bits. -/
def index? (text : List Char) : Option Nat :=
  let digits := (Text.stripStart? ['+'] text).getD text
  (Yaml.Plain.nat? 10 digits).filter fun n => n < UInt64.size

/-- The step that a text without escapes and question marks stands for. -/
def ofText (isOptional : Bool) (text : List Char) : Step :=
  if text = ['-'] then .afterLast
  else match index? text with
    | some n => .index n
    | none =>
      match Text.splitOnce? '=' text with
      | some (field, value) => .matching (String.ofList field) (String.ofList value) isOptional
      | none => .key (String.ofList text) isOptional

end Step

/-- What is wrong with a text that is no path. -/
inductive PathFault where
  | noSlash
  | blankStep
  deriving DecidableEq, Repr

/-- What is reported of a text that is no path. -/
def PathFault.message : PathFault → String
  | .noSlash => "expected path to start with '/'"
  | .blankStep => "expected non-empty path tokens"

/-- A path: its steps, and how it is written. -/
structure Path where
  text : String
  steps : List Step
  deriving DecidableEq, Repr

namespace Path

/-- The steps that the parts of a path stand for; `isOptional` tells whether a step in front of them
    is optional. -/
def steps? (isOptional : Bool) : List (List Char) → Option (List Step)
  | [] => some []
  | part :: rest =>
    let written := Step.unescape part
    let marked := written.getLast? = some '?'
    let isOptional := isOptional || marked
    let text := Text.dropEndWhile (· = '?') written
    if text.isEmpty then none
    else (steps? isOptional rest).map fun steps => Step.ofText isOptional text :: steps

/-- Reads a path. -/
def parse (text : String) : Except PathFault Path :=
  match text.toList with
  | ['/'] => .ok ⟨text, []⟩
  | '/' :: rest =>
    match steps? false (Text.splitAt '/' rest) with
    | some steps => .ok ⟨text, steps⟩
    | none => .error .blankStep
  | _ => .error .noSlash

end Path
end DeployManifest.Patch
