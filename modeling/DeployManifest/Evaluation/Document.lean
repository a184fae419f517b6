import DeployManifest.Yaml.View
import DeployManifest.Yaml.Printer
import DeployManifest.Patch.OpsFile
import DeployManifest.Evaluation.Interpolation

/-!
# Evaluating documents

A document is read, changed and printed.  `Patches` collects the operations of ops files and applies
them all; `evaluate` puts values in for placeholders.

- `readTree`, `printTree`: between texts and trees.
- `Patches.add`: the operations of one more ops file, behind those collected before.
- `Patches.apply`: what all operations make of a tree, or the first that fails, by its number.
- `evaluate`: a document with values put in for its placeholders, from text to text.
-/

namespace DeployManifest

open Yaml (Value View Source)

/-- Why a document cannot be evaluated. -/
inductive EvaluationError where
  | parseOps (cause : Patch.OpsFault)
  | applyOp (index : Nat) (path : String) (cause : Patch.Failure)
  | parseDocument
  | serializeDocument
  | interpolate (cause : InterpolationError)
  deriving DecidableEq, Repr

/-- What is reported of a document that could not be evaluated, without the cause. -/
def EvaluationError.message : EvaluationError → String
  | .parseOps _ => "failed to parse ops file"
  | .applyOp index path _ =>
    "failed to apply operation " ++ toString index ++ " (" ++ path ++ ")"
  | .parseDocument => "failed to parse YAML document"
  | .serializeDocument => "failed to serialize YAML document"
  | .interpolate _ => "failed to interpolate variables"

/-- The tree of a document. -/
def readTree (document : Source) : Except EvaluationError Value :=
  match (View.ofSource? document).bind View.value? with
  | some tree => .ok tree
  | none => .error .parseDocument

/-- The text of a tree. -/
def printTree (tree : Value) : Except EvaluationError String :=
  match tree.print? with
  | some text => .ok text
  | none => .error .serializeDocument

/-- Operations that are applied to documents. -/
structure Patches where
  operations : List Patch.Operation

namespace Patches

/-- No operations at all. -/
def none : Patches := ⟨[]⟩

/-- Adds the operations of an ops file behind all others. -/
def add (patches : Patches) (file : Source) : Except EvaluationError Patches :=
  match Patch.readOps file with
  | .ok operations => .ok ⟨patches.operations ++ operations⟩
  | .error fault => .error (.parseOps fault)

/-- Applies operations one after another, the first of which is called `index`. -/
def applyFrom (index : Nat) (tree : Value) : List Patch.Operation → Except EvaluationError Value
  | [] => .ok tree
  | operation :: rest =>
    match operation.apply tree with
    | (tree, .none) => applyFrom (index + 1) tree rest
    | (_, some failure) => .error (.applyOp index operation.path.text failure)

/-- Applies all operations to a tree. -/
def apply (patches : Patches) (tree : Value) : Except EvaluationError Value :=
  applyFrom 0 tree patches.operations

/-- The text of a document with all operations applied. -/
def patch (patches : Patches) (document : Source) : Except EvaluationError String :=
  match readTree document with
  | .error e => .error e
  | .ok tree =>
    match patches.apply tree with
    | .error e => .error e
    | .ok tree => printTree tree

end Patches

/-- The text of a document with values put in for placeholders. -/
def evaluate (document : Source) (bindings : Bindings) (options : EvaluateOptions) :
    Except EvaluationError String :=
  match readTree document with
  | .error e => .error e
  | .ok tree =>
    match interpolateChecked bindings options tree with
    | .error e => .error (.interpolate e)
    | .ok tree => printTree tree

end DeployManifest
