import DeployManifest.Proofs.OpsFiles
import DeployManifest.Proofs.StagedOps

/-!
# Patching documents again and again

Ops files are added to patches, and documents are patched, in any order and any number of times.
`Patches.log` is the log of such a run: every call with its answer.

`Collected` are the operations of the files that a log says were added, and `Patched` says what comes of
a document to which operations are applied in order.

Main statement: `answers_fit`.  It rests on `answer_fits`, which is about a single call, and on
`operations_answer`, what a call leaves for those behind it.

- `Succeed`, `applyFrom_eq_ok_iff`: operations that succeed one after another.
- `Call`, `Answer`, `Patches.answer`: one call and what it answers and leaves.
- `Fits`: the answers that a call may get.
-/

namespace DeployManifest

open Yaml (Value Source)

namespace Patch

/-! ## Applying operations in order -/

/-- Whether operations, each on the tree that those before it have left, all succeed, and lead from a
    tree to another. -/
inductive Succeed : List Operation → Value → Value → Prop where
  | nil (tree : Value) : Succeed [] tree tree
  | cons {operation : Operation} {rest : List Operation} {tree next last : Value}
    (first : operation.apply tree = (next, none)) (later : Succeed rest next last) :
    Succeed (operation :: rest) tree last

end Patch

open Patch (Operation Holds Refused Succeed)

/-- What comes of a document to which operations are applied in order. -/
inductive Patched (operations : List Operation) (document : Source) :
    Except EvaluationError String → Prop where
  | unread (unread : ∀ tree, readTree document ≠ .ok tree) :
    Patched operations document (.error .parseDocument)
  /-- The first operation that fails is the one behind `before`. -/
  | failed {before behind : List Operation} {operation : Operation} {tree middle left : Value}
    {failure : Patch.Failure} (read : readTree document = .ok tree)
    (split : operations = before ++ operation :: behind) (succeed : Succeed before tree middle)
    (fails : operation.apply middle = (left, some failure)) :
    Patched operations document (.error (.applyOp before.length operation.path.text failure))
  | unprintable {tree last : Value} (read : readTree document = .ok tree)
    (succeed : Succeed operations tree last) (unprintable : last.print? = none) :
    Patched operations document (.error .serializeDocument)
  | printed {tree last : Value} {text : String} (read : readTree document = .ok tree)
    (succeed : Succeed operations tree last) (printed : last.print? = some text) :
    Patched operations document (.ok text)

namespace Patches

variable {patches : Patches} {operations others : List Operation} {tree last : Value} {index : Nat}
  {document : Source}

/-- Operations give a tree just if each of them succeeds on what the one before left. -/
theorem applyFrom_eq_ok_iff : applyFrom index tree operations = .ok last ↔ Succeed operations tree last := by
  induction operations generalizing index tree with
  | nil =>
    constructor
    · rintro ⟨⟩
      exact .nil _
    · rintro ⟨⟩
      rfl
  | cons operation rest ih =>
    unfold applyFrom
    constructor
    · intro applied
      split at applied
      · next next first => exact .cons first (ih.mp applied)
      · nomatch applied
    · intro succeed
      cases succeed with
      | cons first later =>
        rw [first]
        exact ih.mpr later

/-- They fail with the first operation that does, and by its number. -/
theorem applyFrom_eq_error_iff {e : EvaluationError} :
    applyFrom index tree operations = .error e ↔
      ∃ before operation behind middle left failure, operations = before ++ operation :: behind ∧
        Succeed before tree middle ∧ operation.apply middle = (left, some failure) ∧
        e = .applyOp (index + before.length) operation.path.text failure := by
  -- the first operation fails, or it succeeds and the failure is that of a later one
  induction operations generalizing index tree with
  | nil => simp [applyFrom]
  | cons operation rest ih =>
    unfold applyFrom
    constructor
    · intro applied
      split at applied
      · next next first =>
        obtain ⟨before, bad, behind, middle, left, failure, rfl, succeed, fails, rfl⟩ := ih.mp applied
        refine ⟨operation :: before, bad, behind, middle, left, failure, rfl, .cons first succeed, fails, ?_⟩
        rw [List.length_cons, Nat.add_comm before.length, Nat.add_assoc]
      · next left failure fails =>
        obtain rfl := Except.error.inj applied
        exact ⟨[], operation, rest, tree, left, failure, rfl, .nil tree, fails, rfl⟩
    · rintro ⟨before, bad, behind, middle, left, failure, split, succeed, fails, rfl⟩
      cases succeed with
      | nil =>
        obtain ⟨rfl, -⟩ := List.cons.inj split
        rw [fails]
        rfl
      | @cons _ before _ next _ first later =>
        obtain ⟨rfl, rfl⟩ := List.cons.inj split
        rw [first]
        refine ih.mpr ⟨before, bad, behind, middle, left, failure, rfl, later, fails, ?_⟩
        rw [List.length_cons, Nat.add_comm before.length, Nat.add_assoc]

/-- Patching a document answers what its operations make of it. -/
theorem patched_patch (patches : Patches) (document : Source) :
    Patched patches.operations document (patches.patch document) := by
  unfold patch
  -- reading, applying and printing may fail, one after the other
  cases read : readTree document with
  | error e =>
    obtain rfl : e = .parseDocument := by
      unfold readTree at read
      split at read
      · nomatch read
      · exact (Except.error.inj read).symm
    exact .unread fun tree found => nomatch read.symm.trans found
  | ok tree =>
    dsimp only
    cases applied : patches.apply tree with
    | error e =>
      obtain ⟨before, operation, behind, middle, left, failure, split, succeed, fails, rfl⟩ :=
        applyFrom_eq_error_iff.mp applied
      rw [Nat.zero_add]
      exact .failed read split succeed fails
    | ok last =>
      have succeed := applyFrom_eq_ok_iff.mp applied
      dsimp only [printTree]
      split
      · next text printed => exact .printed read succeed printed
      · next unprintable => exact .unprintable read succeed unprintable

/-! ## A run of calls -/

/-- What can be asked of patches. -/
inductive Call where
  | add (file : Source)
  | patch (document : Source)

/-- What a call gives: the text of a patched document, or nothing where a file was added. -/
abbrev Answer := Except EvaluationError (Option String)

/-- The answer to a call, and the patches behind it.  A file that is refused leaves them as they are,
    and so does a document. -/
def answer (patches : Patches) : Call → Answer × Patches
  | .add file =>
    match patches.add file with
    | .ok added => (.ok Option.none, added)
    | .error e => (.error e, patches)
  | .patch document => ((patches.patch document).map some, patches)

/-- The calls of a run with their answers. -/
def log (patches : Patches) : List Call → List (Call × Answer)
  | [] => []
  | call :: rest => (call, (patches.answer call).1) :: log (patches.answer call).2 rest

/-- Whether an answer is the one that a call deserves where some operations have been collected. -/
inductive Fits (operations : List Operation) : Call → Answer → Prop where
  | added {file : Source} {fresh : List Operation} (holds : Holds file fresh) :
    Fits operations (.add file) (.ok Option.none)
  | refused {file : Source} {fault : Patch.OpsFault} (refused : Refused file fault) :
    Fits operations (.add file) (.error (.parseOps fault))
  | patched {document : Source} {result : Except EvaluationError String}
    (patched : Patched operations document result) : Fits operations (.patch document) (result.map some)

/-- Whether the operations of the files that were added are these, in the order of the calls. -/
inductive Collected : List (Call × Answer) → List Operation → Prop where
  | nil : Collected [] []
  | added {file : Source} {fresh more : List Operation} {rest : List (Call × Answer)}
    (holds : Holds file fresh) (later : Collected rest more) :
    Collected ((.add file, .ok Option.none) :: rest) (fresh ++ more)
  | refused {file : Source} {e : EvaluationError} {more : List Operation} {rest : List (Call × Answer)}
    (later : Collected rest more) : Collected ((.add file, .error e) :: rest) more
  | patched {document : Source} {answer : Answer} {more : List Operation} {rest : List (Call × Answer)}
    (later : Collected rest more) : Collected ((.patch document, answer) :: rest) more

variable {calls : List Call} {call : Call} {before behind : List (Call × Answer)} {given : Answer}

/-- A log says which operations have been collected. -/
theorem Collected.unique (collected : Collected before operations) (also : Collected before others) :
    operations = others := by
  induction collected generalizing others with
  | nil => cases also; rfl
  | added holds _ ih =>
    cases also with
    | added also_holds later => rw [holds.unique also_holds, ih later]
  | refused _ ih =>
    cases also with
    | refused later => exact ih later
  | patched _ ih =>
    cases also with
    | patched later => exact ih later

theorem answer_add_of_ok {file : Source} {fresh : List Operation} (read : Patch.readOps file = .ok fresh) :
    patches.answer (.add file) = (.ok Option.none, ⟨patches.operations ++ fresh⟩) := by
  simp only [answer, add, read]

theorem answer_add_of_error {file : Source} {fault : Patch.OpsFault}
    (read : Patch.readOps file = .error fault) :
    patches.answer (.add file) = (.error (.parseOps fault), patches) := by
  simp only [answer, add, read]

/-- A call is answered as it should be, by the operations collected before. -/
theorem answer_fits (patches : Patches) (call : Call) :
    Fits patches.operations call (patches.answer call).1 := by
  cases call with
  | add file =>
    cases read : Patch.readOps file with
    | error fault =>
      rw [answer_add_of_error read]
      exact .refused (Patch.readOps_eq_error_iff.mp read)
    | ok fresh =>
      rw [answer_add_of_ok read]
      exact .added (Patch.readOps_eq_ok_iff.mp read)
  | patch document => exact .patched (patches.patched_patch document)

/-- A call leaves the operations to those behind it, and adds those of its file if it is answered
    so. -/
theorem operations_answer (patches : Patches) (call : Call) :
    ∃ fresh, Collected [(call, (patches.answer call).1)] fresh ∧
      (patches.answer call).2.operations = patches.operations ++ fresh := by
  cases call with
  | add file =>
    cases read : Patch.readOps file with
    | error fault =>
      rw [answer_add_of_error read]
      exact ⟨[], .refused .nil, (List.append_nil _).symm⟩
    | ok fresh =>
      have collected := Collected.added (Patch.readOps_eq_ok_iff.mp read) .nil
      rw [List.append_nil] at collected
      rw [answer_add_of_ok read]
      exact ⟨fresh, collected, rfl⟩
  | patch document => exact ⟨[], .patched .nil, (List.append_nil _).symm⟩

/-- The operations of a log are those of its first entry, and then those of the others. -/
theorem Collected.cons {entry : Call × Answer} (first : Collected [entry] operations)
    (later : Collected before others) : Collected (entry :: before) (operations ++ others) := by
  cases first with
  | added holds nothing =>
    cases nothing
    rw [List.append_nil]
    exact .added holds later
  | refused nothing =>
    cases nothing
    exact .refused later
  | patched nothing =>
    cases nothing
    exact .patched later

/-- The log of a run has its calls. -/
@[simp] theorem map_fst_log (patches : Patches) (calls : List Call) :
    (patches.log calls).map (·.1) = calls := by
  induction calls generalizing patches with
  | nil => rfl
  | cons call rest ih => rw [log, List.map_cons, ih]

/-- Calls in front of others give the same answers whatever comes behind them. -/
theorem log_append (patches : Patches) (calls more : List Call) :
    ∃ fresh, Collected (patches.log calls) fresh ∧
      patches.log (calls ++ more) =
        patches.log calls ++ (Patches.mk (patches.operations ++ fresh)).log more := by
  induction calls generalizing patches with
  | nil => exact ⟨[], .nil, by rw [List.append_nil]; rfl⟩
  | cons call rest ih =>
    obtain ⟨first, collected, operations⟩ := patches.operations_answer call
    obtain ⟨fresh, later, split⟩ := ih (patches.answer call).2
    refine ⟨first ++ fresh, collected.cons later, ?_⟩
    rw [operations, List.append_assoc] at split
    rw [List.cons_append, log, split]
    rfl

/-- In every run that starts without operations, every call gets the answer that fits the operations
    collected until then, which are those of just the files whose addition was answered so.  The calls
    behind a document that is patched get the same answers as without it. -/
theorem answers_fit (before : List Call) (call : Call) (behind : List Call) :
    ∃ operations given later,
      none.log (before ++ call :: behind) = none.log before ++ (call, given) :: later ∧
      later.map (·.1) = behind ∧
      (∀ others, Collected (none.log before) others ↔ others = operations) ∧
      Fits operations call given ∧
      ∀ document, call = .patch document → none.log (before ++ behind) = none.log before ++ later := by
  obtain ⟨operations, collected, whole⟩ := log_append none before (call :: behind)
  obtain ⟨also, also_collected, rest⟩ := log_append none before behind
  obtain rfl := collected.unique also_collected
  refine ⟨operations, _, _, whole, map_fst_log _ _, fun others => ?_, answer_fits ⟨operations⟩ call, ?_⟩
  · exact ⟨fun collected_also => collected_also.unique collected, fun same => same ▸ collected⟩
  · rintro document rfl
    exact rest

/-- The second file is refused for its last definition, and the failing operation is counted over the
    two others. -/
example :
    let rename := Source.ofString "- {type: replace, path: /name, value: a}\n- [replace, /tags?, 1]\n"
    let broken := Source.ofString "- {type: replace, path: /name, value: b}\n- {type: move, path: /name}\n"
    let drop := Source.ofString "- {type: remove, path: /missing}\n"
    let document := Source.ofString "name: x\n"
    (none.log [.add rename, .patch document, .add broken, .add drop, .patch document]).map (·.2) =
      [.ok Option.none, .ok (some "name: a\ntags: 1\n"), .error (.parseOps (.badOperation 1)),
        .ok Option.none, .error (.applyOp 2 "/missing" (.missingKey "missing"))] := by
  decide +kernel

end Patches
end DeployManifest
