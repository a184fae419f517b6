import DeployManifest.Patch.OpsFile
import DeployManifest.Proofs.Outcome

/-!
# What ops files hold

An ops file lists definitions of operations (`Lists`).  It holds operations only as a whole: each
definition has to describe one of them (`Holds`).  If one does not, be it the last one, the file is
refused, and the first such definition is to blame (`Refused`).

Main statements: `readOps_eq_ok_iff` and `readOps_eq_error_iff`.

- `Describes`, `Lists`: what a definition and a file say.
- `readOpsFrom_eq_error_iff`: the first definition that is refused decides.
-/

namespace DeployManifest.Patch

open Yaml (Value View Source)

variable {file : Source} {definition : Value} {definitions : List Value} {operation : Operation}
  {operations others : List Operation} {fault : OpsFault} {index : Nat}

/-- Whether a file is a list of these definitions; a file that is blank or null is an empty one. -/
inductive Lists (file : Source) : List Value → Prop where
  | blank (blank : file.isBlank = true) : Lists file []
  | null (written : file.isBlank = false)
    (read : (View.ofSource? file).bind (View.optional? (View.list? View.value?)) = some none) :
    Lists file []
  | list {definitions : List Value} (written : file.isBlank = false)
    (read : (View.ofSource? file).bind (View.optional? (View.list? View.value?)) =
      some (some definitions)) : Lists file definitions

/-- Whether a tree describes an operation, with a path that can be read. -/
structure Describes (definition : Value) (operation : Operation) : Prop where
  fields : op? definition = some (operation.action, operation.path.text)
  path : Path.parse operation.path.text = .ok operation.path

/-- Whether the operations of a file are these. -/
def Holds (file : Source) (operations : List Operation) : Prop :=
  ∃ definitions, Lists file definitions ∧ List.Forall₂ Describes definitions operations

/-- Why a file is refused: it is no list, or the first definition that describes no operation is the
    one at an index. -/
inductive Refused (file : Source) : OpsFault → Prop where
  | unreadable (unread : ∀ definitions, ¬ Lists file definitions) : Refused file .unreadable
  | operation {before behind : List Value} {definition : Value} {operations : List Operation}
    (lists : Lists file (before ++ definition :: behind))
    (described : List.Forall₂ Describes before operations) (unknown : op? definition = none) :
    Refused file (.badOperation before.length)
  | path {before behind : List Value} {definition : Value} {operations : List Operation}
    {action : Action} {path : String} {fault : PathFault}
    (lists : Lists file (before ++ definition :: behind))
    (described : List.Forall₂ Describes before operations)
    (fields : op? definition = some (action, path)) (unread : Path.parse path = .error fault) :
    Refused file (.badPath path before.length fault)

/-- A path keeps the text it was read from. -/
theorem Path.text_of_parse {text : String} {path : Path} (parsed : Path.parse text = .ok path) :
    path.text = text := by
  unfold Path.parse at parsed
  split at parsed
  · obtain rfl := Except.ok.inj parsed
    rfl
  · split at parsed
    · obtain rfl := Except.ok.inj parsed
      rfl
    · nomatch parsed
  · nomatch parsed

/-- A definition is read just as the operation it describes. -/
theorem readOp_eq_ok_iff (index : Nat) :
    readOp index definition = .ok operation ↔ Describes definition operation := by
  unfold readOp
  constructor
  · intro read
    split at read
    · nomatch read
    · next action path fields =>
      split at read
      · nomatch read
      · next parsed =>
        obtain rfl := Except.ok.inj read
        -- a path that can be read has the text it was read from
        have text := Path.text_of_parse parsed
        exact ⟨by rw [fields, text], by rw [text, parsed]⟩
  · rintro ⟨fields, parsed⟩
    rw [fields]
    dsimp only
    rw [parsed]

/-- Definitions are read just as the operations they describe, one by one. -/
theorem readOpsFrom_eq_ok_iff :
    readOpsFrom index definitions = .ok operations ↔ List.Forall₂ Describes definitions operations := by
  induction definitions generalizing index operations with
  | nil => simp [readOpsFrom, eq_comm]
  | cons definition rest ih =>
    rw [List.forall₂_cons_left_iff]
    -- a definition that is refused describes no operation
    cases read : readOp index definition with
    | error fault =>
      have unread : ∀ operation, ¬ Describes definition operation := fun operation describes => by
        rw [← readOp_eq_ok_iff index, read] at describes
        nomatch describes
      simp [readOpsFrom, read, unread]
    | ok operation =>
      have describes := (readOp_eq_ok_iff _).mp read
      simp only [readOpsFrom, read, map_eq_ok, ih]
      constructor
      · rintro ⟨others, later, rfl⟩
        exact ⟨operation, others, describes, later, rfl⟩
      · rintro ⟨other, others, described, later, rfl⟩
        have same := (readOp_eq_ok_iff index).mpr described
        obtain rfl := Except.ok.inj (read.symm.trans same)
        exact ⟨others, later, rfl⟩

/-- Reading stops at the first definition that describes no operation. -/
theorem readOpsFrom_eq_error_iff :
    readOpsFrom index definitions = .error fault ↔
      ∃ before definition behind operations, definitions = before ++ definition :: behind ∧
        List.Forall₂ Describes before operations ∧
        readOp (index + before.length) definition = .error fault := by
  -- the first definition is refused, or it is read and a later one is
  induction definitions generalizing index with
  | nil => simp [readOpsFrom]
  | cons definition rest ih =>
    cases read : readOp index definition with
    | error other =>
      simp only [readOpsFrom, read]
      constructor
      · rintro ⟨⟩
        exact ⟨[], definition, rest, [], rfl, .nil, read⟩
      · rintro ⟨before, bad, behind, operations, split, described, fails⟩
        cases described with
        | nil =>
          obtain ⟨rfl, -⟩ := List.cons.inj split
          rw [List.length_nil, Nat.add_zero, read] at fails
          exact congrArg Except.error (Except.error.inj fails)
        | cons describes _ =>
          obtain ⟨rfl, -⟩ := List.cons.inj split
          rw [← readOp_eq_ok_iff index, read] at describes
          nomatch describes
    | ok operation =>
      have describes := (readOp_eq_ok_iff _).mp read
      have later : readOpsFrom index (definition :: rest) = .error fault ↔
          readOpsFrom (index + 1) rest = .error fault := by
        simp only [readOpsFrom, read]
        cases readOpsFrom (index + 1) rest <;> simp [Except.map]
      rw [later, ih]
      constructor
      · rintro ⟨before, bad, behind, operations, rfl, described, fails⟩
        refine ⟨definition :: before, bad, behind, operation :: operations, rfl, .cons describes described, ?_⟩
        rwa [List.length_cons, Nat.add_comm before.length, ← Nat.add_assoc]
      · rintro ⟨before, bad, behind, operations, split, described, fails⟩
        cases described with
        | nil =>
          obtain ⟨rfl, -⟩ := List.cons.inj split
          rw [List.length_nil, Nat.add_zero, read] at fails
          nomatch fails
        | @cons _ _ before operations _ described =>
          obtain ⟨rfl, rfl⟩ := List.cons.inj split
          refine ⟨before, bad, behind, operations, rfl, described, ?_⟩
          rwa [List.length_cons, Nat.add_comm before.length, ← Nat.add_assoc] at fails

/-- A definition is refused as a whole, or for its path. -/
theorem readOp_eq_error_iff :
    readOp index definition = .error fault ↔
      (op? definition = none ∧ fault = .badOperation index) ∨
      ∃ action path cause, op? definition = some (action, path) ∧ Path.parse path = .error cause ∧
        fault = .badPath path index cause := by
  unfold readOp
  cases fields : op? definition with
  | none => simp [eq_comm]
  | some described =>
    obtain ⟨action, path⟩ := described
    cases parsed : Path.parse path with
    | error cause => simp [parsed, eq_comm]
    | ok path => simp [parsed]

/-- Reading a file is reading the definitions it lists. -/
theorem readOps_cases (file : Source) :
    (∃ definitions, (∀ others, Lists file others ↔ others = definitions) ∧
      readOps file = readOpsFrom 0 definitions) ∨
    (∀ definitions, ¬ Lists file definitions) ∧ readOps file = .error .unreadable := by
  unfold readOps
  -- blank files and nulls list no definitions, and a list lists its items
  cases written : file.isBlank with
  | true =>
    refine .inl ⟨[], fun others => ⟨fun lists => ?_, ?_⟩, rfl⟩
    · cases lists <;> simp_all
    · rintro rfl
      exact .blank written
  | false =>
    cases read : (View.ofSource? file).bind (View.optional? (View.list? View.value?)) with
    | none =>
      refine .inr ⟨fun definitions lists => ?_, rfl⟩
      cases lists <;> simp_all
    | some found =>
      refine .inl ⟨found.getD [], fun others => ⟨fun lists => ?_, ?_⟩, rfl⟩
      · cases lists with
        | blank blank => rw [written] at blank; nomatch blank
        | null _ found_null =>
          obtain rfl := Option.some.inj (read.symm.trans found_null)
          rfl
        | list _ found_list =>
          obtain rfl := Option.some.inj (read.symm.trans found_list)
          rfl
      · rintro rfl
        cases found with
        | none => exact .null written read
        | some definitions => exact .list written read

/-- A file is read just as the operations it holds. -/
theorem readOps_eq_ok_iff : readOps file = .ok operations ↔ Holds file operations := by
  unfold Holds
  rcases readOps_cases file with ⟨definitions, only, read⟩ | ⟨unread, read⟩
  · simp only [read, only, exists_eq_left, readOpsFrom_eq_ok_iff]
  · simp [read, unread]

/-- A file is refused just for the fault that is to blame. -/
theorem readOps_eq_error_iff : readOps file = .error fault ↔ Refused file fault := by
  rcases readOps_cases file with ⟨definitions, only, read⟩ | ⟨unread, read⟩
  -- the file lists definitions, so one of them is to blame
  · have lists := (only definitions).mpr rfl
    rw [read, readOpsFrom_eq_error_iff]
    constructor
    · rintro ⟨before, definition, behind, operations, rfl, described, fails⟩
      rw [Nat.zero_add] at fails
      rcases readOp_eq_error_iff.mp fails with ⟨unknown, rfl⟩ | ⟨action, path, cause, fields, unread, rfl⟩
      · exact .operation lists described unknown
      · exact .path lists described fields unread
    · intro refused
      cases refused with
      | unreadable unread => exact absurd lists (unread definitions)
      | @operation before behind definition operations here described unknown =>
        refine ⟨before, definition, behind, operations, ((only _).mp here).symm, described, ?_⟩
        exact readOp_eq_error_iff.mpr (.inl ⟨unknown, by rw [Nat.zero_add]⟩)
      | @path before behind definition operations action path cause here described fields unread =>
        refine ⟨before, definition, behind, operations, ((only _).mp here).symm, described, ?_⟩
        exact readOp_eq_error_iff.mpr (.inr ⟨action, path, cause, fields, unread, by rw [Nat.zero_add]⟩)
  · rw [read]
    constructor
    · rintro ⟨⟩
      exact .unreadable unread
    · intro refused
      cases refused with
      | unreadable => rfl
      | operation lists | path lists => exact absurd lists (unread _)

theorem Holds.unique (holds : Holds file operations) (others_hold : Holds file others) :
    operations = others := by
  rw [← readOps_eq_ok_iff] at holds others_hold
  exact Except.ok.inj (holds.symm.trans others_hold)

end DeployManifest.Patch
