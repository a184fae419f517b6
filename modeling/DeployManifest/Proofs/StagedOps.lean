import Mathlib.Data.List.Induction
import DeployManifest.Deployment.Resolver
import DeployManifest.Proofs.Outcome

/-!
# Ops files one by one

Ops files are applied to a manifest either all at once or one by one.  All at once means that their
operations are collected first and then applied to a single tree; one by one means that behind each
file the tree is printed, and read again for the next.

The two agree as long as printing loses nothing.  `Resolver.treeAfter` is the tree behind some of
the ops files, `IsIntermediate` says that a tree is reached behind some but not all of them, and
`Reads` that a printed tree reads back.

Main statement: `manifestDetailed_eq_ok_iff`.  It rests on `treeAfter_concat`, the step that one
more ops file makes of the collected operations, and on `foldlM_applyOpsFile_eq_ok`, which follows
the printed documents along all files.

- `Resolver.treeAfter`: the tree behind some ops files, all at once.
- `IsIntermediate`, `Reads`: the trees that are printed on the way, and that they read back.
- `manifestDetailed_eq_ok_iff_patched`: two files, of which the second one changes what the first one
  creates.
-/

namespace DeployManifest

open Yaml (Value)

/-- Whether a tree that can be printed reads back as it was. -/
def Reads (tree : Value) : Prop :=
  ∀ text, tree.print? = some text → readTree (.ofString text) = .ok tree

theorem printTree_eq_ok {tree : Value} {text : String} :
    printTree tree = .ok text ↔ tree.print? = some text := by
  unfold printTree
  split <;> simp_all

/-! ## Operations that are collected and applied later -/

namespace Patches

/-- Two lists of operations succeed together just if the second one succeeds on what the first one leaves.
    -/
theorem applyFrom_append_eq_ok {first second : List Patch.Operation} {index : Nat}
    {tree last : Value} :
    applyFrom index tree (first ++ second) = .ok last ↔
      ∃ middle, applyFrom index tree first = .ok middle ∧
        applyFrom (index + first.length) middle second = .ok last := by
  induction first generalizing index tree with
  | nil => simp [applyFrom]
  | cons operation rest ih =>
    simp only [List.cons_append, applyFrom, List.length_cons]
    split
    · rw [ih, show index + 1 + rest.length = index + (rest.length + 1) by omega]
    · simp

/-- From which number on operations are counted shows in errors only. -/
theorem applyFrom_eq_ok_congr {operations : List Patch.Operation} {i j : Nat} {tree last : Value}
    (applied : applyFrom i tree operations = .ok last) :
    applyFrom j tree operations = .ok last := by
  induction operations generalizing i j tree with
  | nil => exact applied
  | cons operation rest ih =>
    simp only [applyFrom] at applied ⊢
    split at applied
    · exact ih applied
    · nomatch applied

/-- What a file adds depends on the file only. -/
theorem add_eq_ok {patches added : Patches} {file : Yaml.Source} :
    patches.add file = .ok added ↔
      ∃ fresh, none.add file = .ok fresh ∧
        added = ⟨patches.operations ++ fresh.operations⟩ := by
  unfold add
  cases Patch.readOps file with
  | error fault => simp
  | ok operations => simp [none, eq_comm]

/-- A document is patched by reading, applying and printing. -/
theorem patch_eq_ok {patches : Patches} {document : Yaml.Source} {text : String} :
    patches.patch document = .ok text ↔
      ∃ tree patched, readTree document = .ok tree ∧ patches.apply tree = .ok patched ∧
        patched.print? = some text := by
  unfold patch
  cases readTree document with
  | error e => simp
  | ok tree => cases applied : patches.apply tree <;> simp [applied, printTree_eq_ok]

end Patches

namespace Resolver

variable {r : Resolver} {space : String}

/-- What a deployment adds by a reference depends on the file only. -/
theorem addOps_eq_ok {patches added : Patches} {reference : ResourceReference} :
    r.addOps space patches reference = .ok added ↔
      ∃ fresh, r.addOps space .none reference = .ok fresh ∧
        added = ⟨patches.operations ++ fresh.operations⟩ := by
  simp only [addOps, bind_eq_ok, mapError_eq_ok]
  constructor
  · rintro ⟨file, fetched, read⟩
    obtain ⟨fresh, alone, rfl⟩ := Patches.add_eq_ok.mp read
    exact ⟨fresh, ⟨file, fetched, alone⟩, rfl⟩
  · rintro ⟨fresh, ⟨file, fetched, alone⟩, rfl⟩
    exact ⟨file, fetched, Patches.add_eq_ok.mpr ⟨fresh, alone, rfl⟩⟩

/-! ## The trees behind the ops files -/

/-- The tree of a document after the operations of some ops files have been applied to it. -/
def treeAfter (r : Resolver) (space document : String) (files : List ResourceReference) :
    Except StageError Value := do
  let patches ← files.foldlM (r.addOps space) .none
  let tree ← (readTree (.ofString document)).mapError StageError.applyOps
  (patches.apply tree).mapError StageError.applyOps

/-- The tree behind some files, by their operations taken together. -/
theorem treeAfter_eq_ok {document : String} {files : List ResourceReference} {last : Value} :
    r.treeAfter space document files = .ok last ↔
      ∃ patches tree, files.foldlM (r.addOps space) .none = .ok patches ∧
        readTree (.ofString document) = .ok tree ∧ patches.apply tree = .ok last := by
  simp only [treeAfter, bind_eq_ok, mapError_eq_ok]
  constructor
  · rintro ⟨patches, collected, tree, read, applied⟩
    exact ⟨patches, tree, collected, read, applied⟩
  · rintro ⟨patches, tree, collected, read, applied⟩
    exact ⟨patches, collected, tree, read, applied⟩

/-- A tree that is reached behind some of the ops files of a deployment, but not behind all. -/
def IsIntermediate (r : Resolver) (space : String) (spec : DeploymentSpec) (tree : Value) : Prop :=
  ∃ document k, r.fetchManifest space spec.manifest = .ok document ∧
    0 < k ∧ k < spec.ops.length ∧ r.treeAfter space document (spec.ops.take k) = .ok tree

/-- One more ops file applies its own operations to the tree so far. -/
theorem treeAfter_concat {document : String} {files : List ResourceReference}
    {file : ResourceReference} {last : Value} :
    r.treeAfter space document (files ++ [file]) = .ok last ↔
      ∃ tree fresh, r.treeAfter space document files = .ok tree ∧
        r.addOps space .none file = .ok fresh ∧ fresh.apply tree = .ok last := by
  simp only [treeAfter_eq_ok, List.foldlM_append, List.foldlM_cons, List.foldlM_nil,
    bind_pure, bind_eq_ok]
  constructor
  · rintro ⟨_, tree, ⟨patches, collected, added⟩, read, applied⟩
    obtain ⟨fresh, alone, rfl⟩ := addOps_eq_ok.mp added
    obtain ⟨middle, before, behind⟩ := Patches.applyFrom_append_eq_ok.mp applied
    exact ⟨middle, fresh, ⟨patches, tree, collected, read, before⟩, alone,
      Patches.applyFrom_eq_ok_congr behind⟩
  · rintro ⟨middle, fresh, ⟨patches, tree, collected, read, before⟩, alone, behind⟩
    refine ⟨_, tree, ⟨patches, collected, addOps_eq_ok.mpr ⟨fresh, alone, rfl⟩⟩, read, ?_⟩
    exact Patches.applyFrom_append_eq_ok.mpr
      ⟨middle, before, Patches.applyFrom_eq_ok_congr behind⟩

/-- One file by itself: it is fetched and read, and the document is read, changed and printed. -/
theorem applyOpsFile_eq_ok {document text : String} {file : ResourceReference} :
    r.applyOpsFile space document file = .ok text ↔
      ∃ fresh tree last, r.addOps space .none file = .ok fresh ∧
        readTree (.ofString document) = .ok tree ∧ fresh.apply tree = .ok last ∧
        last.print? = some text := by
  simp only [applyOpsFile, bind_eq_ok, mapError_eq_ok, Patches.patch_eq_ok]
  constructor
  · rintro ⟨fresh, alone, tree, last, read, applied, printed⟩
    exact ⟨fresh, tree, last, alone, read, applied, printed⟩
  · rintro ⟨fresh, tree, last, alone, read, applied, printed⟩
    exact ⟨fresh, alone, tree, last, read, applied, printed⟩

theorem treeAfter_nil {document : String} {tree : Value} :
    r.treeAfter space document [] = .ok tree ↔ readTree (.ofString document) = .ok tree := by
  simp [treeAfter_eq_ok, pure, Except.pure, Patches.apply, Patches.none, Patches.applyFrom]

/-- The documents along the ops files are the printed trees, as long as the trees before the last
    one read back.  The induction is on the files from the end: the last file reads the document
    that the files before it have left. -/
theorem foldlM_applyOpsFile_eq_ok {document text : String} {files : List ResourceReference}
    (nonempty : files ≠ [])
    (reads : ∀ k tree, 0 < k → k < files.length →
      r.treeAfter space document (files.take k) = .ok tree → Reads tree) :
    files.foldlM (r.applyOpsFile space) document = .ok text ↔
      (∃ last, r.treeAfter space document files = .ok last ∧ last.print? = some text) ∧
        ∀ k tree, 0 < k → k < files.length →
          r.treeAfter space document (files.take k) = .ok tree → tree.print?.isSome := by
  -- the induction takes the last file off: those in front have left a text, which is read again
  induction files using List.reverseRecOn generalizing text with
  | nil => exact absurd rfl nonempty
  | append_singleton files file ih =>
    rw [List.foldlM_append]
    simp only [List.foldlM_cons, List.foldlM_nil, bind_pure, bind_eq_ok, applyOpsFile_eq_ok,
      treeAfter_concat, List.length_append, List.length_singleton]
    -- the first file is applied to the document itself, which is no intermediate tree
    by_cases first : files = []
    · subst first
      simp only [List.foldlM_nil, pure, Except.pure, Except.ok.injEq, exists_eq_left',
        treeAfter_nil, List.length_nil]
      constructor
      · rintro ⟨fresh, tree, last, alone, read, applied, printed⟩
        exact ⟨⟨last, ⟨tree, fresh, read, alone, applied⟩, printed⟩, by omega⟩
      · rintro ⟨⟨last, ⟨tree, fresh, read, alone, applied⟩, printed⟩, -⟩
        exact ⟨fresh, tree, last, alone, read, applied, printed⟩
    · have positive : 0 < files.length := List.length_pos_iff.mpr first
      have take_before : ∀ k, k ≤ files.length → (files ++ [file]).take k = files.take k :=
        fun k le => List.take_append_of_le_length le
      have here : (files ++ [file]).take files.length = files := by simp
      have ih := fun text => @ih text first fun k tree low high reached =>
        reads k tree low (by simp; omega) (by rwa [take_before k (by omega)])
      have reads_here : ∀ tree, r.treeAfter space document files = .ok tree → Reads tree :=
        fun tree reached => reads files.length tree positive (by simp) (by rwa [here])
      constructor
      · rintro ⟨left, folded, fresh, tree, last, alone, read, applied, printed⟩
        obtain ⟨⟨middle, reached, left_printed⟩, printable⟩ := (ih left).mp folded
        -- the text of an intermediate tree is read as this tree
        have same : tree = middle := by
          have := reads_here middle reached left left_printed
          simpa [read] using this
        subst same
        refine ⟨⟨last, ⟨tree, fresh, reached, alone, applied⟩, printed⟩, ?_⟩
        intro k other low high other_reached
        rw [take_before k (by omega)] at other_reached
        rcases Nat.lt_or_eq_of_le (Nat.le_of_lt_succ high) with before | rfl
        · exact printable k other low before other_reached
        · rw [List.take_length, reached] at other_reached
          cases other_reached
          simp [left_printed]
      · rintro ⟨⟨last, ⟨middle, fresh, reached, alone, applied⟩, printed⟩, printable⟩
        obtain ⟨left, left_printed⟩ := Option.isSome_iff_exists.mp
          (printable files.length middle positive (by omega) (by rwa [here]))
        have folded : files.foldlM (r.applyOpsFile space) document = .ok left := by
          refine (ih left).mpr ⟨⟨middle, reached, left_printed⟩, ?_⟩
          intro k tree low high tree_reached
          exact printable k tree low (by omega) (by rwa [take_before k (by omega)])
        exact ⟨left, folded, fresh, middle, last, alone,
          reads_here middle reached left left_printed, applied, printed⟩

/-! ## Loading and resolving -/

/-- A manifest with ops files is loaded from the text of the tree behind all of them. -/
theorem load_eq_ok {spec : DeploymentSpec} {m : Manifest} (nonempty : spec.ops ≠ []) :
    r.load space spec = .ok m ↔
      ∃ document last text, r.fetchManifest space spec.manifest = .ok document ∧
        r.treeAfter space document spec.ops = .ok last ∧ last.print? = some text ∧
        parseAfter .ops text = .ok m := by
  have some_ops : spec.ops.isEmpty = false := by simpa using nonempty
  simp only [load, bind_eq_ok, some_ops, Bool.false_eq_true, if_false, mapError_eq_ok,
    Patches.patch_eq_ok, treeAfter_eq_ok]
  constructor
  · rintro ⟨document, fetched, patches, collected, text, ⟨tree, last, read, applied, printed⟩, parsed⟩
    exact ⟨document, last, text, fetched, ⟨patches, tree, collected, read, applied⟩, printed, parsed⟩
  · rintro ⟨document, last, text, fetched, ⟨patches, tree, collected, read, applied⟩, printed, parsed⟩
    exact ⟨document, fetched, patches, collected, text, ⟨tree, last, read, applied, printed⟩, parsed⟩

/-- Both ways of loading agree where all intermediate trees read back. -/
theorem loadDetailed_eq_ok_iff {spec : DeploymentSpec} {m : Manifest}
    (reads : ∀ tree, r.IsIntermediate space spec tree → Reads tree) :
    r.loadDetailed space spec = .ok m ↔
      r.load space spec = .ok m ∧
        ∀ tree, r.IsIntermediate space spec tree → tree.print?.isSome := by
  -- without ops files the document itself is parsed, and there are no trees in between
  by_cases none : spec.ops = []
  · have not_intermediate : ∀ tree, ¬ r.IsIntermediate space spec tree := by
      rintro tree ⟨document, k, -, low, high, -⟩
      simp [none] at high
    have same : r.loadDetailed space spec = r.load space spec := by
      simp [loadDetailed, load, none, bind, Except.bind, pure, Except.pure]
    simp [same, not_intermediate]
  · rw [load_eq_ok none]
    simp only [loadDetailed, bind_eq_ok]
    constructor
    · rintro ⟨document, fetched, text, folded, parsed⟩
      have reads_here := fun k tree low high reached =>
        reads tree ⟨document, k, fetched, low, high, reached⟩
      obtain ⟨⟨last, reached, printed⟩, printable⟩ :=
        (foldlM_applyOpsFile_eq_ok none reads_here).mp folded
      refine ⟨⟨document, last, text, fetched, reached, printed, parsed⟩, ?_⟩
      rintro tree ⟨other, k, other_fetched, low, high, tree_reached⟩
      obtain rfl : document = other := by simpa [fetched] using other_fetched
      exact printable k tree low high tree_reached
    · rintro ⟨⟨document, last, text, fetched, reached, printed, parsed⟩, printable⟩
      refine ⟨document, fetched, text, ?_, parsed⟩
      refine (foldlM_applyOpsFile_eq_ok none fun k tree low high tree_reached =>
        reads tree ⟨document, k, fetched, low, high, tree_reached⟩).mpr ⟨⟨last, reached, printed⟩, ?_⟩
      intro k tree low high tree_reached
      exact printable tree ⟨document, k, fetched, low, high, tree_reached⟩

theorem blame_eq_ok {α : Type} {deployment : String} {result : Except StageError α} {x : α} :
    blame deployment space result = .ok x ↔ result = .ok x :=
  mapError_eq_ok

/-- Applying ops files one by one succeeds with a manifest if and only if applying them all at once
    does and every tree in between can be printed, provided that the printed ones read back.  So
    what fails at once also fails one by one. -/
theorem manifestDetailed_eq_ok_iff (r : Resolver) (d : Deployment) (space : String)
    (reads : ∀ tree, r.IsIntermediate space d.spec tree → Reads tree) :
    (∀ m, r.manifestDetailed d space = .ok m ↔
      r.manifest d space = .ok m ∧
        ∀ tree, r.IsIntermediate space d.spec tree → tree.print?.isSome) ∧
    ((∃ e, r.manifest d space = .error e) → ∃ e, r.manifestDetailed d space = .error e) := by
  have agree : ∀ m, r.manifestDetailed d space = .ok m ↔
      r.manifest d space = .ok m ∧
        ∀ tree, r.IsIntermediate space d.spec tree → tree.print?.isSome := by
    intro m
    simp only [manifestDetailed, manifest, blame_eq_ok, bind_eq_ok, loadDetailed_eq_ok_iff reads]
    constructor
    · rintro ⟨loaded, ⟨load_ok, printable⟩, finished⟩
      exact ⟨⟨loaded, load_ok, finished⟩, printable⟩
    · rintro ⟨⟨loaded, load_ok, finished⟩, printable⟩
      exact ⟨loaded, ⟨load_ok, printable⟩, finished⟩
  refine ⟨agree, ?_⟩
  rintro ⟨e, failed⟩
  -- had it succeeded, then so would the other one
  cases detailed : r.manifestDetailed d space with
  | error e => exact ⟨e, rfl⟩
  | ok m =>
    have at_once := ((agree m).mp detailed).1
    rw [failed] at at_once
    nomatch at_once

/-- A manifest and two ops files, the second of which changes what the first has put in. -/
def patchedWorld : World where
  configMap _ name :=
    if name == "manifest" then .found (.single manifestKey "name: a\n")
    else if name == "create" then
      .found (.single opsKey "- [replace, /tags?/owner, '1']")
    else if name == "change" then
      .found (.single opsKey "- [replace, /tags/owner, b]")
    else .absent
  secret _ _ := .absent
  page _ := none

/-- A resolver in a world with two ops files. -/
def patchedResolver : Resolver := ⟨patchedWorld, true, false⟩

/-- A deployment that refers to both of them. -/
def patchedDeployment : Deployment where
  metadata := ⟨some "a", none, none⟩
  spec := ⟨⟨"manifest", .configMap⟩, [⟨"create", .configMap⟩, ⟨"change", .configMap⟩], []⟩

/-- The tree behind the first ops file. -/
def patchedOnce : Value :=
  .map [(.string "name", .string "a"), (.string "tags", .map [(.string "owner", .string "1")])]

/-- A text that looks like a number is quoted in between, and so reads back as a text. -/
theorem manifestDetailed_eq_ok_iff_patched :
    patchedResolver.IsIntermediate "cf" patchedDeployment.spec patchedOnce ∧
    (∀ tree, patchedResolver.IsIntermediate "cf" patchedDeployment.spec tree → Reads tree) ∧
    (∀ m, patchedResolver.manifestDetailed patchedDeployment "cf" = .ok m ↔
      patchedResolver.manifest patchedDeployment "cf" = .ok m ∧
        ∀ tree, patchedResolver.IsIntermediate "cf" patchedDeployment.spec tree →
          tree.print?.isSome) := by
  have fetch : patchedResolver.fetchManifest "cf" patchedDeployment.spec.manifest =
      .ok "name: a\n" := by decide +kernel
  have once : patchedResolver.treeAfter "cf" "name: a\n" (patchedDeployment.spec.ops.take 1) =
      .ok patchedOnce := by decide +kernel
  have print : patchedOnce.print? = some "name: a\ntags:\n  owner: '1'\n" := by decide +kernel
  have read : readTree (.ofString "name: a\ntags:\n  owner: '1'\n") = .ok patchedOnce := by
    decide +kernel
  have reads : ∀ tree, patchedResolver.IsIntermediate "cf" patchedDeployment.spec tree →
      Reads tree := by
    -- of two files there is one tree in between
    rintro tree ⟨document, k, fetched, low, high, reached⟩
    obtain rfl : "name: a\n" = document := by simpa [fetch] using fetched
    obtain rfl : k = 1 := by
      change k < 2 at high
      omega
    obtain rfl : patchedOnce = tree := by simpa [once] using reached
    intro text printed
    obtain rfl : _ = text := by simpa [print] using printed
    exact read
  exact ⟨⟨_, 1, fetch, by decide, by decide, once⟩, reads,
    (manifestDetailed_eq_ok_iff patchedResolver patchedDeployment "cf" reads).1⟩

end Resolver
end DeployManifest
