import DeployManifest.Proofs.KeyOrder
import DeployManifest.Proofs.Spelling
import DeployManifest.Proofs.StableReaders
import DeployManifest.Proofs.StagedOps
import DeployManifest.Proofs.Substitution

/-!
# Passing a document through

A manifest can be read straight from a document, or from the text that the document's tree is printed as
after no operations have been applied to it, or no values put in.  The second way loses how plain scalars
are spelled: a version `1.10` is the number 1.1 in the tree, and the text `1.10` in a manifest that is read
straight from the document (`not_forall_parse_printed`).  That is all that can be lost: where every plain
scalar is spelled as its value is printed, and every tag is local, both ways give the same manifest, and a
deployment with an empty ops file is resolved like one without ops files (`parse_passed_through`).

- `becomes_nil`: without values, a tree becomes itself.
- `evaluate_nil`: so evaluation gives back the tree that the document was read as.
- `parse_printed`: the manifest of a printed tree is that of the document, if it is spelled as it is
  printed.
- `Resolver.load_nil`, `Resolver.load_empty`: loading without ops files, and with an empty one.
-/

namespace DeployManifest

open Yaml (Value Source Document Node View)
open Bindings (StandsFor)

/-! ## Without values -/

/-- Without values no name stands for anything. -/
theorem not_standsFor_nil {name : List Char} {v : Value} : ¬ StandsFor [] name v := by
  have unbound : ∀ (name : String) (v : Value), ¬ Bindings.Binds [] name v := by
    rintro name v ⟨front, table, back, nothing, -⟩
    simp at nothing
  rintro (bound | ⟨-, -, bound, -⟩)
  · exact unbound _ _ bound
  · exact unbound _ _ bound

/-- Without values the pieces of a text stay as they are. -/
theorem piecesBecome_nil (parts : List Piece) : PiecesBecome [] parts (parts.flatMap Piece.written) := by
  induction parts with
  | nil => exact .nil
  | cons piece rest ih =>
    refine .cons ?_ ih
    cases piece with
    | char c => exact .char c
    | placeholder p => exact .kept fun _ => not_standsFor_nil

/-- Without values a string stays as it is. -/
theorem textBecomes_nil (s : String) : TextBecomes [] s (.string s) := by
  by_cases only : ∃ p : Placeholder, p.IsProper ∧ s.toList = p.written
  · obtain ⟨p, proper, only⟩ := only
    exact .unresolved proper only fun _ => not_standsFor_nil
  · have covers := Piece.covers_pieces s.toList
    have become := piecesBecome_nil (Piece.pieces s.toList)
    -- put together again, the pieces are the string
    rw [covers.whole] at become
    have within := TextBecomes.within (fun p proper same => only ⟨p, proper, same⟩) covers become
    rwa [String.ofList_toList] at within

/-- Without values a key stays as it is. -/
theorem keyBecomes_nil (k : Value) : KeyBecomes [] k k := by
  by_cases string : ∃ s, k = .string s
  · obtain ⟨s, rfl⟩ := string
    exact .string (textBecomes_nil s)
  · exact .other fun s same => string ⟨s, same⟩

/-- Items stay as they are if each of them does. -/
theorem itemsBecome_nil {items : List Value} (all : ∀ v ∈ items, Becomes [] v v) :
    ItemsBecome [] items items := by
  induction items with
  | nil => exact .nil
  | cons v rest ih =>
    obtain ⟨first, others⟩ := List.forall_mem_cons.mp all
    exact .cons first (ih others)

/-- Entries stay as they are if each value does. -/
theorem entriesBecome_nil {entries : List (Value × Value)} (all : ∀ e ∈ entries, Becomes [] e.2 e.2) :
    EntriesBecome [] entries entries := by
  induction entries with
  | nil => exact .nil
  | cons e rest ih =>
    obtain ⟨first, others⟩ := List.forall_mem_cons.mp all
    exact .cons (keyBecomes_nil e.1) first (ih others)

/-- Scalars stay as they are, under a local tag as well. -/
theorem becomes_scalar {tag? : Option Text.Bytes} {style : Yaml.Style} {text : String} {v : Value}
    (read : Yaml.scalarValue? tag? style text = some v) : Becomes [] v v := by
  have bare : ∀ w, Yaml.scalarValue? none style text = some w → Becomes [] w w := by
    intro w read
    simp only [Yaml.scalarValue?] at read
    split at read
    · split at read
      · obtain rfl := Option.some.inj read
        exact .null
      · obtain rfl := Option.some.inj read
        exact .bool _
      · obtain ⟨-, ⟨⟩⟩ := Option.ite_none_right_eq_some.mp read
        exact .int _
      · obtain rfl := Option.some.inj read
        exact .float _
      · obtain rfl := Option.some.inj read
        exact .string (textBecomes_nil text)
    · obtain rfl := Option.some.inj read
      exact .string (textBecomes_nil text)
  -- a tag of a type picks the reading; a local one stands around the bare scalar
  cases tag? with
  | none => exact bare v read
  | some tag =>
    simp only [Yaml.scalarValue?] at read
    split at read
    · obtain ⟨w, written, rfl⟩ := Option.map_eq_some_iff.mp read
      exact .tagged (bare w written)
    · split at read
      · obtain ⟨b, -, rfl⟩ := Option.map_eq_some_iff.mp read
        exact .bool b
      split at read
      · obtain ⟨n, -, rfl⟩ := Option.map_eq_some_iff.mp read
        exact .int n
      split at read
      · obtain ⟨x, -, rfl⟩ := Option.map_eq_some_iff.mp read
        exact .float x
      split at read
      · obtain ⟨-, ⟨⟩⟩ := Option.ite_none_right_eq_some.mp read
        exact .null
      split at read
      · exact bare v read
      · obtain rfl := Option.some.inj read
        exact .string (textBecomes_nil text)

/-- A tag stays what it is. -/
theorem becomes_addTag {props : Yaml.Props} {v : Value} (become : Becomes [] v v) :
    Becomes [] (Node.addTag props v) (Node.addTag props v) := by
  unfold Node.addTag
  split
  · exact .tagged become
  · exact become

/-- The keys of a mapping that could be read are different. -/
theorem pairwise_of_areDistinct {entries : Yaml.Entries} (distinct : Node.areDistinct entries = true) :
    entries.Pairwise fun a b => a.1.same b.1 = false := by
  induction entries with
  | nil => exact .nil
  | cons first rest ih =>
    simp only [Node.areDistinct, Bool.and_eq_true, Bool.not_eq_true', List.any_eq_false,
      Bool.not_eq_true] at distinct
    exact .cons distinct.1 (ih distinct.2)

/-- Without values the tree of a document stays as it is.  Its mappings keep their entries because no key
    occurs twice in them. -/
theorem becomes_nil {anchors : List (Nat × Node)} : ∀ (fuel : Nat) {here : Node} {v : Value},
    here.value? anchors fuel = some v → Becomes [] v v := by
  intro fuel
  induction fuel with
  | zero => intro here v read; cases read
  | succ fuel ih =>
    intro here v read
    cases Node.hasTree_of_value? read with
    | scalar followed stands => exact becomes_scalar stands
    | seq followed deep inside =>
      have all := Yaml.forall_of_forall₂ inside fun _ _ here => ih here
      exact becomes_addTag (.seq (itemsBecome_nil all))
    | @map props entries found followed deep inside distinct =>
      have all : ∀ e ∈ found, Becomes [] e.2 e.2 :=
        Yaml.forall_of_forall₂ inside fun _ _ here => ih here.2
      have become := Becomes.map (entriesBecome_nil all)
      -- the entries are put in one after another, and none of them replaces an earlier one
      rw [Value.insertAll_eq_self (pairwise_of_areDistinct distinct)] at become
      exact becomes_addTag become

/-! ## Documents that are passed through -/

/-- Whether a document is spelled as its tree is printed. -/
def Yaml.Source.isAsPrinted (document : Source) : Bool :=
  (Document.ofSource? document).all fun found => found.root.isAsPrinted

/-- The anchors of a document are those of its nodes, the last one first. -/
theorem anchors_of_ofSource? {document : Source} {found : Document}
    (read : Document.ofSource? document = some found) : found.anchors = found.root.anchored.reverse := by
  obtain ⟨tokens, -, read⟩ := Option.bind_eq_some_iff.mp read
  unfold Document.ofTokens? at read
  extract_lets begun at read
  clear_value begun
  cases begun with
  | none => nomatch read
  | some root =>
    obtain ⟨-, ⟨⟩⟩ := Option.ite_none_right_eq_some.mp read
    rfl

/-- A source has a tree if its document has one, and its references do not repeat too much. -/
theorem readTree_eq_ok {document : Source} {tree : Value} :
    readTree document = .ok tree ↔
      ∃ found, Document.ofSource? document = some found ∧ found.isExplosive .whole = false ∧
        found.root.value? found.anchors (Yaml.maxDepth + 1) = some tree := by
  have view : (View.ofSource? document).bind View.value? = some tree ↔
      ∃ found, Document.ofSource? document = some found ∧ found.isExplosive .whole = false ∧
        found.root.value? found.anchors (Yaml.maxDepth + 1) = some tree := by
    simp [View.ofSource?, Option.bind_eq_some_iff, View.ofSourceWithin?_eq_some_iff, View.ofDocument,
      View.value?, and_assoc]
  rw [← view]
  unfold readTree
  split
  · next tree' found => simp [found]
  · next nothing => simp [nothing]

/-- A manifest is read from the document in a source, within the outline of manifests. -/
theorem parse_eq_ok {document : Source} {m : Manifest} :
    Manifest.parse document = .ok m ↔
      ∃ view, View.ofSourceWithin? Manifest.outline document = some view ∧ Manifest.ofView? view = some m := by
  rw [← Option.bind_eq_some_iff]
  unfold Manifest.parse Yaml.readOr
  split
  · next found => simp [found]
  · next nothing => simp [nothing]

/-- Without operations only the spelling of a document changes. -/
theorem Patches.patch_none {document : Source} {tree : Value} {text : String}
    (read : readTree document = .ok tree) (printed : tree.print? = some text) :
    Patches.none.patch document = .ok text :=
  Patches.patch_eq_ok.mpr ⟨tree, tree, read, rfl, printed⟩

/-- Without values only the spelling of a document changes. -/
theorem evaluate_nil {document : Source} {tree : Value} {text : String}
    (read : readTree document = .ok tree) (printed : tree.print? = some text) :
    evaluate document [] ⟨false, false⟩ = .ok text := by
  obtain ⟨found, -, -, value⟩ := readTree_eq_ok.mp read
  obtain ⟨usage, put⟩ := (Interpolation.tree_eq_ok_iff [] tree tree .none).mpr (becomes_nil _ value)
  have same : interpolateChecked [] ⟨false, false⟩ tree = .ok tree := by
    simp [interpolateChecked, interpolate, put]
  simp only [evaluate, read, same]
  exact printTree_eq_ok.mpr printed

/-- The text that the tree of a document is printed as is read as the same manifest as the document, if
    the document is spelled as it is printed. -/
theorem parse_printed {document : Source} {m : Manifest} {tree : Value} {text : String}
    (spelled : document.isAsPrinted = true) (parsed : Manifest.parse document = .ok m)
    (read : readTree document = .ok tree) (printed : tree.print? = some text) :
    Manifest.parse (.ofString text) = .ok m := by
  obtain ⟨found, source, -, value⟩ := readTree_eq_ok.mp read
  obtain ⟨view, within, typed⟩ := parse_eq_ok.mp parsed
  obtain ⟨found', source', -, rfl⟩ := View.ofSourceWithin?_eq_some_iff.mp within
  obtain rfl : found = found' := Option.some.inj (source.symm.trans source')
  -- the anchored nodes are parts of the root, so they are spelled as they are printed, too
  have root_spelled : found.root.isAsPrinted = true := by
    simpa [Source.isAsPrinted, source] using spelled
  have anchored : ∀ anchor ∈ found.anchors, anchor.2.isAsPrinted = true := by
    rw [anchors_of_ofSource? source]
    exact fun anchor mem => Node.anchored_isAsPrinted _ root_spelled _ (List.mem_reverse.mp mem)
  obtain ⟨legible, alike⟩ := Yaml.isShown_of_value? anchored _ root_spelled value
  obtain ⟨printable, rfl⟩ : tree.isPrintable .free = true ∧ tree.render = text :=
    Option.ite_none_right_eq_some.mp printed |>.imp_right Option.some.inj
  -- what is printed has no anchors, so any numbers for them do
  have reread := View.ofSourceWithin?_render printable legible (fun _ => 0) Manifest.outline
  refine parse_eq_ok.mpr ⟨_, reread, ?_⟩
  rw [← typed]
  exact ((alike fun _ => 0).read_eq Manifest.ofView?).symm

/-! ## An empty ops file -/

section

variable {r : Resolver} {space fetched : String} {m : Manifest}

theorem parseAfter_eq_ok {stage : Stage} {document : String} :
    parseAfter stage document = .ok m ↔ Manifest.parse (.ofString document) = .ok m := mapError_eq_ok

/-- Without ops files a manifest is read straight from the document, whichever way ops files are applied. -/
theorem Resolver.load_nil {spec : DeploymentSpec} (fetch : r.fetchManifest space spec.manifest = .ok fetched)
    (parsed : Manifest.parse (.ofString fetched) = .ok m) :
    r.load space { spec with ops := [] } = .ok m ∧ r.loadDetailed space { spec with ops := [] } = .ok m := by
  have after := (@parseAfter_eq_ok m .ops fetched).mpr parsed
  constructor
  · simp only [load, bind_eq_ok, List.isEmpty_nil, if_true]
    exact ⟨fetched, fetch, .none, rfl, fetched, rfl, after⟩
  · simp only [loadDetailed, bind_eq_ok]
    exact ⟨fetched, fetch, fetched, rfl, after⟩

/-- With an empty ops file a manifest is read from the text that the tree of the document is printed as. -/
theorem Resolver.load_empty {spec : DeploymentSpec} {file : ResourceReference} {text : String}
    (fetch : r.fetchManifest space spec.manifest = .ok fetched)
    (empty : r.addOps space .none file = .ok .none)
    (passed : Patches.none.patch (.ofString fetched) = .ok text)
    (parsed : Manifest.parse (.ofString text) = .ok m) :
    r.load space { spec with ops := [file] } = .ok m ∧
      r.loadDetailed space { spec with ops := [file] } = .ok m := by
  have after := (@parseAfter_eq_ok m .ops text).mpr parsed
  -- no operations are collected, and applying none prints the tree
  have collected : [file].foldlM (r.addOps space) .none = .ok .none := by
    simp [List.foldlM, empty, bind, Except.bind, pure, Except.pure]
  have applied : r.applyOpsFile space fetched file = .ok text := by
    simp only [applyOpsFile, bind_eq_ok]
    exact ⟨.none, empty, mapError_eq_ok.mpr passed⟩
  constructor
  · simp only [load, bind_eq_ok, List.isEmpty_cons, Bool.false_eq_true, if_false]
    exact ⟨fetched, fetch, .none, collected, text, mapError_eq_ok.mpr passed, after⟩
  · simp only [loadDetailed, bind_eq_ok]
    refine ⟨fetched, fetch, text, ?_, after⟩
    simp [List.foldlM, applied, bind, Except.bind, pure, Except.pure]

end

/-- Passing a document through without operations, or without values, changes no manifest if the document
    is spelled as it is printed; and then an empty ops file changes no deployment. -/
theorem parse_passed_through {document : Source} {m : Manifest} {tree : Value} {text : String}
    (spelled : document.isAsPrinted = true) (parsed : Manifest.parse document = .ok m)
    (read : readTree document = .ok tree) (printed : tree.print? = some text) :
    (Patches.none.patch document = .ok text ∧ evaluate document [] ⟨false, false⟩ = .ok text ∧
      Manifest.parse (.ofString text) = .ok m) ∧
    ∀ (r : Resolver) (space fetched : String) (d : Deployment) (file : ResourceReference),
      document = .ofString fetched → r.fetchManifest space d.spec.manifest = .ok fetched →
      r.addOps space .none file = .ok .none →
      r.resolve { d with spec.ops := [file] } space = r.resolve { d with spec.ops := [] } space := by
  have passed := Patches.patch_none read printed
  have reparsed := parse_printed spelled parsed read printed
  refine ⟨⟨passed, evaluate_nil read printed, reparsed⟩, ?_⟩
  rintro r space fetched d file rfl fetch empty
  obtain ⟨at_once, one_by_one⟩ := Resolver.load_empty fetch empty passed reparsed
  obtain ⟨at_once', one_by_one'⟩ := Resolver.load_nil fetch parsed
  unfold Resolver.resolve Resolver.manifest Resolver.manifestDetailed
  simp only [at_once, one_by_one, at_once', one_by_one']
  rfl

/-- A version in quotes, which keep its last zero. -/
def quotedVersion : String := "releases: [\x7bname: nats, version: \"1.10\"\x7d]\n"

/-- A manifest with such a version and an ops file without operations. -/
def idleWorld : World where
  configMap _ name :=
    if name == "manifest" then .found (.single manifestKey quotedVersion)
    else if name == "idle" then .found (.single opsKey "[]")
    else .absent
  secret _ _ := .absent
  page _ := none

/-- A resolver that looks nowhere. -/
def idleResolver : Resolver := ⟨idleWorld, true, false⟩

/-- A deployment with a manifest and nothing else. -/
def plainDeployment : Deployment := ⟨⟨some "a", none, none⟩, ⟨⟨"manifest", .configMap⟩, [], []⟩⟩

/-- Brackets and quotes may be used in other ways than in print. -/
theorem parse_passed_through_quoted :
    (Source.ofString quotedVersion).isAsPrinted = true ∧
    ∃ m text, Manifest.parse (.ofString quotedVersion) = .ok m ∧
      (Patches.none.patch (.ofString quotedVersion) = .ok text ∧
        evaluate (.ofString quotedVersion) [] ⟨false, false⟩ = .ok text ∧
        Manifest.parse (.ofString text) = .ok m) ∧
      idleResolver.resolve { plainDeployment with spec.ops := [⟨"idle", .configMap⟩] } "cf" =
        idleResolver.resolve { plainDeployment with spec.ops := [] } "cf" := by
  have spelled : (Source.ofString quotedVersion).isAsPrinted = true := by decide +kernel
  have is_read : (Manifest.parse (.ofString quotedVersion)).isOk = true := by decide +kernel
  obtain ⟨m, parsed⟩ : ∃ m, Manifest.parse (.ofString quotedVersion) = .ok m := by
    cases outcome : Manifest.parse (.ofString quotedVersion) with
    | error e => rw [outcome] at is_read; nomatch is_read
    | ok m => exact ⟨m, rfl⟩
  have tree : readTree (.ofString quotedVersion) = .ok (.map [(.string "releases",
      .seq [.map [(.string "name", .string "nats"), (.string "version", .string "1.10")]])]) := by
    decide +kernel
  obtain ⟨same, passed⟩ := parse_passed_through spelled parsed tree rfl
  refine ⟨spelled, m, _, parsed, same, passed _ _ _ _ _ rfl ?_ ?_⟩
  · decide +kernel
  · rfl

/-- The versions of the releases in a document, if it can be read. -/
def releaseVersions (document : Source) : Option (List String) :=
  (Manifest.parse document).toOption.map fun m => m.releases.map Release.version

/-- A version with a needless zero and without quotes. -/
def unquotedVersion : Source := .ofString "releases:\n- name: nats\n  version: 1.10\n"

/-- Without the condition it fails: the tree holds a number, and the zero is lost. -/
theorem not_forall_parse_printed :
    ¬ ∀ (document : Source) (m : Manifest) (tree : Value) (text : String),
      Manifest.parse document = .ok m → readTree document = .ok tree → tree.print? = some text →
      ∃ passed, Patches.none.patch document = .ok passed ∧ Manifest.parse (.ofString passed) = .ok m := by
  intro all
  have before : releaseVersions unquotedVersion = some ["1.10"] := by decide +kernel
  have after : releaseVersions (.ofString "releases:\n- name: nats\n  version: 1.1\n") = some ["1.1"] := by
    decide +kernel
  have patched : Patches.none.patch unquotedVersion = .ok "releases:\n- name: nats\n  version: 1.1\n" := by
    decide +kernel
  obtain ⟨m, parsed, versions⟩ : ∃ m, Manifest.parse unquotedVersion = .ok m ∧
      m.releases.map Release.version = ["1.10"] := by
    unfold releaseVersions at before
    cases parsed : Manifest.parse unquotedVersion with
    | error e => simp [parsed, Except.toOption] at before
    | ok m => exact ⟨m, rfl, by simpa [parsed, Except.toOption] using before⟩
  -- the document and what it is printed as are parsed by the same claim, with different versions
  obtain ⟨tree, same, read, applied, printed⟩ := Patches.patch_eq_ok.mp patched
  obtain rfl : tree = same := Except.ok.inj applied
  obtain ⟨passed, patched', reparsed⟩ := all _ m tree _ parsed read printed
  obtain rfl := Except.ok.inj (patched.symm.trans patched')
  rw [releaseVersions, reparsed] at after
  have lost : m.releases.map Release.version = ["1.1"] := Option.some.inj after
  rw [versions] at lost
  exact absurd lost (by decide)

end DeployManifest
