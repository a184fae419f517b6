import DeployManifest.Proofs.AlikeViews
import DeployManifest.Proofs.AnchoredPieces

/-!
# Documents with anchors

A piece with anchors is read as a document in which all anchored nodes are scalars: the long texts, each of
them once (`Anchored.puts`), and in front of the references to it (`Anchored.resolves`).  The document has the
tree that the piece without anchors has (`Anchored.sameTree`), as long as no two of the texts share a digest.

- `Node.SameTree`: nodes that have the same tree, one with aliases and one without.
- `isExplosive_of_areScalars`: a document whose anchored nodes are scalars is not explosive.
- `Defines`, `Puts`: the texts that are defined on the way, and the nodes they become.
- `Finds`: references that lead where they should.
-/

namespace DeployManifest.Yaml

/-! ## Nodes with the same tree -/

namespace Node

/-- Whether a node in a document has the tree of a node without references. -/
def SameTree (found : List (Nat × Node)) (here bare : Node) : Prop :=
  ∀ depth, here.value? found depth = bare.value? [] depth

variable {found : List (Nat × Node)} {here bare : Node}

/-- A node that leads to a scalar has the tree of this scalar. -/
theorem sameTree_of_follow? {props props' : Props} {style : Style} {text : String}
    (followed : here.follow? found = some (.scalar props style text)) (same : props.tag? = props'.tag?) :
    SameTree found here (.scalar props' style text) := by
  intro depth
  cases depth with
  | zero => rfl
  | succ depth =>
    rw [value?, followed]
    simp only [same, value?, follow?]

/-- Sequences have the same tree if their items have. -/
theorem sameTree_seq (props : Props) {items items' : List Node}
    (inside : List.Forall₂ (SameTree found) items items') : SameTree found (.seq props items) (.seq props items') := by
  intro depth
  cases depth with
  | zero => rfl
  | succ depth =>
    simp only [value?, follow?]
    rw [View.mapM_eq_of_forall₂ inside fun _ _ same => same depth]

/-- Mappings have the same tree if their entries have. -/
theorem sameTree_map (props : Props) {entries entries' : List (Node × Node)}
    (inside : List.Forall₂ (fun e e' => SameTree found e.1 e'.1 ∧ SameTree found e.2 e'.2) entries entries') :
    SameTree found (.map props entries) (.map props entries') := by
  intro depth
  cases depth with
  | zero => rfl
  | succ depth =>
    simp only [value?, follow?]
    rw [View.mapM_eq_of_forall₂ inside fun e e' same => ?_]
    rw [same.1 depth, same.2 depth]

end Node

/-! ## References to scalars -/

namespace Document

/-- Whether no node among some anchors is entered further. -/
def AreScalars (anchors : List (Nat × Node)) : Prop :=
  ∀ e ∈ anchors, ∃ props style text, e.2 = .scalar props style text

variable {anchors : List (Nat × Node)} {table : List (Nat × Nat)}

/-- Where all anchored nodes are scalars, no alias is followed in any of them. -/
theorem jumpTable_of_areScalars (scalars : AreScalars anchors) (limit rounds : Nat) :
    ∀ e ∈ jumpTable anchors limit rounds, e.2 = 0 := by
  cases rounds with
  | zero => nofun
  | succ rounds =>
    refine List.forall_mem_map.mpr fun e mem => ?_
    obtain ⟨props, style, text, is⟩ := scalars e mem
    simp [is, jumps]

/-- So an alias is followed once. -/
theorem jumps_alias (flat : ∀ e ∈ table, e.2 = 0) (n : Nat) : jumps table (.alias n) = 1 := by
  have none_behind : (table.lookup n).getD 0 = 0 := by
    cases found : table.lookup n with
    | none => rfl
    | some m =>
      obtain ⟨before, behind, split, -⟩ := List.lookup_eq_some_iff.mp found
      exact flat (n, m) (by simp [split])
  rw [jumps, none_behind]

mutual

/-- In a node there are no more aliases to follow than it has nodes. -/
theorem jumps_le_size (flat : ∀ e ∈ table, e.2 = 0) : ∀ node : Node, jumps table node ≤ node.size
  | .alias n => by rw [jumps_alias flat n, Node.size]
  | .scalar _ _ _ => by simp [jumps]
  | .seq _ items => by
    have inside := jumpsItems_le_size flat items
    rw [jumps, Node.size]
    omega
  | .map _ entries => by
    have inside := jumpsEntries_le_size flat entries
    rw [jumps, Node.size]
    omega

/-- The same for the items of a sequence. -/
theorem jumpsItems_le_size (flat : ∀ e ∈ table, e.2 = 0) :
    ∀ items : List Node, jumpsItems table items ≤ Node.sizeItems items
  | [] => Nat.le_refl 0
  | item :: rest => Nat.add_le_add (jumps_le_size flat item) (jumpsItems_le_size flat rest)

/-- The same for the entries of a mapping. -/
theorem jumpsEntries_le_size (flat : ∀ e ∈ table, e.2 = 0) :
    ∀ entries : List (Node × Node), jumpsEntries table entries ≤ Node.sizeEntries entries
  | [] => Nat.le_refl 0
  | (k, v) :: rest => Nat.add_le_add (jumps_le_size flat k)
    (Nat.add_le_add (jumps_le_size flat v) (jumpsEntries_le_size flat rest))

end

/-- References to scalars never repeat too much. -/
theorem isExplosive_of_areScalars (scalars : AreScalars anchors) (root : Node) :
    isExplosive .whole ⟨root, anchors⟩ = false := by
  have few := jumps_le_size (jumpTable_of_areScalars scalars (jumpsPerNode * root.size + 1) anchors.length) root
  rw [isExplosive, decide_eq_false_iff_not]
  simp only [Outline.jumps, jumpsPerNode] at few ⊢
  omega

end Document

namespace Piece

variable {Long : String → Prop} {anchors between after final : Anchors} {p m a : Piece}
  {ps ms as : List Piece} {e f g : Piece × Piece} {es fs gs : List (Piece × Piece)}
  {texts more names names' : List String} {nodes nodes' found : List (Nat × Node)}
  {number number' : String → Nat}

/-! ## Anchored texts -/

/-- The anchored node of a text. -/
def target (number : String → Nat) (text : String) : Nat × Node :=
  (number (Digest.ofText text),
    .scalar ⟨some (number (Digest.ofText text)), none⟩ (Leaf.ofString text).style text)

/-- Whether anchors for some texts are added, for each of them once. -/
structure Defines (Long : String → Prop) (anchors : Anchors) (texts : List String) (after : Anchors) : Prop where
  long : ∀ text ∈ texts, Long text
  fresh : ∀ digest ∈ texts.map Digest.ofText, digest ∉ anchors.keys
  nodup : (texts.map Digest.ofText).Nodup
  mem_keys_iff : ∀ digest, digest ∈ after.keys ↔ digest ∈ anchors.keys ∨ digest ∈ texts.map Digest.ofText

theorem Defines.nil : Defines Long anchors [] anchors := ⟨nofun, nofun, .nil, by simp⟩

/-- Texts that are defined one after the other are defined together. -/
theorem Defines.append (first : Defines Long anchors texts between) (second : Defines Long between more after) :
    Defines Long anchors (texts ++ more) after where
  long := List.forall_mem_append.mpr ⟨first.long, second.long⟩
  fresh := by
    rw [List.map_append]
    exact List.forall_mem_append.mpr ⟨first.fresh, fun digest mem known =>
      second.fresh digest mem ((first.mem_keys_iff digest).mpr (.inl known))⟩
  nodup := by
    rw [List.map_append]
    refine first.nodup.append second.nodup fun digest mem mem' => ?_
    exact second.fresh digest mem' ((first.mem_keys_iff digest).mpr (.inr mem))
  mem_keys_iff digest := by
    rw [second.mem_keys_iff, first.mem_keys_iff, List.map_append, List.mem_append, or_assoc]

/-- A fresh text is defined by one anchor. -/
theorem Defines.insert {text name : String} (long : Long text) (fresh : Digest.ofText text ∉ anchors.keys) :
    Defines Long anchors [text] (anchors.insert (Digest.ofText text) name) where
  long := List.forall_mem_singleton.mpr long
  fresh := List.forall_mem_singleton.mpr fresh
  nodup := List.nodup_singleton _
  mem_keys_iff digest := by simp [Table.mem_keys_insert, or_comm]

/-- Whether the names and the nodes that are anchored are those of texts for which anchors are added. -/
def Puts (Long : String → Prop) (number : String → Nat) (anchors : Anchors) (names : List String)
    (nodes : List (Nat × Node)) (after : Anchors) : Prop :=
  ∃ texts, Defines Long anchors texts after ∧ names = texts.map Digest.ofText ∧ nodes = texts.map (target number)

theorem Puts.nil : Puts Long number anchors [] [] anchors := ⟨[], .nil, rfl, rfl⟩

/-- What is put in by two pieces is put in by both together. -/
theorem Puts.append (first : Puts Long number anchors names nodes between)
    (second : Puts Long number between names' nodes' after) :
    Puts Long number anchors (names ++ names') (nodes ++ nodes') after := by
  obtain ⟨texts, defines, rfl, rfl⟩ := first
  obtain ⟨more, defines', rfl, rfl⟩ := second
  exact ⟨texts ++ more, defines.append defines', List.map_append.symm, List.map_append.symm⟩

mutual

/-- What is anchored in a piece are the texts for which there are anchors behind it, but not in front. -/
theorem Anchored.puts (number : String → Nat) : ∀ {anchors after : Anchors} {p m a : Piece},
    Anchored Long anchors p m a after → Puts Long number anchors a.names (a.node number).anchored after
  | _, _, _, _, _, .scalar leaf own => by
    rw [Piece.names, own, node, Node.anchored, own_props own]
    exact .nil
  | _, _, _, _, _, .seq own inside => by
    rw [Piece.names, own, node, Node.anchored, own_props own]
    exact inside.puts number
  | _, _, _, _, _, .map own inside => by
    rw [Piece.names, own, node, Node.anchored, own_props own]
    exact inside.puts number

/-- The same for the items of a sequence. -/
theorem AnchoredItems.puts (number : String → Nat) : ∀ {anchors after : Anchors} {ps ms as : List Piece},
    AnchoredItems Long anchors ps ms as after →
    Puts Long number anchors (itemNames as) (Node.anchoredItems (itemNodes number as)) after
  | _, _, _, _, _, .nil => .nil
  | _, _, _, _, _, .cons first rest => (first.puts number).append (rest.puts number)

/-- The same for an entry, which puts in a node only where it defines a text. -/
theorem AnchoredEntry.puts (number : String → Nat) : ∀ {anchors after : Anchors} {e f g : Piece × Piece},
    AnchoredEntry Long anchors e f g after →
    Puts Long number anchors (g.1.names ++ g.2.names)
      ((g.1.node number).anchored ++ (g.2.node number).anchored) after
  | _, _, _, _, _, .keeps same value => (same.puts number).append (value.puts number)
  | _, _, _, _, _, .refers same _ _ => (same.puts number).append .nil
  | _, _, _, _, _, @AnchoredEntry.defines _ _ _ text long fresh _ => ⟨[text], .insert long fresh, rfl, rfl⟩

/-- The same for the entries of a mapping. -/
theorem AnchoredEntries.puts (number : String → Nat) : ∀ {anchors after : Anchors} {es fs gs : List (Piece × Piece)},
    AnchoredEntries Long anchors es fs gs after →
    Puts Long number anchors (entryNames gs) (Node.anchoredEntries (entryNodes number gs)) after
  | _, _, _, _, _, .nil => .nil
  | _, _, _, _, _, .cons first rest => by
    rw [entryNames, entryNodes, Node.anchoredEntries, ← List.append_assoc, ← List.append_assoc]
    exact (first.puts number).append (rest.puts number)

end

/-! ## References -/

/-- Every digest that is defined in the end was known or is the name of an anchor on the way. -/
theorem Puts.mem (puts : Puts Long number anchors names nodes after) {seen : List String}
    (known : ∀ digest ∈ anchors.keys, digest ∈ seen) : ∀ digest ∈ after.keys, digest ∈ seen ++ names := by
  obtain ⟨texts, defines, rfl, -⟩ := puts
  intro digest mem
  exact List.mem_append.mpr (((defines.mem_keys_iff digest).mp mem).imp_left (known digest))

mutual

/-- References are behind their anchors. -/
theorem Anchored.resolves : ∀ {anchors after : Anchors} {p m a : Piece}, Anchored Long anchors p m a after →
    ∀ {seen : List String}, (∀ digest ∈ anchors.keys, digest ∈ seen) → a.Resolves seen
  | _, _, _, _, _, .scalar _ _, _, _ => trivial
  | _, _, _, _, _, .seq own inside, seen, known => by
    rw [Resolves, own, List.append_nil]
    exact inside.resolves known
  | _, _, _, _, _, .map own inside, seen, known => by
    rw [Resolves, own, List.append_nil]
    exact inside.resolves known

/-- The same for the items of a sequence. -/
theorem AnchoredItems.resolves : ∀ {anchors after : Anchors} {ps ms as : List Piece},
    AnchoredItems Long anchors ps ms as after → ∀ {seen : List String},
    (∀ digest ∈ anchors.keys, digest ∈ seen) → ItemsResolve seen as
  | _, _, _, _, _, .nil, _, _ => trivial
  | _, _, _, _, _, .cons first rest, _, known =>
    ⟨first.resolves known, rest.resolves ((first.puts fun _ => 0).mem known)⟩

/-- The same for an entry, which refers only to what is known. -/
theorem AnchoredEntry.resolves : ∀ {anchors after : Anchors} {e f g : Piece × Piece},
    AnchoredEntry Long anchors e f g after → ∀ {seen : List String},
    (∀ digest ∈ anchors.keys, digest ∈ seen) → g.1.Resolves seen ∧ g.2.Resolves (seen ++ g.1.names)
  | _, _, _, _, _, .keeps same value, _, known =>
    ⟨same.resolves known, value.resolves ((same.puts fun _ => 0).mem known)⟩
  | _, _, _, _, _, .refers same _ there, _, known =>
    ⟨same.resolves known, List.mem_append_left _ (known _ there)⟩
  | _, _, _, _, _, .defines _ _ _, _, _ => ⟨trivial, trivial⟩

/-- The same for the entries of a mapping. -/
theorem AnchoredEntries.resolves : ∀ {anchors after : Anchors} {es fs gs : List (Piece × Piece)},
    AnchoredEntries Long anchors es fs gs after → ∀ {seen : List String},
    (∀ digest ∈ anchors.keys, digest ∈ seen) → EntriesResolve seen gs
  | _, _, _, _, _, .nil, _, _ => trivial
  | _, _, _, _, _, .cons first rest, seen, known => by
    have behind := (first.puts fun _ => 0).mem known
    rw [← List.append_assoc] at behind
    obtain ⟨key, value⟩ := first.resolves known
    exact ⟨key, value, rest.resolves behind⟩

end

/-! ## Properties -/

mutual

/-- Anchors can always be read. -/
theorem Anchored.isLegible : ∀ {anchors after : Anchors} {p m a : Piece}, Anchored Long anchors p m a after →
    p.IsLegible → a.IsLegible
  | _, _, _, _, _, .scalar _ _, legible => legible
  | _, _, _, _, _, .seq _ inside, ⟨own, legible⟩ => ⟨own, inside.areLegible legible⟩
  | _, _, _, _, _, .map _ inside, ⟨own, legible⟩ => ⟨own, inside.areLegible legible⟩

/-- The same for the items of a sequence. -/
theorem AnchoredItems.areLegible : ∀ {anchors after : Anchors} {ps ms as : List Piece},
    AnchoredItems Long anchors ps ms as after → AreLegible ps → AreLegible as
  | _, _, _, _, _, .nil, _ => trivial
  | _, _, _, _, _, .cons first rest, ⟨here, later⟩ => ⟨first.isLegible here, rest.areLegible later⟩

/-- The same for an entry. -/
theorem AnchoredEntry.areLegible : ∀ {anchors after : Anchors} {e f g : Piece × Piece},
    AnchoredEntry Long anchors e f g after → e.1.IsLegible ∧ e.2.IsLegible → g.1.IsLegible ∧ g.2.IsLegible
  | _, _, _, _, _, .keeps _ value, ⟨key, here⟩ => ⟨key, value.isLegible here⟩
  | _, _, _, _, _, .refers _ _ _, ⟨key, _⟩ => ⟨key, trivial⟩
  | _, _, _, _, _, .defines _ _ _, ⟨key, _⟩ => ⟨key, hasToken_some_iff.mp rfl⟩

/-- The same for the entries of a mapping. -/
theorem AnchoredEntries.areLegible : ∀ {anchors after : Anchors} {es fs gs : List (Piece × Piece)},
    AnchoredEntries Long anchors es fs gs after → AreLegibleEntries es → AreLegibleEntries gs
  | _, _, _, _, _, .nil, _ => trivial
  | _, _, _, _, _, .cons first rest, ⟨key, value, later⟩ =>
    ⟨(first.areLegible ⟨key, value⟩).1, (first.areLegible ⟨key, value⟩).2, rest.areLegible later⟩

end

/-! ## Trees -/

/-- Without an anchor, properties do not depend on how anchors are numbered. -/
theorem props_of_isNoAnchor {property? : Option Property} (own : IsNoAnchor property?) :
    props number property? = props number' property? := by
  match property? with
  | none => rfl
  | some (.anchor name) => nomatch own
  | some (.tag name) => rfl

/-- Whether a document has the text behind each anchor. -/
def Finds (Long : String → Prop) (number : String → Nat) (final : Anchors) (found : List (Nat × Node)) : Prop :=
  ∀ text, Long text → Digest.ofText text ∈ final.keys →
    found.lookup (number (Digest.ofText text)) = some (target number text).2

mutual

/-- With the texts behind its anchors a piece has the tree that it has without references. -/
theorem Anchored.sameTree (finds : Finds Long number final found) :
    ∀ {anchors after : Anchors} {p m a : Piece}, Anchored Long anchors p m a after → AreAmong after final →
    Node.SameTree found (a.node number) (p.node number')
  | _, _, _, _, _, .scalar _ own, _ => by
    rw [node, node, props_of_isNoAnchor own]
    exact Node.sameTree_of_follow? rfl rfl
  | _, _, _, _, _, .seq own inside, among => by
    rw [node, node, props_of_isNoAnchor own]
    exact Node.sameTree_seq _ (inside.sameTree finds among)
  | _, _, _, _, _, .map own inside, among => by
    rw [node, node, props_of_isNoAnchor own]
    exact Node.sameTree_map _ (inside.sameTree finds among)

/-- The same for the items of a sequence. -/
theorem AnchoredItems.sameTree (finds : Finds Long number final found) :
    ∀ {anchors after : Anchors} {ps ms as : List Piece}, AnchoredItems Long anchors ps ms as after →
    AreAmong after final → List.Forall₂ (Node.SameTree found) (itemNodes number as) (itemNodes number' ps)
  | _, _, _, _, _, .nil, _ => .nil
  | _, _, _, _, _, .cons first rest, among =>
    .cons (first.sameTree finds (rest.areAmong.trans among)) (rest.sameTree finds among)

/-- The same for an entry: a reference leads to the text that it stands for. -/
theorem AnchoredEntry.sameTree (finds : Finds Long number final found) :
    ∀ {anchors after : Anchors} {e f g : Piece × Piece}, AnchoredEntry Long anchors e f g after →
    AreAmong after final → Node.SameTree found (g.1.node number) (e.1.node number') ∧
      Node.SameTree found (g.2.node number) (e.2.node number')
  | _, _, _, _, _, .keeps same value, among =>
    ⟨same.sameTree finds (value.areAmong.trans among), value.sameTree finds among⟩
  | _, _, _, _, _, @AnchoredEntry.refers _ _ _ text same long known, among => by
    have there := finds text long (among.mem_keys known)
    have followed : Node.follow? found (.alias (number (Digest.ofText text))) = some (target number text).2 := by
      simp [Node.follow?, there, target]
    exact ⟨same.sameTree finds among, Node.sameTree_of_follow? followed rfl⟩
  | _, _, _, _, _, .defines _ _ _, _ => ⟨Node.sameTree_of_follow? rfl rfl, Node.sameTree_of_follow? rfl rfl⟩

/-- The same for the entries of a mapping. -/
theorem AnchoredEntries.sameTree (finds : Finds Long number final found) :
    ∀ {anchors after : Anchors} {es fs gs : List (Piece × Piece)}, AnchoredEntries Long anchors es fs gs after →
    AreAmong after final →
    List.Forall₂ (fun e e' => Node.SameTree found e.1 e'.1 ∧ Node.SameTree found e.2 e'.2)
      (entryNodes number gs) (entryNodes number' es)
  | _, _, _, _, _, .nil, _ => .nil
  | _, _, _, _, _, .cons first rest, among =>
    .cons (first.sameTree finds (rest.areAmong.trans among)) (rest.sameTree finds among)

end

/-! ## Documents -/

/-- Names are numbered by their places if no name occurs twice. -/
theorem numbers_idxOf (nodup : names.Nodup) : Numbers names.idxOf names := by
  intro i name here
  obtain ⟨lt, rfl⟩ := List.getElem?_eq_some_iff.mp here
  exact nodup.idxOf_getElem i lt

/-- Different names have different numbers. -/
theorem Numbers.inj {name other : String} (numbers : Numbers number names) (mem : name ∈ names)
    (mem' : other ∈ names) (same : number name = number other) : name = other := by
  obtain ⟨i, lt, rfl⟩ := List.getElem_of_mem mem
  obtain ⟨j, lt', rfl⟩ := List.getElem_of_mem mem'
  rw [numbers i _ (List.getElem?_eq_getElem lt), numbers j _ (List.getElem?_eq_getElem lt')] at same
  exact getElem_congr_idx same

/-- If no two texts share a digest, every reference leads to the text that was meant. -/
theorem finds_of_defines (defines : Defines Long .empty texts final)
    (apart : ∀ s u, Long s → Long u → Digest.ofText s = Digest.ofText u → s = u)
    (numbers : Numbers number (texts.map Digest.ofText)) :
    Finds Long number final (texts.map (target number)).reverse := by
  intro text long known
  have known : Digest.ofText text ∈ texts.map Digest.ofText :=
    ((defines.mem_keys_iff _).mp known).resolve_left nofun
  obtain ⟨here, mem, same⟩ := List.mem_map.mp known
  obtain rfl := apart here text (defines.long here mem) long same
  refine lookup_eq_of_mem (List.mem_reverse.mpr (List.mem_map_of_mem mem)) fun other bound => ?_
  obtain ⟨there, mem', is⟩ := List.mem_map.mp (List.mem_reverse.mp bound)
  obtain ⟨same_number, rfl⟩ := Prod.mk.inj is
  have digests := numbers.inj (List.mem_map_of_mem mem') (List.mem_map_of_mem mem) same_number
  rw [apart there here (defines.long there mem') long digests]
  rfl

/-- A piece with anchors is read as a document with the tree that the piece without references has, and its
    references, all of them to scalars, do not repeat too much. -/
theorem Anchored.ofTokens? (anchored : Anchored Long .empty p m a final) (legible : p.IsLegible)
    (apart : ∀ s u, Long s → Long u → Digest.ofText s = Digest.ofText u → s = u) :
    ∃ document, Document.ofTokens? (a.tokens .start) = some document ∧
      document.isExplosive .whole = false ∧ Node.SameTree document.anchors document.root (p.node number') := by
  -- no digest is defined twice, so the places of the definitions number them
  obtain ⟨number, numbers⟩ : ∃ number, Numbers number a.names := by
    obtain ⟨texts, defines, names, -⟩ := anchored.puts fun _ => 0
    exact ⟨a.names.idxOf, numbers_idxOf (names ▸ defines.nodup)⟩
  obtain ⟨texts, defines, names, nodes⟩ := anchored.puts number
  have scalars : Document.AreScalars (a.node number).anchored.reverse := by
    rw [nodes]
    intro e mem
    obtain ⟨text, -, rfl⟩ := List.mem_map.mp (List.mem_reverse.mp mem)
    exact ⟨_, _, _, rfl⟩
  have finds := finds_of_defines defines apart (names ▸ numbers)
  rw [← nodes] at finds
  exact ⟨_, ofTokens?_eq (anchored.isLegible legible) numbers (anchored.resolves nofun),
    Document.isExplosive_of_areScalars scalars _, anchored.sameTree finds fun _ _ bound => bound⟩

end Piece
end DeployManifest.Yaml
