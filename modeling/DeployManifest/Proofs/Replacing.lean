import DeployManifest.Proofs.Addresses

/-!
# What replacing changes

An operation that replaces writes its value to one address, the one its path leads to.  Of the tree it
keeps what stands beside the way there; on the way it keeps the nodes that are there, with their tags and
the order of their keys, and creates containers where nothing or a null stands.  `IsReplaced` says so.

There is one thing that comes into being beside the way: an item that is appended for an optional match
gets the field that was looked for (`IsAppendedField`), and keeps it unless the way leads through this
field (`HoldsFields`).

Main statement: `isReplaced_of_replace`.  It rests on `replace_cons`, which says once what a step can do,
and on `IsReplaced.putChild`, which carries what holds below a branch up to the node.  What a step goes on
from where nothing was is `IsFresh`, so that below it everything is new.

- `IsGrown`, `IsReplaced`: nodes on the way, and the whole tree.
- `IsFresh`: containers that a step creates.
- `GoesOn.replaced`, `GoesOn.holdsFields`: one step, with what the steps behind it do.
- `isReplaced_of_replace_item`: an item that is appended with its field and its value.
-/

namespace DeployManifest.Patch

open Yaml (Value Entries)

/-! ## One step -/

/-- What the steps behind a step go on from: the child at the branch; or, where there is none, the
    container that the next step asks for, or an item with the field that was looked for. -/
inductive GoesOn (step : Step) (rest : List Step) : Option Value → Value → Prop where
  | there (child : Value) : GoesOn step rest (some child) child
  | created (no_match : ∀ field value marked, step ≠ .matching field value marked) :
    GoesOn step rest none (Step.nextContainer rest)
  | appended {field value : String} {marked : Bool} (matching : step = .matching field value marked) :
    GoesOn step rest none (.map [(.string field, .string value)])

variable {v node new : Value} {isOptional : Bool} {step : Step} {steps rest : List Step}

/-- All that a step of a replacement that succeeds can do. -/
theorem replace_cons (done : replace v isOptional (step :: rest) node = (new, none)) :
    ∃ branch start child,
      Takes (isOptional || step.isOptional) (some (step.enter node)) step branch ∧
      IsOpen (step.enter node) branch ∧ GoesOn step rest (child? (step.enter node) branch) start ∧
      replace v (isOptional || step.isOptional) rest start = (child, none) ∧
      new = putChild (step.enter node) branch child := by
  unfold replace at done
  -- below, `node` is what the step has entered, a null turned into a container included
  generalize step.enter node = node at done ⊢
  generalize optional : (isOptional || step.isOptional) = isOptional at done ⊢
  cases step with
  | key name marked =>
    cases map : entries? node with
    | none => simp [map] at done
    | some entries =>
      have child := child?_key map (.string name)
      simp only [map] at done
      split at done
      · next unbound =>
        split at done
        · obtain ⟨rfl, finished⟩ := Prod.mk.inj done
          refine ⟨_, Step.nextContainer rest, _, .key name marked, .key map, ?_, Prod.ext rfl finished,
            (putChild_key map).symm⟩
          rw [child, unbound]
          exact .created nofun
        · nomatch done
      · next start bound =>
        obtain ⟨rfl, finished⟩ := Prod.mk.inj done
        refine ⟨_, start, _, .key name marked, .key map, ?_, Prod.ext rfl finished,
          (putChild_key map).symm⟩
        rw [child, bound]
        exact .there start
  | index n =>
    cases seq : items? node with
    | none => simp [seq] at done
    | some items =>
      simp only [seq] at done
      split at done
      · nomatch done
      · next start item =>
        obtain ⟨rfl, finished⟩ := Prod.mk.inj done
        obtain ⟨lt, -⟩ := List.getElem?_eq_some_iff.mp item
        refine ⟨_, start, _, .index n, .index seq (Nat.le_of_lt lt), ?_, Prod.ext rfl finished,
          (putChild_set seq lt).symm⟩
        rw [child?_index seq, item]
        exact .there start
  -- nothing stands behind the last item, so what is put there is created
  | afterLast =>
    cases seq : items? node with
    | none => simp [seq] at done
    | some items =>
      simp only [seq] at done
      obtain ⟨rfl, finished⟩ := Prod.mk.inj done
      refine ⟨_, Step.nextContainer rest, _, .afterLast (itemsAt?_of_items? seq),
        .index seq (Nat.le_refl _), ?_, Prod.ext rfl finished, (putChild_append seq).symm⟩
      rw [child?_index seq, List.getElem?_eq_none (Nat.le_refl _)]
      exact .created nofun
  -- the first match is changed where it is, and an appended item holds the field that was looked for
  | matching field value marked =>
    cases seq : items? node with
    | none => simp [seq] at done
    | some items =>
      simp only [seq] at done
      split at done
      · next n first =>
        obtain ⟨rfl, finished⟩ := Prod.mk.inj done
        obtain ⟨lt, -⟩ := List.findIdx?_eq_some_iff_getElem.mp first
        refine ⟨_, items.getD n .null, _, .first (itemsAt?_of_items? seq) first,
          .index seq (Nat.le_of_lt lt), ?_, Prod.ext rfl finished, (putChild_set seq lt).symm⟩
        have start : items.getD n .null = items[n] := by simp [List.getD, lt]
        rw [child?_index seq, List.getElem?_eq_getElem lt, start]
        exact .there _
      · next unmatched =>
        split at done
        · next allowed =>
          obtain ⟨rfl, finished⟩ := Prod.mk.inj done
          refine ⟨_, .map [(.string field, .string value)], _,
            .behind allowed (itemsAt?_of_items? seq) unmatched, .index seq (Nat.le_refl _), ?_,
            Prod.ext rfl finished, (putChild_append seq).symm⟩
          rw [child?_index seq, List.getElem?_eq_none (Nat.le_refl _)]
          exact .appended rfl
        · nomatch done

/-! ## What is written, and what is kept -/

/-- Whether a container on the way is the one that was there, with its tags, its old keys in front in the
    old order and no fewer items; or a new one where nothing was. -/
inductive IsGrown : Option Value → Value → Prop where
  | newMap {old? : Option Value} (blank : IsBlank old?) (entries : Entries) : IsGrown old? (.map entries)
  | newSeq {old? : Option Value} (blank : IsBlank old?) (items : List Value) : IsGrown old? (.seq items)
  | map {old : Value} {entries more : Entries} (was : entries? old = some entries)
    (keys : entries.map (·.1) <+: more.map (·.1)) : IsGrown (some old) (withContent (.map more) old)
  | seq {old : Value} {items more : List Value} (was : items? old = some items)
    (length : items.length ≤ more.length) : IsGrown (some old) (withContent (.seq more) old)

/-- Whether a value has been written to an address below a place, in a tree where perhaps nothing was.
    `extra` are the values that may have come into being beside the way to the address. -/
structure IsReplaced (v : Value) (extra : Address → Value → Prop) (old? : Option Value) (new : Value)
    (address : Address) : Prop where
  written : at? new address = some v
  /-- What stands beside the way stays. -/
  kept : ∀ other w, below? old? other = some w → ¬ other <+: address → ¬ address <+: other →
    at? new other = some w
  /-- And nothing else stands there but what is extra. -/
  fresh : ∀ other w, at? new other = some w → ¬ other <+: address → ¬ address <+: other →
    below? old? other = some w ∨ extra other w
  along : ∀ front branch back, address = front ++ branch :: back →
    ∃ node, at? new front = some node ∧ IsGrown (below? old? front) node

variable {extra : Address → Value → Prop} {old? : Option Value} {child start : Value} {branch : Branch}
  {address : Address}

/-- At the root everything is replaced. -/
theorem IsReplaced.here (v : Value) (extra : Address → Value → Prop) (old? : Option Value) :
    IsReplaced v extra old? v [] where
  written := rfl
  kept _ _ _ _ behind := absurd List.nil_prefix behind
  fresh _ _ _ _ behind := absurd List.nil_prefix behind
  along _ _ _ split := absurd split.symm (by simp)

/-- A node that gets a child at an open branch keeps its tags, and its keys in their order. -/
theorem isGrown_putChild (opened : IsOpen node branch) : IsGrown (some node) (putChild node branch child) := by
  cases opened with
  | key map =>
    rw [putChild_key map]
    exact .map map (keys_insert _ _ _)
  | @index items n seq le =>
    rcases Nat.lt_or_eq_of_le le with lt | rfl
    · rw [putChild_set seq lt]
      exact .seq seq (by simp)
    · rw [putChild_append seq]
      exact .seq seq (by simp)

/-- What holds below a branch holds of the node. -/
theorem IsReplaced.putChild (opened : IsOpen node branch)
    (replaced : IsReplaced v (fun other w => extra (branch :: other) w) (child? node branch) child address) :
    IsReplaced v extra (some node) (putChild node branch child) (branch :: address) where
  written := by rw [at?_putChild_self opened, replaced.written]
  -- at other branches nothing has changed, and at this one the child has to be asked
  kept other w there aside beside := by
    cases other with
    | nil => exact absurd List.nil_prefix aside
    | cons first rest =>
      by_cases same : first = branch
      · subst same
        rw [List.cons_prefix_cons, not_and] at aside beside
        rw [at?_putChild_self opened]
        exact replaced.kept rest w there (aside rfl) (beside rfl)
      · rw [at?_putChild_of_ne opened same]
        exact there
  fresh other w there aside beside := by
    cases other with
    | nil => exact absurd List.nil_prefix aside
    | cons first rest =>
      by_cases same : first = branch
      · subst same
        rw [List.cons_prefix_cons, not_and] at aside beside
        rw [at?_putChild_self opened] at there
        exact replaced.fresh rest w there (aside rfl) (beside rfl)
      · rw [at?_putChild_of_ne opened same] at there
        exact .inl there
  along front next back split := by
    cases front with
    | nil => exact ⟨_, rfl, isGrown_putChild opened⟩
    | cons first rest =>
      obtain ⟨rfl, below⟩ := List.cons.inj split
      rw [at?_putChild_self opened]
      exact replaced.along rest next back below

/-! ## Where nothing was -/

/-- Whether what steps go on from, where nothing was, is a container without tags and items that holds
    nothing but strings, all of which are extra. -/
structure IsFresh (extra : Address → Value → Prop) (start : Value) : Prop where
  bare : ∀ content, withContent content start = content
  no_items : ∀ items, itemsAt? (some start) = some items → items = []
  strings : ∀ branch rest w, at? start (branch :: rest) = some w →
    (∃ s, w = .string s) ∧ extra (branch :: rest) w

/-- A container that has grown from a fresh one is new. -/
theorem IsFresh.isGrown {container : Value} (fresh : IsFresh extra start)
    (grown : IsGrown (some start) container) (blank : IsBlank old?) : IsGrown old? container := by
  cases grown with
  | newMap _ entries => exact .newMap blank entries
  | newSeq _ items => exact .newSeq blank items
  | map => rw [fresh.bare]; exact .newMap blank _
  | seq => rw [fresh.bare]; exact .newSeq blank _

/-- What is replaced in a fresh container is replaced where the container is created. -/
theorem IsFresh.replaced (fresh : IsFresh extra start) (blank : IsBlank old?)
    (replaced : IsReplaced v extra (some start) child address) : IsReplaced v extra old? child address where
  written := replaced.written
  kept other w there aside _ := by
    cases other with
    | nil => exact absurd List.nil_prefix aside
    | cons => nomatch blank.below?.symm.trans there
  fresh other w there aside beside := by
    cases other with
    | nil => exact absurd List.nil_prefix aside
    | cons branch rest =>
      rcases replaced.fresh _ w there aside beside with before | more
      · exact .inr (fresh.strings branch rest w before).2
      · exact .inr more
  along front next back split := by
    obtain ⟨container, there, grown⟩ := replaced.along front next back split
    refine ⟨container, there, ?_⟩
    cases front with
    | nil =>
      rw [below?_nil] at grown ⊢
      exact fresh.isGrown grown blank
    | cons branch rest =>
      rw [blank.below?]
      rw [below?_some] at grown
      cases before : at? start (branch :: rest) with
      | none => rwa [before] at grown
      | some w =>
        -- a string is no container
        obtain ⟨⟨s, rfl⟩, -⟩ := fresh.strings branch rest w before
        rw [before] at grown
        cases grown with
        | newMap blank | newSeq blank => cases blank with | null null => nomatch null
        | map was | seq was => nomatch was

/-- A path leads through a fresh container as it does where the container is created. -/
theorem IsFresh.resolves (fresh : IsFresh extra start) (blank : IsBlank old?)
    (resolves : Resolves isOptional steps (some start) address) : Resolves isOptional steps old? address := by
  refine resolves.of_no_items (fun other items seq => ?_) blank
  cases other with
  | nil => exact fresh.no_items items seq
  | cons branch rest =>
    rw [below?_some] at seq
    -- what is fresh holds no items that a step could look through
    cases before : at? start (branch :: rest) with
    | none =>
      rw [before] at seq
      exact (Option.some.inj seq).symm
    | some w =>
      obtain ⟨⟨s, rfl⟩, -⟩ := fresh.strings branch rest w before
      rw [before] at seq
      nomatch seq

/-- A container without children is fresh. -/
theorem isFresh_of_blank {extra : Address → Value → Prop} (bare : ∀ content, withContent content start = content)
    (no_items : itemsAt? (some start) = some [] ∨ itemsAt? (some start) = none)
    (empty : ∀ branch, child? start branch = none) : IsFresh extra start where
  bare := bare
  no_items items seq := by
    rcases no_items with none_there | no_seq
    · exact (Option.some.inj (none_there.symm.trans seq)).symm
    · nomatch no_seq.symm.trans seq
  strings branch rest w there := by
    rw [at?_cons, empty branch] at there
    nomatch there

/-- The container that a step turns a null into is fresh. -/
theorem isFresh_container (extra : Address → Value → Prop) (step : Step) : IsFresh extra step.container := by
  cases step with
  | key => exact isFresh_of_blank (fun _ => rfl) (.inr rfl) fun branch => by cases branch <;> rfl
  | index | afterLast | matching =>
    exact isFresh_of_blank (fun _ => rfl) (.inl rfl) fun branch => by cases branch <;> rfl

/-- The container that is created for the next step is fresh. -/
theorem isFresh_nextContainer (extra : Address → Value → Prop) (rest : List Step) :
    IsFresh extra (Step.nextContainer rest) := by
  cases rest with
  | nil => exact isFresh_of_blank (fun _ => rfl) (.inl rfl) fun branch => by cases branch <;> rfl
  | cons step => exact isFresh_container extra step

/-- An item that is appended for a match is fresh but for the field that was looked for. -/
theorem isFresh_item {field value : String} (field_extra : extra [.key (.string field)] (.string value)) :
    IsFresh extra (.map [(.string field, .string value)]) where
  bare _ := rfl
  no_items _ seq := nomatch seq
  strings branch rest w there := by
    obtain ⟨child, found, there⟩ := Option.bind_eq_some_iff.mp there
    -- the item has one field, which is a text
    cases branch with
    | index n => nomatch found
    | key key =>
      change (if (Value.string field).same key then some (.string value) else none) = some child at found
      split at found
      · next same =>
        obtain rfl := Value.string_same_iff.mp same
        obtain rfl := Option.some.inj found
        cases rest with
        | nil =>
          obtain rfl := Option.some.inj there
          exact ⟨⟨value, rfl⟩, field_extra⟩
        | cons branch rest => cases branch <;> nomatch there
      · nomatch found

/-- Nothing fresh stands at an index. -/
theorem IsFresh.below?_index (fresh : IsFresh (fun place _ => ∃ key, place.getLast? = some (.key key)) start)
    (front : Address) (n : Nat) : below? (some start) (front ++ [.index n]) = none := by
  rw [below?_some, Option.eq_none_iff_forall_ne_some]
  intro w there
  obtain ⟨branch, rest, split⟩ : ∃ branch rest, front ++ [.index n] = branch :: rest := by
    cases front <;> exact ⟨_, _, rfl⟩
  rw [split] at there
  obtain ⟨key, last⟩ := (fresh.strings branch rest w there).2
  rw [← split, List.getLast?_concat] at last
  nomatch last

/-! ## All steps -/

/-- Whether a value is the field of an item that was appended on the way to an address, for a match that
    found none and is not the last step. -/
inductive IsAppendedField (steps : List Step) (old? : Option Value) (address : Address) :
    Address → Value → Prop where
  | intro {front back : Address} {n : Nat} {field value : String} {marked : Bool}
    (way : address = front ++ .index n :: back) (more : back ≠ [])
    (matching : steps[front.length]? = some (.matching field value marked))
    (missing : below? old? (front ++ [.index n]) = none) :
    IsAppendedField steps old? address (front ++ [.index n, .key (.string field)]) (.string value)

/-- An appended item below a branch is one seen from the node. -/
theorem IsAppendedField.cons {other : Address} {w : Value} {child? : Option Value}
    (appended : IsAppendedField rest child? address other w)
    (missing : ∀ place, below? child? place = none → below? old? (branch :: place) = none) :
    IsAppendedField (step :: rest) old? (branch :: address) (branch :: other) w := by
  cases appended with
  | @intro front back n field value marked way more matching nothing =>
    have way : branch :: address = (branch :: front) ++ .index n :: back := by rw [way]; rfl
    have matching : (step :: rest)[(branch :: front).length]? = some (.matching field value marked) := matching
    have appended := IsAppendedField.intro way more matching (missing _ nothing)
    exact appended

/-- More may be allowed to come into being. -/
theorem IsReplaced.mono {extra more : Address → Value → Prop}
    (replaced : IsReplaced v extra old? new address) (sub : ∀ other w, extra other w → more other w) :
    IsReplaced v more old? new address :=
  { replaced with
    fresh := fun other w there aside beside =>
      (replaced.fresh other w there aside beside).imp_right (sub other w) }

/-- A field that was appended stays so seen from a tree that has less. -/
theorem IsAppendedField.mono {node? : Option Value} {other : Address} {w : Value}
    (appended : IsAppendedField steps node? address other w)
    (missing : ∀ place, below? node? place = none → below? old? place = none) :
    IsAppendedField steps old? address other w := by
  cases appended with
  | intro way more matching nothing => exact .intro way more matching (missing _ nothing)

/-- Whether the items that were appended hold their fields, unless the way leads through a field. -/
def HoldsFields (steps : List Step) (old? : Option Value) (address : Address) (new : Value) : Prop :=
  ∀ other w, IsAppendedField steps old? address other w → ¬ other <+: address → at? new other = some w

/-- The items that are appended below the branch that a step takes hold their fields, and so does the one
    that is appended there. -/
theorem GoesOn.holdsFields (goes_on : GoesOn step rest (child? node branch) start) (opened : IsOpen node branch)
    (replaced : IsReplaced v extra (some start) child address) (holds : HoldsFields rest (some start) address child) :
    HoldsFields (step :: rest) (some node) (branch :: address) (Patch.putChild node branch child) := by
  intro other w appended aside
  cases appended with
  | @intro front back n field value marked way more matching missing =>
    cases front with
    | nil =>
      -- the item that this step appends
      obtain ⟨rfl, rfl⟩ := List.cons.inj way
      obtain rfl : step = .matching field value marked := Option.some.inj matching
      have none_here : child? node (.index n) = none := by
        simpa [at?] using missing
      rw [none_here] at goes_on
      cases goes_on with
      | created no_match => exact absurd rfl (no_match field value marked)
      | appended is_matching =>
        cases is_matching
        have not_through : ¬ [Branch.key (.string field)] <+: address := fun through =>
          aside (List.cons_prefix_cons.mpr ⟨rfl, through⟩)
        show at? (Patch.putChild node (.index n) child) [.index n, .key (.string field)] = _
        rw [at?_putChild_self opened]
        refine replaced.kept _ _ (by simp [at?, child?, entries?, Value.untagged, Value.lookup?, Value.same])
          not_through fun ends => ?_
        -- the way does not end in the item, so it can only end in the field
        rcases List.prefix_cons_iff.mp ends with rfl | ⟨_, rfl, short⟩
        · exact more rfl
        · exact not_through (by rw [List.prefix_nil.mp short])
    | cons first front =>
      -- the items that the steps behind it append
      obtain ⟨rfl, rfl⟩ := List.cons.inj way
      show at? (Patch.putChild node branch child) (branch :: (front ++ [.index n, .key (.string field)])) = _
      rw [at?_putChild_self opened]
      refine holds _ _ (.intro rfl more matching ?_) fun through => aside (List.cons_prefix_cons.mpr ⟨rfl, through⟩)
      rw [List.cons_append, below?_some, at?_cons] at missing
      generalize child? node branch = here? at goes_on missing
      cases goes_on with
      | there start => exact missing
      | created => exact (isFresh_nextContainer _ rest).below?_index front n
      | appended => exact (isFresh_item ⟨_, rfl⟩).below?_index front n

/-- What a replacement does below the branch that its first step takes. -/
theorem GoesOn.replaced (goes_on : GoesOn step rest (child? node branch) start)
    (takes : Takes isOptional (some node) step branch)
    (resolves : Resolves isOptional rest (some start) address)
    (replaced : IsReplaced v (IsAppendedField rest (some start) address) (some start) child address) :
    Resolves isOptional rest (child? node branch) address ∧
      IsReplaced v
        (fun other w => IsAppendedField (step :: rest) (some node) (branch :: address) (branch :: other) w)
        (child? node branch) child address := by
  have nothing_below : child? node branch = none → ∀ place, below? (some node) (branch :: place) = none := by
    intro none_here place
    rw [below?_some, at?_cons, none_here, Option.bind_none]
  have extra_below (nothing : child? node branch = none) (other : Address) (w : Value)
      (appended : IsAppendedField rest (some start) address other w) :
      IsAppendedField (step :: rest) (some node) (branch :: address) (branch :: other) w :=
    appended.cons fun place _ => nothing_below nothing place
  generalize here : child? node branch = here? at goes_on nothing_below extra_below
  cases goes_on with
  | there start =>
    refine ⟨resolves, replaced.mono fun other w appended => appended.cons fun place nothing => ?_⟩
    rw [below?_some, at?_cons, here]
    exact nothing
  | created no_match =>
    have replaced := replaced.mono (extra_below rfl)
    have fresh := fun extra => isFresh_nextContainer extra rest
    exact ⟨(fresh fun _ _ => True).resolves .nothing resolves, (fresh _).replaced .nothing replaced⟩
  | @appended field value marked matching =>
    have replaced := replaced.mono (extra_below rfl)
    have fresh : IsFresh (fun _ _ => True) (.map [(.string field, .string value)]) := isFresh_item trivial
    refine ⟨fresh.resolves .nothing resolves, ?_⟩
    cases address with
    | nil =>
      obtain rfl := Option.some.inj replaced.written
      exact .here _ _ _
    | cons next back =>
      -- the branch is an index, and the field that was looked for counts as appended
      subst matching
      obtain ⟨n, rfl⟩ : ∃ n, branch = .index n := by cases takes <;> exact ⟨_, rfl⟩
      have field_appended := @IsAppendedField.intro (.matching field value marked :: rest) (some node)
        (.index n :: next :: back) [] (next :: back) n field value marked rfl (by simp) rfl
        (nothing_below rfl [])
      exact (isFresh_item field_appended).replaced .nothing replaced

/-- A replacement that succeeds, from any node and behind any steps.  The induction is on the steps, and each
    of them is looked at from the node that it enters. -/
theorem exists_resolves_of_replace (done : replace v isOptional steps node = (new, none)) :
    ∃ address, Resolves isOptional steps (some node) address ∧
      IsReplaced v (IsAppendedField steps (some node) address) (some node) new address ∧
      HoldsFields steps (some node) address new := by
  induction steps generalizing isOptional node new with
  | nil =>
    obtain ⟨rfl, -⟩ := Prod.mk.inj done
    refine ⟨[], .here _ _, .here _ _ _, fun other w appended => ?_⟩
    cases appended with
    | @intro front _ _ _ _ _ way => cases front <;> nomatch way
  | cons step rest ih =>
    obtain ⟨branch, start, child, takes, opened, goes_on, later, rfl⟩ := replace_cons done
    obtain ⟨address, resolves, replaced, holds⟩ := ih later
    -- what holds below the child it goes on in holds below the branch it is put at
    have holds := goes_on.holdsFields opened replaced holds
    obtain ⟨resolves, replaced⟩ := goes_on.replaced takes resolves replaced
    have resolves : Resolves isOptional (step :: rest) (some (step.enter node)) (branch :: address) :=
      .step takes resolves
    have replaced : IsReplaced v
        (IsAppendedField (step :: rest) (some (step.enter node)) (branch :: address))
        (some (step.enter node)) (putChild (step.enter node) branch child) (branch :: address) :=
      .putChild opened replaced
    refine ⟨branch :: address, ?_⟩
    -- if the step has turned a null into a container, all below it is fresh, seen from the null
    rcases enter_cases step node with same | ⟨-, null, container⟩
    · rw [same] at resolves replaced holds ⊢
      exact ⟨resolves, replaced, holds⟩
    · rw [container] at resolves replaced holds ⊢
      have blank : IsBlank (some node) := .null null
      refine ⟨(isFresh_container (fun _ _ => True) step).resolves blank resolves,
        (isFresh_container _ step).replaced blank (replaced.mono fun other w appended => appended.mono ?_),
        fun other w appended => holds other w (appended.mono ?_)⟩
      · intro place nothing
        cases place with
        | nil => nomatch nothing
        | cons => exact blank.below?
      · intro place nothing
        cases place with
        | nil => nomatch nothing
        | cons first rest =>
          rw [below?_some, Option.eq_none_iff_forall_ne_some]
          exact fun w there => ((isFresh_container (fun _ _ => False) step).strings first rest w there).2

/-- A replacement that succeeds writes its value to the address that its path leads to, and keeps
    everything else; beside the way there is nothing new but the fields of appended items, which are there
    unless the way leads through them. -/
theorem isReplaced_of_replace {path : Path} {tree : Value}
    (done : (Operation.mk (.replace v) path).apply tree = (new, none)) :
    ∃ address, Resolves false path.steps (some tree) address ∧
      IsReplaced v (IsAppendedField path.steps (some tree) address) (some tree) new address ∧
      HoldsFields path.steps (some tree) address new :=
  exists_resolves_of_replace done

/-- A document with one job. -/
def onlyWeb : Value :=
  .map [(.string "jobs", .seq [.map [(.string "name", .string "web")]]), (.string "tags", .null)]

/-- The same document with a second job. -/
def webAndDb : Value :=
  .map [(.string "jobs", .seq [.map [(.string "name", .string "web")],
    .map [(.string "name", .string "db"), (.string "port", .int 5)]]), (.string "tags", .null)]

/-- The path to the port of the second job, which is looked for by its name. -/
def portOfDb : Path :=
  ⟨"/jobs/name=db?/port", [.key "jobs" false, .matching "name" "db" true, .key "port" true]⟩

/-- An optional match that finds nothing: the item gets its name and, from the last step, the value. -/
theorem isReplaced_of_replace_item :
    Path.parse "/jobs/name=db?/port" = .ok portOfDb ∧
    (Operation.mk (.replace (.int 5)) portOfDb).apply onlyWeb = (webAndDb, none) ∧
    ∃ address, Resolves false portOfDb.steps (some onlyWeb) address ∧
      IsReplaced (.int 5) (IsAppendedField portOfDb.steps (some onlyWeb) address) (some onlyWeb)
        webAndDb address ∧ HoldsFields portOfDb.steps (some onlyWeb) address webAndDb := by
  have done : (Operation.mk (.replace (.int 5)) portOfDb).apply onlyWeb = (webAndDb, none) := by
    decide +kernel
  exact ⟨by decide +kernel, done, isReplaced_of_replace done⟩

end DeployManifest.Patch
