import Mathlib.Data.List.Forall2
import DeployManifest.Yaml.View

/-!
# Views that show the same

Two nodes, perhaps of different documents, are alike if they have the same shape, the same texts and the
same local tags where their references lead (`View.Alike`).  Their scalars may be written in different
styles as long as that does not change what they stand for.

Whatever is read from alike views is the same.  `Stable read` says so of one way of reading; there is an
instance for each basic one, and instances for lists, tables and optional values of what can be read in
a stable way.  For records it remains to compare their fields (`Stable.record`), which is done one field
after another with the lemmas about `Fields.Alike`.

- `StylesAgree`: styles in which a text stands for the same.
- `View.Alike`, `Fields.Alike`: views, and fields of records.
- `Stable`, `Stable.record`: readers that see no difference between alike views.
-/

namespace DeployManifest.Yaml

open Text (Bytes)

/-- Whether a scalar stands for the same in two styles: no word is changed by quotes. -/
def StylesAgree (text : String) (style style' : Style) : Prop :=
  (style = .plain ↔ style' = .plain) ∨ Plain.resolve text = .word

/-- Whether a tag, if there is one, is local. -/
def HasLocalTag (props : Props) : Prop := ∀ tag ∈ props.tag?, (localTag? tag).isSome = true

/-- Two nodes show the same. -/
inductive View.Alike : View → View → Prop
  | scalar {anchors anchors' : List (Nat × Node)} {depth : Nat} {here here' : Node} {props props' : Props}
      {style style' : Style} {text : String}
      (followed : here.follow? anchors = some (.scalar props style text))
      (followed' : here'.follow? anchors' = some (.scalar props' style' text))
      (same_tag : props'.tag? = props.tag?) (is_local : HasLocalTag props)
      (styles : StylesAgree text style style') :
      Alike (.node anchors depth here) (.node anchors' depth here')
  | seq {anchors anchors' : List (Nat × Node)} {depth : Nat} {here here' : Node} {props props' : Props}
      {items items' : List Node}
      (followed : here.follow? anchors = some (.seq props items))
      (followed' : here'.follow? anchors' = some (.seq props' items'))
      (same_tag : props'.tag? = props.tag?)
      (inside : List.Forall₂ Alike (items.map (.node anchors depth)) (items'.map (.node anchors' depth))) :
      Alike (.node anchors (depth + 1) here) (.node anchors' (depth + 1) here')
  | map {anchors anchors' : List (Nat × Node)} {depth : Nat} {here here' : Node} {props props' : Props}
      {entries entries' : List (Node × Node)}
      (followed : here.follow? anchors = some (.map props entries))
      (followed' : here'.follow? anchors' = some (.map props' entries'))
      (same_tag : props'.tag? = props.tag?)
      (keys : List.Forall₂ Alike (entries.map fun e => .node anchors depth e.1)
        (entries'.map fun e => .node anchors' depth e.1))
      (inside : List.Forall₂ Alike (entries.map fun e => .node anchors depth e.2)
        (entries'.map fun e => .node anchors' depth e.2)) :
      Alike (.node anchors (depth + 1) here) (.node anchors' (depth + 1) here')

/-- Whether alike views are read as the same. -/
class Stable {α : Type} (read : View → Option α) : Prop where
  read_eq {view view' : View} (alike : view.Alike view') : read view = read view'

/-! ## Scalars -/

/-- The tag of a type is not local. -/
theorem HasLocalTag.ne_typeTag {props : Props} {name : String} (is_local : HasLocalTag props)
    (global : localTag? (typeTag name) = none) : props.tag? ≠ some (typeTag name) := by
  intro here
  have := is_local _ here
  rw [global] at this
  nomatch this

theorem localTag?_bool : localTag? (typeTag "bool") = none := by decide +kernel

theorem localTag?_int : localTag? (typeTag "int") = none := by decide +kernel

theorem localTag?_null : localTag? (typeTag "null") = none := by decide +kernel

namespace Plain

variable {text : String}

/-- What is resolved as a word is nothing else. -/
theorem of_resolve_eq_word (word : resolve text = .word) :
    text.isEmpty = false ∧ isNull text = false ∧ bool? text = none ∧ int? text.toList = none := by
  unfold resolve at word
  dsimp only at word
  -- what is left for words, behind the readings that come before it
  split at word
  · nomatch word
  · next filled =>
    have not_null : text.toList.isEmpty = false ∧ isNull text = false := by simpa using filled
    refine ⟨?_, not_null.2, ?_⟩
    · have nonempty := not_null.1
      cases blank : text.isEmpty with
      | false => rfl
      | true =>
        obtain rfl : text = "" := String.isEmpty_iff.mp blank
        exact absurd nonempty (by decide)
    · split at word
      · nomatch word
      · next no_bool =>
        refine ⟨no_bool, ?_⟩
        split at word
        · nomatch word
        · next no_int => exact no_int

end Plain

namespace StylesAgree

variable {α : Type} {text : String} {style style' : Style}

/-- A condition on plain scalars that no word fulfils holds in both styles or in none. -/
theorem and_eq (styles : StylesAgree text style style') {b : Bool}
    (no_word : Plain.resolve text = .word → b = false) :
    (style = .plain && b) = (style' = .plain && b) := by
  -- the styles differ only for words, of which nothing but their text is read
  rcases styles with same | word
  · simp only [same]
  · rw [no_word word, Bool.and_false, Bool.and_false]

/-- What is read of plain scalars, but of no word, is the same in both styles. -/
theorem bind_eq (styles : StylesAgree text style style') {read : String → Option α}
    (no_word : Plain.resolve text = .word → read text = none) :
    (if style = .plain then some text else none).bind read =
      (if style' = .plain then some text else none).bind read := by
  rcases styles with same | word
  · simp only [same]
  · split <;> split <;> simp [no_word word]

end StylesAgree

namespace View

variable {α β : Type} {view view' : View} {anchors : List (Nat × Node)} {depth : Nat} {here : Node}
  {props : Props} {style : Style} {text : String}

/-- What is read of a scalar with a local tag as a type is its text if it is plain. -/
theorem literal?_scalar {name : String}
    (followed : here.follow? anchors = some (.scalar props style text))
    (other : props.tag? ≠ some (typeTag name)) :
    literal? anchors (typeTag name) here = if style = .plain then some text else none := by
  unfold literal?
  rw [followed]
  cases style <;> simp [other]

/-- A plain scalar may be absent; one with a local tag is not. -/
theorem isAbsent?_scalar (followed : here.follow? anchors = some (.scalar props style text))
    (other : props.tag? ≠ some (typeTag "null")) :
    isAbsent? (.node anchors depth here) =
      some (style = .plain && (props.tag?.isNone && (text.isEmpty || Plain.isNull text))) := by
  obtain ⟨anchor?, tag?⟩ := props
  unfold isAbsent?
  dsimp only
  rw [followed]
  -- only plain scalars can be left out
  cases style with
  | plain =>
    cases tag? with
    | none => rfl
    | some tag =>
      have differs : tag ≠ typeTag "null" := fun same => other (congrArg some same)
      simp [differs]
  | _ => rfl

theorem isOmitted_scalar : isOmitted (.scalar props style text) = (style = .plain && text.isEmpty) := by
  cases style <;> rfl

/-- Alike views are read as the same in every stable way. -/
theorem Alike.read_eq (alike : view.Alike view') (read : View → Option α) [Stable read] :
    read view = read view' := Stable.read_eq alike

instance : Stable text? where
  read_eq alike := by
    cases alike with
    | scalar followed followed' => simp only [text?, followed, followed']
    | seq followed followed' | map followed followed' => simp only [text?, followed, followed']

instance : Stable bool? where
  read_eq alike := by
    cases alike with
    | scalar followed followed' same_tag is_local styles =>
      have other := is_local.ne_typeTag localTag?_bool
      rw [bool?, bool?, literal?_scalar followed other, literal?_scalar followed' (same_tag ▸ other)]
      exact styles.bind_eq fun word => (Plain.of_resolve_eq_word word).2.2.1
    | seq followed followed' | map followed followed' =>
      simp only [bool?, literal?, followed, followed']

instance {low high : Int} : Stable (int? low high) where
  read_eq alike := by
    cases alike with
    | scalar followed followed' same_tag is_local styles =>
      have other := is_local.ne_typeTag localTag?_int
      simp only [int?]
      rw [literal?_scalar followed other, literal?_scalar followed' (same_tag ▸ other),
        styles.bind_eq fun word => (Plain.of_resolve_eq_word word).2.2.2]
    | seq followed followed' | map followed followed' => simp only [int?, literal?, followed, followed']

/-- What is made of something stable is stable. -/
theorem stable_comp (f : Option α → Option β) (read : View → Option α) [Stable read] :
    Stable fun view => f (read view) where
  read_eq alike := congrArg f (alike.read_eq read)

instance : Stable int32? := stable_comp (fun n? => n?.map Int32.ofInt) (int? _ _)

instance : Stable int64? := stable_comp (fun n? => n?.map Int64.ofInt) (int? _ _)

instance : Stable variant? where
  read_eq alike := by
    cases alike with
    | scalar followed followed' same_tag is_local styles =>
      simp only [variant?, followed, followed', same_tag]
      rw [styles.and_eq fun word => ?_]
      obtain ⟨filled, not_null, -⟩ := Plain.of_resolve_eq_word word
      rw [filled, not_null, Bool.or_false]
    | seq followed followed' | map followed followed' => simp only [variant?, followed, followed']

instance : Stable isAbsent? where
  read_eq alike := by
    cases alike with
    | scalar followed followed' same_tag is_local styles =>
      have other := is_local.ne_typeTag localTag?_null
      rw [isAbsent?_scalar followed other, isAbsent?_scalar followed' (same_tag ▸ other), same_tag,
        styles.and_eq fun word => ?_]
      obtain ⟨filled, not_null, -⟩ := Plain.of_resolve_eq_word word
      rw [filled, not_null, Bool.or_false, Bool.and_false]
    | seq followed followed' | map followed followed' => simp only [isAbsent?, followed, followed']

instance {read : View → Option α} [Stable read] : Stable (optional? read) where
  read_eq alike := by
    unfold optional?
    rw [alike.read_eq isAbsent?, alike.read_eq read]

/-! ## Collections -/

/-- Alike collections have alike items. -/
theorem Alike.items? (alike : view.Alike view') :
    Option.Rel (List.Forall₂ Alike) view.items? view'.items? := by
  cases alike with
  | @scalar _ _ _ _ _ props props' style style' text followed followed' same_tag is_local styles =>
    simp only [View.items?, followed, followed', isOmitted_scalar]
    rw [styles.and_eq fun word => (Plain.of_resolve_eq_word word).1]
    split
    · exact .some .nil
    · exact .none
  | seq followed followed' same_tag inside =>
    simp only [View.items?, followed, followed']
    exact .some inside
  | map followed followed' =>
    simp only [View.items?, followed, followed']
    exact .none

/-- Alike views have alike entries, or neither has any. -/
theorem Alike.entries? (alike : view.Alike view') :
    Option.Rel (List.Forall₂ fun e e' => Alike e.1 e'.1 ∧ Alike e.2 e'.2) view.entries?
      view'.entries? := by
  cases alike with
  | scalar followed followed' same_tag is_local styles =>
    simp only [View.entries?, followed, followed', isOmitted_scalar]
    rw [styles.and_eq fun word => (Plain.of_resolve_eq_word word).1]
    split
    · exact .some .nil
    · exact .none
  | seq followed followed' =>
    simp only [View.entries?, followed, followed']
    exact .none
  | map followed followed' same_tag keys inside =>
    simp only [View.entries?, followed, followed']
    refine .some ?_
    simp only [List.forall₂_map_left_iff, List.forall₂_map_right_iff] at keys inside ⊢
    exact keys.mp (fun _ _ key value => ⟨key, value⟩) inside

/-- Lists that are related item by item give the same if related items do. -/
theorem mapM_eq_of_forall₂ {α' : Type} {related : α → α' → Prop} {read : α → Option β}
    {read' : α' → Option β} {items : List α} {items' : List α'}
    (all : List.Forall₂ related items items') (same : ∀ x y, related x y → read x = read' y) :
    items.mapM read = items'.mapM read' := by
  induction all with
  | nil => rfl
  | cons first rest ih => rw [List.mapM_cons, List.mapM_cons, same _ _ first, ih]

/-- What is read from related values is the same, if reading sees no difference between them. -/
theorem bind_eq_of_rel {related : α → α → Prop} {x? y? : Option α} {f g : α → Option β}
    (both : Option.Rel related x? y?) (same : ∀ x y, related x y → f x = g y) :
    x?.bind f = y?.bind g := by
  rcases both with this | -
  · exact same _ _ this
  · rfl

/-- The results of two readings in turn are related if those of both are. -/
theorem rel_bind {related : α → α → Prop} {related' : β → β → Prop} {x? y? : Option α}
    {f g : α → Option β} (both : Option.Rel related x? y?)
    (keeps : ∀ x y, related x y → Option.Rel related' (f x) (g y)) :
    Option.Rel related' (x?.bind f) (y?.bind g) := by
  rcases both with this | -
  · exact keeps _ _ this
  · exact .none

/-- Lists of related items are read as lists of related values, or neither can be read. -/
theorem rel_mapM {related : α → α → Prop} {related' : β → β → Prop} {read : α → Option β}
    {items items' : List α} (all : List.Forall₂ related items items')
    (keeps : ∀ x y, related x y → Option.Rel related' (read x) (read y)) :
    Option.Rel (List.Forall₂ related') (items.mapM read) (items'.mapM read) := by
  induction all with
  | nil => exact .some .nil
  | @cons x y items items' first rest ih =>
    rw [List.mapM_cons, List.mapM_cons]
    refine rel_bind (keeps x y first) fun _ _ here => rel_bind ih fun _ _ others => ?_
    exact .some (.cons here others)

instance {read : View → Option α} [Stable read] : Stable (list? read) where
  read_eq alike := bind_eq_of_rel alike.items? fun _ _ items =>
    mapM_eq_of_forall₂ items fun _ _ item => item.read_eq read

end View

/-- Two records have the same fields in the same order, with alike values. -/
def Fields.Alike (f g : Fields) : Prop :=
  List.Forall₂ (fun x y => y.1 = x.1 ∧ x.2.Alike y.2) f.entries g.entries

namespace View

variable {α β : Type} {view view' : View}

/-- Alike views have alike fields, or neither has any. -/
theorem Alike.fields? (alike : view.Alike view') :
    Option.Rel Fields.Alike view.fields? view'.fields? := by
  refine rel_bind alike.entries? fun entries entries' all => ?_
  rw [Option.map_eq_bind, Option.map_eq_bind]
  refine rel_bind (rel_mapM all fun e e' here => ?_) fun _ _ fields => .some fields
  rw [here.1.read_eq text?]
  cases e'.1.text? with
  | none => exact .none
  | some name => exact .some ⟨rfl, here.2⟩

instance {read : View → Option α} [Stable read] : Stable (table? read) where
  read_eq alike := by
    refine bind_eq_of_rel alike.fields? fun f g fields => ?_
    rw [mapM_eq_of_forall₂ fields fun x y here => ?_]
    rw [here.1, here.2.read_eq read]

/-! ## Trees -/

/-- In styles that agree on a text a scalar has the same value. -/
theorem scalarValue?_eq {tag? : Option Bytes} {style style' : Style} {text : String}
    (styles : StylesAgree text style style') :
    scalarValue? tag? style text = scalarValue? tag? style' text := by
  rcases styles with same | word
  · simp only [scalarValue?, same]
  · simp only [scalarValue?, word, ite_self]

/-- Alike nodes have the same tree.  The induction is on the number of collections that may be
    entered. -/
theorem value?_node : ∀ (depth : Nat) {anchors anchors' : List (Nat × Node)} {here here' : Node},
    Alike (.node anchors depth here) (.node anchors' depth here') →
      here.value? anchors (depth + 1) = here'.value? anchors' (depth + 1) := by
  intro depth
  induction depth with
  | zero =>
    intro anchors anchors' here here' alike
    cases alike with
    | scalar followed followed' same_tag is_local styles =>
      simp only [Node.value?, followed, followed', same_tag, scalarValue?_eq styles]
  | succ depth ih =>
    intro anchors anchors' here here' alike
    cases alike with
    | scalar followed followed' same_tag is_local styles =>
      simp only [Node.value?, followed, followed', same_tag, scalarValue?_eq styles]
    | seq followed followed' same_tag inside =>
      simp only [List.forall₂_map_left_iff, List.forall₂_map_right_iff] at inside
      rw [Node.value?, Node.value?, followed, followed']
      simp only [Node.addTag, same_tag, mapM_eq_of_forall₂ inside fun _ _ => ih]
    | map followed followed' same_tag keys inside =>
      simp only [List.forall₂_map_left_iff, List.forall₂_map_right_iff] at keys inside
      have both := keys.mp (fun _ _ key value => And.intro key value) inside
      rw [Node.value?, Node.value?, followed, followed']
      simp only [Node.addTag, same_tag]
      -- keys and values are read in pairs
      rw [mapM_eq_of_forall₂ both fun e e' here => ?_]
      simp only [ih here.1, ih here.2]

instance : Stable value? where
  read_eq {view view'} alike := by
    cases alike with
    | scalar followed followed' same_tag is_local styles =>
      exact value?_node _ (.scalar followed followed' same_tag is_local styles)
    | seq followed followed' same_tag inside => exact value?_node _ (.seq followed followed' same_tag inside)
    | map followed followed' same_tag keys inside =>
      exact value?_node _ (.map followed followed' same_tag keys inside)

instance : Stable untaggedValue? := stable_comp (fun v? => v?.filter fun v => !hasTag v) value?

end View

/-! ## What trees nodes have -/

/-- The readings of a list, one after another. -/
theorem forall₂_of_mapM_eq_some {α β : Type} {read : α → Option β} {items : List α} {found : List β}
    (all : items.mapM read = some found) : List.Forall₂ (fun x y => read x = some y) items found := by
  induction items generalizing found with
  | nil =>
    obtain rfl : [] = found := by simpa using all
    exact .nil
  | cons x rest ih =>
    simp only [List.mapM_cons, Option.bind_eq_bind, Option.bind_eq_some_iff, Option.pure_def,
      Option.some.injEq] at all
    obtain ⟨y, here, others, others_found, rfl⟩ := all
    exact .cons here (ih others_found)

/-- What holds of all related pairs holds of the second list. -/
theorem forall_of_forall₂ {α β : Type} {related : α → β → Prop} {P : β → Prop} {items : List α}
    {found : List β} (all : List.Forall₂ related items found) (holds : ∀ x y, related x y → P y) :
    ∀ y ∈ found, P y := by
  induction all with
  | nil => exact nofun
  | cons first rest ih => exact List.forall_mem_cons.mpr ⟨holds _ _ first, ih⟩

namespace Node

/-- The trees that a node can have if collections may be nested less than `depth` deep. -/
inductive HasTree (anchors : List (Nat × Node)) (depth : Nat) (here : Node) : Value → Prop
  | scalar {props : Props} {style : Style} {text : String} {v : Value}
    (followed : here.follow? anchors = some (.scalar props style text))
    (read : scalarValue? props.tag? style text = some v) : HasTree anchors depth here v
  | seq {props : Props} {items : List Node} {found : List Value}
    (followed : here.follow? anchors = some (.seq props items)) (deep : depth ≠ 0)
    (read : List.Forall₂ (fun item v => item.value? anchors depth = some v) items found) :
    HasTree anchors depth here (addTag props (.seq found))
  | map {props : Props} {entries : List (Node × Node)} {found : List (Value × Value)}
    (followed : here.follow? anchors = some (.map props entries)) (deep : depth ≠ 0)
    (read : List.Forall₂ (fun e f => e.1.value? anchors depth = some f.1 ∧
      e.2.value? anchors depth = some f.2) entries found)
    (distinct : areDistinct found = true) : HasTree anchors depth here (addTag props (.map found))

/-- What a node is read as depends on where its references lead. -/
theorem hasTree_of_value? {anchors : List (Nat × Node)} {depth : Nat} {here : Node} {v : Value}
    (read : here.value? anchors (depth + 1) = some v) : HasTree anchors depth here v := by
  rw [value?] at read
  split at read
  · next followed => exact .scalar followed read
  · next followed =>
    obtain ⟨deep, read⟩ := Option.ite_none_left_eq_some.mp read
    obtain ⟨found, each, rfl⟩ := Option.map_eq_some_iff.mp read
    exact .seq followed deep (forall₂_of_mapM_eq_some each)
  · next followed =>
    obtain ⟨deep, read⟩ := Option.ite_none_left_eq_some.mp read
    simp only [Option.map_eq_some_iff, Option.filter_eq_some_iff] at read
    obtain ⟨found, ⟨each, distinct⟩, rfl⟩ := read
    refine .map followed deep ((forall₂_of_mapM_eq_some each).imp fun e f entry => ?_) distinct
    split at entry
    · next key_read value_read =>
      obtain rfl := Option.some.inj entry
      exact ⟨key_read, value_read⟩
    · cases entry
  · cases read

end Node

/-! ## Records -/

/-- A record is read in a stable way if alike fields make the same record. -/
theorem Stable.record {α : Type} {read : View → Option α} {build : Fields → Option α}
    (reads : ∀ view : View, read view = view.fields?.bind build)
    (same : ∀ f g : Fields, f.Alike g → build f = build g) : Stable read where
  read_eq {view view'} alike := by
    rw [reads, reads]
    exact View.bind_eq_of_rel alike.fields? same

namespace Fields.Alike

variable {α : Type} {f g : Fields} {name old new : String} {read : View → Option α} [Stable read]

/-- Choosing fields by their names keeps records alike. -/
theorem filter (alike : f.Alike g) (choose : String → Bool) :
    List.Forall₂ (fun x y : String × View => y.1 = x.1 ∧ x.2.Alike y.2)
      (f.entries.filter fun field => choose field.1) (g.entries.filter fun field => choose field.1) :=
  List.rel_filter (fun x y here => by simp only [here.1]) alike

/-- The places at which a field is written are alike. -/
theorem all (alike : f.Alike g) (name : String) :
    List.Forall₂ View.Alike (f.all name) (g.all name) := by
  unfold Fields.all
  simp only [List.forall₂_map_left_iff, List.forall₂_map_right_iff]
  exact (alike.filter (· == name)).imp fun _ _ here => here.2

/-- A field with a default is read the same from alike fields. -/
theorem withDefault? (alike : f.Alike g) {default : α} :
    f.withDefault? name read default = g.withDefault? name read default := by
  -- a field is written nowhere, once or several times, in both records
  unfold Fields.withDefault?
  have places := alike.all name
  generalize f.all name = here, g.all name = there at places ⊢
  rcases places with _ | ⟨first, _ | ⟨second, more⟩⟩
  · rfl
  · exact first.read_eq read
  · rfl

/-- So is a field that has to be there. -/
theorem required? (alike : f.Alike g) : f.required? name read = g.required? name read := by
  unfold Fields.required?
  have places := alike.all name
  generalize f.all name = here, g.all name = there at places ⊢
  rcases places with _ | ⟨first, _ | ⟨second, more⟩⟩
  · rfl
  · exact first.read_eq read
  · rfl

theorem optional? (alike : f.Alike g) : f.optional? name read = g.optional? name read :=
  alike.withDefault?

theorem last? (alike : f.Alike g) : f.last? name read = g.last? name read := by
  unfold Fields.last?
  rw [View.mapM_eq_of_forall₂ (alike.all name) fun _ _ here => here.read_eq (View.optional? read)]

theorem lastText? (alike : f.Alike g) : f.lastText? name = g.lastText? name := alike.last?

theorem lastTexts? (alike : f.Alike g) : f.lastTexts? name = g.lastTexts? name := alike.last?

theorem renamed (alike : f.Alike g) : (f.renamed old new).Alike (g.renamed old new) := by
  unfold Fields.Alike Fields.renamed
  simp only [List.forall₂_map_left_iff, List.forall₂_map_right_iff]
  exact alike.imp fun _ _ here => ⟨by simp only [here.1], here.2⟩

theorem others? (alike : f.Alike g) : f.others? name = g.others? name := by
  unfold Fields.others?
  rw [View.mapM_eq_of_forall₂ (alike.filter (· != name)) fun x y here => ?_]
  rw [here.1, here.2.read_eq View.untaggedValue?]

end Fields.Alike

end DeployManifest.Yaml
