import Mathlib.Data.List.Forall2

/-!
# Steps that may fail

A stage of a resolution is a chain of steps, each of which gives a value or an error.  The lemmas
here take such a chain apart where it succeeds: it does if its first step succeeds and the rest
succeeds with what that step gave (`bind_eq_ok`).  A step that is made for each item of a list
succeeds if it does for each of them (`mapM_eq_ok_iff`), and then relates the list item by item to what
the steps gave.  Chains whose steps agree give the same, be it a value or an error (`bind_congr_of_ok`).

- `bind_eq_ok`, `bind_eq_error`, `map_eq_ok`: a chain that succeeds or fails, taken apart.
- `mapM_eq_ok_iff`, `exists_mapM_eq_ok_iff`: a step for every item of a list.
- `forall₂_getElem?`, `forall₂_find?`, `forall₂_comp_iff`: lists related item by item.
-/

namespace DeployManifest

variable {ε ε' α β γ : Type}

theorem bind_eq_ok {x : Except ε α} {f : α → Except ε β} {b : β} :
    (x >>= f) = .ok b ↔ ∃ a, x = .ok a ∧ f a = .ok b := by
  cases x <;> simp [bind, Except.bind]

theorem bind_eq_error {x : Except ε α} {f : α → Except ε β} {e : ε} :
    (x >>= f) = .error e ↔ x = .error e ∨ ∃ a, x = .ok a ∧ f a = .error e := by
  cases x <;> simp [bind, Except.bind]

/-- Rewording an error changes nothing of a success. -/
@[simp] theorem mapError_eq_ok {x : Except ε α} {f : ε → ε'} {a : α} :
    x.mapError f = .ok a ↔ x = .ok a := by
  cases x with
  | error e => exact ⟨nofun, nofun⟩
  | ok b => exact ⟨fun mapped => congrArg _ (Except.ok.inj mapped),
      fun same => congrArg _ (Except.ok.inj same)⟩

theorem exists_eq_ok_of_isOk {x : Except ε α} (succeeds : x.isOk = true) : ∃ a, x = .ok a := by
  cases x with
  | error e => nomatch succeeds
  | ok a => exact ⟨a, rfl⟩

/-- What is computed from the value of a step is there just if the step has a value. -/
theorem map_eq_ok {x : Except ε α} {f : α → β} {b : β} :
    x.map f = .ok b ↔ ∃ a, x = .ok a ∧ f a = b := by
  cases x with
  | error e => exact ⟨nofun, nofun⟩
  | ok a => simp [Except.map]

/-- Steps for the items of a list give a list of what each of them gives. -/
theorem mapM_eq_ok_iff {f : α → Except ε β} {items : List α} {found : List β} :
    items.mapM f = .ok found ↔ List.Forall₂ (fun x y => f x = .ok y) items found := by
  induction items generalizing found with
  | nil => simp [pure, Except.pure, eq_comm]
  | cons x rest ih =>
    simp only [List.mapM_cons, bind_eq_ok, ih, List.forall₂_cons_left_iff]
    constructor
    · rintro ⟨y, here, others, all, same⟩
      exact ⟨y, others, here, all, (Except.ok.inj same).symm⟩
    · rintro ⟨y, others, here, all, rfl⟩
      exact ⟨y, here, others, all, rfl⟩

/-- Steps for the items of a list succeed if each of them does. -/
theorem exists_mapM_eq_ok_iff {f : α → Except ε β} {items : List α} :
    (∃ found, items.mapM f = .ok found) ↔ ∀ x ∈ items, ∃ y, f x = .ok y := by
  simp only [mapM_eq_ok_iff]
  induction items with
  | nil => exact ⟨fun _ => nofun, fun _ => ⟨[], .nil⟩⟩
  | cons x rest ih =>
    simp only [List.forall₂_cons_left_iff, List.forall_mem_cons, ← ih]
    constructor
    · rintro ⟨_, y, others, here, all, rfl⟩
      exact ⟨⟨y, here⟩, others, all⟩
    · rintro ⟨⟨y, here⟩, others, all⟩
      exact ⟨_, y, others, here, all, rfl⟩

/-! ## Steps that agree -/

/-- Chains agree if their first steps do, and the rest does on what these give. -/
theorem bind_congr_of_ok {x y : Except ε α} {f g : α → Except ε β} (first : x = y)
    (rest : ∀ a, y = .ok a → f a = g a) : (x >>= f) = (y >>= g) := by
  subst first
  cases x with
  | error e => rfl
  | ok a => exact rest a rfl

/-- Steps that agree on all items of a list give the same for the list, failures included. -/
theorem mapM_congr_of_mem {f g : α → Except ε β} {items : List α} (agree : ∀ x ∈ items, f x = g x) :
    items.mapM f = items.mapM g := by
  induction items with
  | nil => rfl
  | cons x rest ih =>
    have ⟨here, later⟩ := List.forall_mem_cons.mp agree
    rw [List.mapM_cons, List.mapM_cons, here, ih later]

/-- Steps that agree on all items of a list, whatever came before, make the same run. -/
theorem foldlM_congr_of_mem {f g : β → α → Except ε β} {items : List α}
    (agree : ∀ x ∈ items, ∀ b, f b x = g b x) (b : β) : items.foldlM f b = items.foldlM g b := by
  induction items generalizing b with
  | nil => rfl
  | cons x rest ih =>
    have ⟨here, later⟩ := List.forall_mem_cons.mp agree
    rw [List.foldlM_cons, List.foldlM_cons, here]
    exact bind_congr_of_ok rfl fun last _ => ih later last

/-! ## Lists that are related item by item -/

section

variable {related other : α → β → Prop} {items : List α} {found : List β}

/-- Every item of the first list is related to one of the second. -/
theorem exists_of_mem_left (all : List.Forall₂ related items found) {x : α} (mem : x ∈ items) :
    ∃ y ∈ found, related x y := by
  induction all with
  | nil => nomatch mem
  | cons here _ ih =>
    rcases List.mem_cons.mp mem with rfl | later
    · exact ⟨_, List.mem_cons_self, here⟩
    · obtain ⟨y, there, both⟩ := ih later
      exact ⟨y, List.mem_cons_of_mem _ there, both⟩

theorem exists_of_mem_right (all : List.Forall₂ related items found) {y : β} (mem : y ∈ found) :
    ∃ x ∈ items, related x y :=
  exists_of_mem_left all.flip mem

/-- Lists stay related item by item under a weaker relation, which need only hold for the items there are.
    -/
theorem forall₂_imp_of_mem (all : List.Forall₂ related items found)
    (each : ∀ x ∈ items, ∀ y, related x y → other x y) : List.Forall₂ other items found := by
  induction all with
  | nil => exact .nil
  | cons here _ ih =>
    rw [List.forall_mem_cons] at each
    exact .cons (each.1 _ here) (ih each.2)

/-- Two steps for all items of a list are both made for each item. -/
theorem forall₂_comp_iff {first : α → β → Prop} {second : β → γ → Prop} {last : List γ} :
    List.Forall₂ (fun x z => ∃ y, first x y ∧ second y z) items last ↔
      ∃ middle, List.Forall₂ first items middle ∧ List.Forall₂ second middle last := by
  constructor
  · intro both
    induction both with
    | nil => exact ⟨[], .nil, .nil⟩
    | cons here _ ih =>
      obtain ⟨y, before, behind⟩ := here
      obtain ⟨middle, befores, behinds⟩ := ih
      exact ⟨y :: middle, .cons before befores, .cons behind behinds⟩
  · rintro ⟨middle, befores, behinds⟩
    induction befores generalizing last with
    | nil => cases behinds; exact .nil
    | cons before _ ih =>
      cases behinds with
      | cons behind behinds => exact .cons ⟨_, before, behind⟩ (ih behinds)

/-- In lists that are related item by item, there is an item at a place in both or in neither. -/
theorem forall₂_getElem? (all : List.Forall₂ related items found) (i : Nat) :
    Option.Rel related items[i]? found[i]? := by
  induction all generalizing i with
  | nil => exact .none
  | cons here _ ih =>
    cases i with
    | zero => exact .some here
    | succ i => exact ih i

/-- Lists that are related item by item have their first hit in the same place. -/
theorem forall₂_find? {p : α → Bool} {q : β → Bool} (all : List.Forall₂ related items found)
    (agree : ∀ x y, related x y → p x = q y) : Option.Rel related (items.find? p) (found.find? q) := by
  induction all with
  | nil => exact .none
  | cons here _ ih =>
    rw [List.find?_cons, List.find?_cons, agree _ _ here]
    split
    · exact .some here
    · exact ih

/-- Items at places of two lists with the same item become the same, if each step gives the same for
    it. -/
theorem getElem?_eq_of_forall₂ {first second : α → β → Prop} {items' : List α} {last last' : List β}
    {i j : Nat} (all : List.Forall₂ first items last)
    (all' : List.Forall₂ second items' last') (same : items[i]? = items'[j]?)
    (agree : ∀ x y y', first x y → second x y' → y = y') : last[i]? = last'[j]? := by
  have here := forall₂_getElem? all i
  have there := forall₂_getElem? all' j
  rw [← same] at there
  generalize items[i]? = x?, last[i]? = y?, last'[j]? = y'? at here there ⊢
  cases here with
  | none => cases there; rfl
  | some becomes =>
    cases there with
    | some becomes' => rw [agree _ _ _ becomes becomes']

/-- Changing the items of the second list keeps the lists related if each change does. -/
theorem forall₂_mapIdx {f : Nat → β → β} (all : List.Forall₂ related items found)
    (keeps : ∀ i x y, related x y → related x (f i y)) : List.Forall₂ related items (found.mapIdx f) := by
  induction all generalizing f with
  | nil => exact .nil
  | cons here _ ih =>
    rw [List.mapIdx_cons]
    exact .cons (keeps 0 _ _ here) (ih fun i => keeps (i + 1))

end

end DeployManifest
