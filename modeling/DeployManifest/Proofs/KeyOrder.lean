import DeployManifest.Yaml.Canonical
import DeployManifest.Proofs.FloatText
import Mathlib.Data.List.Pairwise

/-!
# The order of keys

Entries are sorted by the ranks of their keys.  Sorting keeps the entries and puts them in order
(`perm_sortEntries`, `pairwise_sortEntries`), and putting sorted entries into an empty mapping changes
nothing if no two keys are the same (`insertAll_eq_self`).  In general each key stands where it comes up
first (`keys_insertAll`), with the last value that comes up for it (`lookup?_insertAll`).

Two scalars of one rank are the same key (`same_of_rank_eq`): keys of different kinds are described
differently, and the description of a number tells which number it is.  So a mapping with scalar keys
has one sorted arrangement (`sortEntries_eq_of_perm`).

- `MayPrecede`: what it means for entries to be in order.
- `IsScalar`, `AreKeyed`: scalars, and entries whose keys are scalars, none of them twice.
- `same_of_rank_eq`, `same_congr_of_isScalar`: when scalars are the same key.
- `insertAll_eq_self`, `keys_insertAll`, `lookup?_insertAll`: entries that are put in one after another.
-/

namespace DeployManifest.Yaml.Value

open Number (Double)

/-! ## Sorting -/

theorem precedes_iff {a b : Nat × String} :
    precedes a b = true ↔ a.1 < b.1 ∨ (a.1 = b.1 ∧ a.2 ≤ b.2) := by
  simp [precedes]

/-- Of two ranks one precedes the other. -/
theorem precedes_total (a b : Nat × String) : precedes a b = true ∨ precedes b a = true := by
  rw [precedes_iff, precedes_iff]
  rcases Nat.lt_trichotomy a.1 b.1 with less | same | more
  · exact .inl (.inl less)
  · rcases String.le_total a.2 b.2 with le | ge
    · exact .inl (.inr ⟨same, le⟩)
    · exact .inr (.inr ⟨same.symm, ge⟩)
  · exact .inr (.inl more)

/-- What precedes a rank precedes all that this one precedes. -/
theorem precedes_trans {a b c : Nat × String} (ab : precedes a b = true)
    (bc : precedes b c = true) : precedes a c = true := by
  rw [precedes_iff] at *
  rcases ab with ab | ⟨ab, texts⟩ <;> rcases bc with bc | ⟨bc, texts'⟩
  · exact .inl (by omega)
  · exact .inl (by omega)
  · exact .inl (by omega)
  · exact .inr ⟨ab.trans bc, String.le_trans texts texts'⟩

/-- Ranks that precede each other are the same. -/
theorem precedes_antisymm {a b : Nat × String} (ab : precedes a b = true)
    (ba : precedes b a = true) : a = b := by
  rw [precedes_iff] at *
  rcases ab with ab | ⟨same, texts⟩
  · omega
  · rcases ba with ba | ⟨-, texts'⟩
    · omega
    · exact Prod.ext same (String.le_antisymm texts texts')

/-- Whether an entry may stand in front of another. -/
def MayPrecede (a b : Value × Value) : Prop := precedes (rank a.1) (rank b.1) = true

/-- Inserting an entry in order adds it and keeps the others. -/
theorem perm_insertSorted (entry : Value × Value) (entries : Entries) :
    (insertSorted entry entries).Perm (entry :: entries) := by
  induction entries with
  | nil => exact List.Perm.refl _
  | cons first rest ih =>
    unfold insertSorted
    split
    · exact (ih.cons first).trans (List.Perm.swap entry first rest)
    · exact List.Perm.refl _

/-- It keeps entries in order that were. -/
theorem pairwise_insertSorted {entry : Value × Value} {entries : Entries}
    (ordered : entries.Pairwise MayPrecede) : (insertSorted entry entries).Pairwise MayPrecede := by
  induction entries with
  | nil => exact List.pairwise_singleton _ _
  | cons first rest ih =>
    have ⟨above, ordered_rest⟩ := List.pairwise_cons.mp ordered
    unfold insertSorted
    split
    · next may =>
      refine List.pairwise_cons.mpr ⟨fun e he => ?_, ih ordered_rest⟩
      rcases List.mem_cons.mp ((perm_insertSorted entry rest).mem_iff.mp he) with rfl | he
      · exact may
      · exact above e he
    · next may_not =>
      have may : MayPrecede entry first := (precedes_total _ _).resolve_right may_not
      refine List.pairwise_cons.mpr ⟨fun e he => ?_, ordered⟩
      rcases List.mem_cons.mp he with rfl | he
      · exact may
      · exact precedes_trans may (above e he)

/-- What holds of a sorted list while entries are put into it. -/
theorem foldl_insertSorted (entries sorted : Entries) (ordered : sorted.Pairwise MayPrecede) :
    (entries.foldl (fun sorted entry => insertSorted entry sorted) sorted).Perm (entries ++ sorted) ∧
    (entries.foldl (fun sorted entry => insertSorted entry sorted) sorted).Pairwise MayPrecede := by
  induction entries generalizing sorted with
  | nil => exact ⟨List.Perm.refl _, ordered⟩
  | cons first rest ih =>
    have ⟨perm, pairwise⟩ := ih (insertSorted first sorted) (pairwise_insertSorted ordered)
    refine ⟨perm.trans ?_, pairwise⟩
    exact ((perm_insertSorted first sorted).append_left rest).trans List.perm_middle

theorem perm_sortEntries (entries : Entries) : (sortEntries entries).Perm entries := by
  simpa [sortEntries] using (foldl_insertSorted entries [] List.Pairwise.nil).1

theorem pairwise_sortEntries (entries : Entries) : (sortEntries entries).Pairwise MayPrecede :=
  (foldl_insertSorted entries [] List.Pairwise.nil).2

/-! ## Scalar keys -/

/-- Nulls, booleans, numbers and strings. -/
inductive IsScalar : Value → Prop where
  | null : IsScalar .null
  | bool (b : Bool) : IsScalar (.bool b)
  | int (n : Int) : IsScalar (.int n)
  | float (x : Double) : IsScalar (.float x)
  | string (s : String) : IsScalar (.string s)

theorem describe_number_inj {s t : String}
    (described : "Number(" ++ s ++ ")" = "Number(" ++ t ++ ")") : s = t := by
  have lists := congrArg String.toList described
  exact String.toList_inj.mp (by simpa using lists)

theorem describe_bool_inj {b c : Bool}
    (described : "Bool(" ++ toString b ++ ")" = "Bool(" ++ toString c ++ ")") : b = c := by
  cases b <;> cases c <;> first | rfl | exact absurd described (by decide)

/-- The null is not described like a boolean. -/
theorem describe_null_ne_bool (s : String) : "Null" ≠ "Bool(" ++ s ++ ")" := by
  intro described
  have lists := congrArg String.toList described
  rw [String.append_assoc, String.toList_append] at lists
  nomatch lists

/-- The null is not described like a number. -/
theorem describe_null_ne_number (s : String) : "Null" ≠ "Number(" ++ s ++ ")" := by
  intro described
  have lists := congrArg String.toList described
  rw [String.append_assoc, String.toList_append] at lists
  nomatch lists

/-- No boolean is described like a number. -/
theorem describe_bool_ne_number (s t : String) : "Bool(" ++ s ++ ")" ≠ "Number(" ++ t ++ ")" := by
  intro described
  have lists := congrArg String.toList described
  simp only [String.append_assoc, String.toList_append] at lists
  nomatch lists

/-- Different kinds of scalars have different ranks, and the rank of a number or text tells which one
    it is. -/
theorem same_of_rank_eq {k l : Value} (hk : k.IsScalar) (hl : l.IsScalar)
    (ranks : rank k = rank l) : k.same l = true := by
  -- ranks are a kind and a description; most pairs of scalars differ in how the description starts
  have texts := congrArg Prod.snd ranks
  have kinds := congrArg Prod.fst ranks
  cases hk with
  | null =>
    cases hl with
    | null => rfl
    | bool c => exact absurd texts (describe_null_ne_bool _)
    | int n => exact absurd texts (describe_null_ne_number _)
    | float y => exact absurd texts (describe_null_ne_number _)
    | string t => simp [rank] at kinds
  | bool b =>
    cases hl with
    | null => exact absurd texts.symm (describe_null_ne_bool _)
    | bool c =>
      obtain rfl := describe_bool_inj texts
      simp [same]
    | int n => exact absurd texts (describe_bool_ne_number _ _)
    | float y => exact absurd texts (describe_bool_ne_number _ _)
    | string t => simp [rank] at kinds
  | int m =>
    cases hl with
    | null => exact absurd texts.symm (describe_null_ne_number _)
    | bool c => exact absurd texts.symm (describe_bool_ne_number _ _)
    | int n =>
      obtain rfl := Number.int_eq_of_toString_eq (describe_number_inj texts)
      simp [same]
    | float y => exact absurd (describe_number_inj texts).symm (y.text_ne_toString_int m)
    | string t => simp [rank] at kinds
  | float x =>
    cases hl with
    | null => exact absurd texts.symm (describe_null_ne_number _)
    | bool c => exact absurd texts.symm (describe_bool_ne_number _ _)
    | int n => exact absurd (describe_number_inj texts) (x.text_ne_toString_int n)
    | float y => exact Double.same_of_text_eq (describe_number_inj texts)
    | string t => simp [rank] at kinds
  | string s =>
    cases hl with
    | string t =>
      obtain rfl : s = t := texts
      simp [same]
    | _ => simp [rank] at kinds

/-- What is the same as a scalar is one. -/
theorem isScalar_iff_of_same {k l : Value} (alike : k.same l = true) : k.IsScalar ↔ l.IsScalar := by
  constructor
  · intro scalar
    cases scalar <;> cases l <;> first | constructor | cases alike
  · intro scalar
    cases scalar <;> cases k <;> first | constructor | cases alike

/-- For scalars it does not matter which of them is compared with the other. -/
theorem same_comm_of_isScalar {k l : Value} (hk : k.IsScalar) (hl : l.IsScalar) :
    k.same l = l.same k := by
  cases hk <;> cases hl <;> simp only [same]
  · exact Bool.beq_comm
  · exact Bool.beq_comm
  · exact Double.same_comm _ _
  · exact Bool.beq_comm

/-- Whatever is the same as one of two scalars that are the same is the same as the other. -/
theorem same_congr_of_isScalar {j k l : Value} (hl : l.IsScalar) (alike : k.same l = true) :
    j.same k = j.same l := by
  cases hl <;> cases k <;> simp only [same, beq_iff_eq, Bool.false_eq_true] at alike
  · rfl
  · rw [alike]
  · rw [alike]
  · cases j <;> simp only [same, Double.same_congr alike]
  · rw [alike]

/-- Of two keys that are the same, both are a given scalar or neither is. -/
theorem same_eq_of_same {j k l : Value} (hl : l.IsScalar) (alike : j.same k = true) :
    j.same l = k.same l := by
  refine Bool.eq_iff_iff.mpr ⟨fun same => ?_, fun same => ?_⟩
  · have hj := (isScalar_iff_of_same same).mpr hl
    have hk := (isScalar_iff_of_same alike).mp hj
    rw [← same_congr_of_isScalar hl same, ← same_comm_of_isScalar hj hk]
    exact alike
  · rw [← same_congr_of_isScalar hl same]
    exact alike

/-! ## Mappings with scalar keys -/

/-- Entries whose keys are scalars, no two of them the same. -/
structure AreKeyed (entries : Entries) : Prop where
  scalar : ∀ e ∈ entries, e.1.IsScalar
  distinct : entries.Pairwise fun a b => a.1.same b.1 = false

/-- Different scalar keys have different ranks. -/
theorem AreKeyed.ranks_differ {entries : Entries} (keyed : AreKeyed entries) :
    entries.Pairwise fun a b => rank a.1 ≠ rank b.1 := by
  refine List.Pairwise.imp_of_mem ?_ keyed.distinct
  intro a b ha hb differ ranks
  rw [same_of_rank_eq (keyed.scalar a ha) (keyed.scalar b hb) ranks] at differ
  nomatch differ

/-- That keys are scalars, none of them twice, does not depend on their order. -/
theorem AreKeyed.perm {entries others : Entries} (keyed : AreKeyed entries)
    (perm : entries.Perm others) : AreKeyed others := by
  refine ⟨fun e he => keyed.scalar e (perm.mem_iff.mpr he), ?_⟩
  have differ : entries.Pairwise fun a b =>
      a.1.IsScalar ∧ b.1.IsScalar ∧ a.1.same b.1 = false :=
    List.Pairwise.imp_of_mem (fun ha hb differ =>
      ⟨keyed.scalar _ ha, keyed.scalar _ hb, differ⟩) keyed.distinct
  have differ := perm.pairwise differ fun ⟨ha, hb, differ⟩ =>
    ⟨hb, ha, (same_comm_of_isScalar hb ha).trans differ⟩
  exact differ.imp fun h => h.2.2

/-- Sorted entries do not depend on the order in which they were listed. -/
theorem sortEntries_eq_of_perm {entries others : Entries} (keyed : AreKeyed entries)
    (perm : entries.Perm others) : sortEntries entries = sortEntries others := by
  have arrangements := (perm_sortEntries entries).trans (perm.trans (perm_sortEntries others).symm)
  refine List.Perm.eq_of_pairwise ?_ (pairwise_sortEntries entries) (pairwise_sortEntries others)
    arrangements
  intro a b ha hb ab ba
  have a_mem : a ∈ entries := (perm_sortEntries entries).mem_iff.mp ha
  have b_mem : b ∈ entries := perm.mem_iff.mpr ((perm_sortEntries others).mem_iff.mp hb)
  have : Std.Symm fun a b : Value × Value => rank a.1 ≠ rank b.1 := ⟨fun _ _ differ => differ.symm⟩
  by_contra differ
  exact keyed.ranks_differ.forall a_mem b_mem differ (precedes_antisymm ab ba)

theorem same_string_iff {key : Value} {name : String} : key.same (.string name) = true ↔ key = .string name := by
  cases key <;> simp [same]

theorem string_same_iff {key : Value} {name : String} : (Value.string name).same key = true ↔ key = .string name := by
  cases key <;> simp [same]
  exact eq_comm

/-- A key that is not bound yet comes last. -/
theorem insert_of_fresh {key value : Value} {entries : Entries}
    (fresh : ∀ e ∈ entries, e.1.same key = false) :
    insert key value entries = entries ++ [(key, value)] := by
  induction entries with
  | nil => rfl
  | cons first rest ih =>
    have differs := fresh first List.mem_cons_self
    have others := ih fun e he => fresh e (List.mem_cons_of_mem _ he)
    unfold insert
    rw [if_neg (by simp [differs]), others]
    rfl

/-- The last entry of a list is put in last. -/
theorem insertAll_concat (entries : Entries) (e : Value × Value) :
    insertAll (entries ++ [e]) = insert e.1 e.2 (insertAll entries) := by
  unfold insertAll
  rw [List.foldl_append]
  rfl

/-- Entries with distinct keys stay as they are when they are put into an empty mapping. -/
theorem insertAll_eq_self {entries : Entries}
    (distinct : entries.Pairwise fun a b => a.1.same b.1 = false) :
    insertAll entries = entries := by
  -- the last entry is inserted last, so the induction goes from the end, here and below
  induction entries using List.reverseRecOn with
  | nil => rfl
  | append_singleton entries last ih =>
    obtain ⟨before, -, apart⟩ := List.pairwise_append.mp distinct
    have fresh : ∀ e ∈ entries, e.1.same last.1 = false := fun e mem =>
      apart e mem last (List.mem_singleton_self last)
    rw [insertAll_concat, ih before, insert_of_fresh fresh]

/-- An entry that comes up when another one is bound has its key or an old one, and its value or an old one. -/
theorem key_and_value_of_mem_insert {key value : Value} {entries : Entries} {e : Value × Value}
    (mem : e ∈ insert key value entries) :
    (e.1 = key ∨ ∃ f ∈ entries, f.1 = e.1) ∧ (e.2 = value ∨ ∃ f ∈ entries, f.2 = e.2) := by
  induction entries with
  | nil =>
    obtain rfl := List.mem_singleton.mp mem
    exact ⟨.inl rfl, .inl rfl⟩
  | cons first rest ih =>
    unfold insert at mem
    -- an old key may get the new value, and then keeps its own spelling
    split at mem
    · rcases List.mem_cons.mp mem with rfl | mem
      · exact ⟨.inr ⟨first, by simp⟩, .inl rfl⟩
      · exact ⟨.inr ⟨e, by simp [mem]⟩, .inr ⟨e, by simp [mem]⟩⟩
    · rcases List.mem_cons.mp mem with rfl | mem
      · exact ⟨.inr ⟨first, by simp⟩, .inr ⟨first, by simp⟩⟩
      · obtain ⟨with_key, with_value⟩ := ih mem
        exact ⟨with_key.imp_right fun ⟨f, mem, same⟩ => ⟨f, List.mem_cons_of_mem _ mem, same⟩,
          with_value.imp_right fun ⟨f, mem, same⟩ => ⟨f, List.mem_cons_of_mem _ mem, same⟩⟩

/-- Binding a key keeps all keys distinct. -/
theorem pairwise_insert {key value : Value} {entries : Entries}
    (distinct : entries.Pairwise fun a b => a.1.same b.1 = false) :
    (insert key value entries).Pairwise fun a b => a.1.same b.1 = false := by
  induction entries with
  | nil => exact List.pairwise_singleton _ _
  | cons first rest ih =>
    obtain ⟨differs, distinct⟩ := List.pairwise_cons.mp distinct
    unfold insert
    split
    · exact .cons differs distinct
    · next other =>
      refine .cons (fun e mem => ?_) (ih distinct)
      rcases (key_and_value_of_mem_insert mem).1 with same | ⟨f, mem, same⟩
      · rw [same]
        exact Bool.eq_false_iff.mpr other
      · rw [← same]
        exact differs f mem

/-- The keys and the values of entries that have been put in one after another are those of some of them,
    though a key and its value need not be of the same one. -/
theorem key_and_value_of_mem_insertAll {entries : Entries} {e : Value × Value} (mem : e ∈ insertAll entries) :
    (∃ f ∈ entries, f.1 = e.1) ∧ ∃ f ∈ entries, f.2 = e.2 := by
  induction entries using List.reverseRecOn generalizing e with
  | nil => cases mem
  | append_singleton entries last ih =>
    rw [insertAll_concat] at mem
    have here : last ∈ entries ++ [last] := List.mem_append_right _ (List.mem_singleton_self last)
    obtain ⟨with_key, with_value⟩ := key_and_value_of_mem_insert mem
    constructor
    · rcases with_key with new | ⟨f, before, same⟩
      · exact ⟨last, here, new.symm⟩
      · obtain ⟨g, mem, again⟩ := (ih before).1
        exact ⟨g, List.mem_append_left _ mem, again.trans same⟩
    · rcases with_value with new | ⟨f, before, same⟩
      · exact ⟨last, here, new.symm⟩
      · obtain ⟨g, mem, again⟩ := (ih before).2
        exact ⟨g, List.mem_append_left _ mem, again.trans same⟩

/-- Entries that have been put in one after another have distinct keys. -/
theorem pairwise_insertAll (entries : Entries) :
    (insertAll entries).Pairwise fun a b => a.1.same b.1 = false := by
  induction entries using List.reverseRecOn with
  | nil => exact .nil
  | append_singleton entries last ih =>
    rw [insertAll_concat]
    exact pairwise_insert ih

/-! ## What is bound in the end -/

/-- What is bound to a scalar after a key has been bound: its value, if the two are the same. -/
theorem lookup?_insert {key k v : Value} (scalar : key.IsScalar) (entries : Entries) :
    lookup? key (insert k v entries) = if k.same key then some v else lookup? key entries := by
  induction entries with
  | nil => rfl
  | cons first rest ih =>
    rw [insert]
    split
    · next here =>
      rw [lookup?, lookup?, same_eq_of_same scalar here]
      split <;> rfl
    · next apart =>
      rw [lookup?, lookup?, ih]
      by_cases wanted : k.same key = true
      · -- the key in front is another one than the new one, so it is not the wanted one either
        rw [← same_congr_of_isScalar scalar wanted, if_neg apart, if_pos wanted, if_pos wanted]
      · rw [if_neg wanted, if_neg wanted]

/-- When entries are put in one after another, the last one with a key decides what is bound to it. -/
theorem lookup?_insertAll {key : Value} (scalar : key.IsScalar) (entries : Entries) :
    lookup? key (insertAll entries) = lookup? key entries.reverse := by
  induction entries using List.reverseRecOn with
  | nil => rfl
  | append_singleton entries e ih =>
    rw [insertAll_concat, lookup?_insert scalar, ih, List.reverse_concat, lookup?]

/-- A key that is bound already keeps its place, and another one comes last. -/
theorem keys_insert (key value : Value) (entries : Entries) :
    (insert key value entries).map (·.1) =
      if entries.any fun e => e.1.same key then entries.map (·.1) else entries.map (·.1) ++ [key] := by
  induction entries with
  | nil => rfl
  | cons first rest ih =>
    rw [insert]
    split
    · next here => simp [here]
    · next apart =>
      simp only [List.map_cons, List.any_cons, ih, apart, Bool.false_or]
      split <;> rfl

/-- When entries are put in one after another, each key stands where it comes up first. -/
theorem keys_insertAll (entries : Entries) :
    (insertAll entries).map (·.1) = (entries.map (·.1)).eraseDupsBy fun key old => old.same key := by
  -- for the induction, some entries are inserted already
  have all : ∀ later sofar : Entries,
      (later.foldl (fun acc e => insert e.1 e.2 acc) sofar).map (·.1) =
        List.eraseDupsBy.loop (fun key old => old.same key) (later.map (·.1)) (sofar.map (·.1)).reverse := by
    intro later
    induction later with
    | nil => intro sofar; simp [List.eraseDupsBy.loop]
    | cons first rest ih =>
      intro sofar
      rw [List.foldl_cons, ih, keys_insert, List.map_cons, List.eraseDupsBy.loop]
      have known : (sofar.map (·.1)).reverse.any (fun old => old.same first.1) =
          sofar.any fun e => e.1.same first.1 := by
        rw [List.any_reverse, List.any_map]
        rfl
      rw [known]
      cases sofar.any fun e => e.1.same first.1 with
      | true => rfl
      | false => simp
  exact all entries []

end DeployManifest.Yaml.Value
