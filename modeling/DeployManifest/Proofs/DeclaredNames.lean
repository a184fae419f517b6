import DeployManifest.Proofs.ListedSecrets

/-!
# Declared variables and what is reported as implicit

A placeholder refers to a variable: one with a slash in its name to the variable of that name, any other
to the first part between its dots, for the further parts choose a field (`RefersTo`).  A variable is
implicit if some placeholder in the canonical text refers to it and it is not declared; nothing else is
ever read from a secret.

So it is the variable a placeholder refers to that may be declared, and not its whole name.  The two
differ for names with dots and no slash: `((foo.bar))` asks for a field of `foo` even where a variable
`foo.bar` is declared (`not_forall_implicit_undeclared`).

Main statement: `implicitVariables_eq_asked`.

- `Manifest.Declares`, `Manifest.Asks`: the variables that are declared, and those that placeholders ask
  for.
- `exists_of_mem_readKeys`: nothing else is ever read from a secret.
-/

namespace DeployManifest

open Placeholder (RefersTo)

namespace Manifest

variable {m : Manifest} {names : NameSet} {refs : SecretRefs} {text name : String} {p : Placeholder}

/-- Whether a variable is declared. -/
def Declares (m : Manifest) (name : String) : Prop := ∃ v ∈ m.declared, v.name = name

/-- Whether a placeholder in a text asks for a variable that is not declared. -/
structure Asks (m : Manifest) (text : String) (p : Placeholder) (name : String) : Prop where
  stands : p.StandsIn text.toList
  refers : RefersTo p.name name
  undeclared : ¬ m.Declares name

theorem print_eq_ok_iff : m.print = .ok text ↔ m.toValue.canonical? = some text := by
  unfold print Yaml.printOr
  cases m.toValue.canonical? <;> simp

/-- A name is left when the declared ones are taken away just if a placeholder asks for it. -/
theorem mem_undeclared_iff :
    name ∈ (m.declared.foldl (fun names v => names.remove v.name) (Placeholder.names text)).toList ↔
      ∃ p, m.Asks text p name := by
  rw [mem_undeclared, Placeholder.mem_names_iff]
  constructor
  · rintro ⟨⟨p, stands, root⟩, undeclared⟩
    exact ⟨p, stands, Placeholder.root?_eq_some_iff.mp root, fun ⟨v, mem, same⟩ => undeclared v mem same⟩
  · rintro ⟨p, stands, refers, undeclared⟩
    exact ⟨⟨p, stands, Placeholder.root?_eq_some_iff.mpr refers⟩, fun v mem same => undeclared ⟨v, mem, same⟩⟩

/-- The name of a declared variable asks for another variable only if it is a field of that one. -/
theorem Asks.isField (asks : m.Asks text p name) (declared : m.Declares (String.ofList p.name)) :
    '/' ∉ p.name ∧ '.' ∈ p.name := by
  have entire : ¬ ('/' ∈ p.name ∨ '.' ∉ p.name) := fun entire =>
    asks.undeclared (asks.refers.eq_ofList entire ▸ declared)
  rwa [not_or, not_not] at entire

/-- A key that is read from a secret backs an implicit variable. -/
theorem exists_of_mem_readKeys (found : m.implicitVariables = .ok names) (grouped : m.secretRefs = .ok refs)
    {k : SecretKey} (mem : k ∈ refs.readKeys) :
    ∃ name ∈ names.toList, SecretKey.ofVariable name = .ok k := by
  obtain ⟨others, same, grouped⟩ := secretRefs_eq_ok_iff.mp grouped
  obtain rfl := Except.ok.inj (found.symm.trans same)
  have collects := SecretRefs.collects_ofVariables grouped
  obtain ⟨read, there, rfl⟩ := List.mem_map.mp mem
  exact ⟨read.2.name, collects.whole.mem_iff.mp (List.mem_map_of_mem there), collects.keyed read there⟩

/-- The implicit variables are those that some placeholder asks for, and nothing is read from secrets but
    for them.  A placeholder with the name of a declared variable asks for none, unless that name chooses
    a field of another variable. -/
theorem implicitVariables_eq_asked (found : m.implicitVariables = .ok names) :
    ∃ text, m.print = .ok text ∧
      (∀ name, name ∈ names.toList ↔ ∃ p, m.Asks text p name) ∧
      (∀ p name, m.Asks text p name → m.Declares (String.ofList p.name) → '/' ∉ p.name ∧ '.' ∈ p.name) ∧
      ∀ refs, m.secretRefs = .ok refs → ∀ k ∈ refs.readKeys,
        ∃ p name, m.Asks text p name ∧ SecretKey.ofVariable name = .ok k := by
  obtain ⟨text, printed, same⟩ := implicitVariables_eq_ok_iff.mp found
  have asked : ∀ name, name ∈ names.toList ↔ ∃ p, m.Asks text p name := by
    intro name
    rw [same, mem_undeclared_iff]
  refine ⟨text, print_eq_ok_iff.mpr printed, asked, fun _ _ => Asks.isField, ?_⟩
  intro refs grouped k mem
  obtain ⟨name, implicit, key⟩ := exists_of_mem_readKeys found grouped mem
  obtain ⟨p, asks⟩ := (asked name).mp implicit
  exact ⟨p, name, asks, key⟩

/-- A variable with a dot in its name is declared and asked for. -/
def dottedManifest : Manifest :=
  { Resolver.listingManifest [] ⟨"nginx", "web", .empty, .empty, ⟨.empty, .single "p" (.string "((foo.bar))")⟩⟩ with
    declared := [⟨"foo.bar", "password", none⟩] }

/-- There is no other placeholder in its text. -/
theorem print_dotted : ∃ text, dottedManifest.print = .ok text ∧
    Placeholder.all text.toList = [⟨false, "foo.bar".toList⟩] := by
  refine ⟨_, print_eq_ok_iff.mpr (canonical?_eq_some_of_mark rfl (by decide +kernel)), ?_⟩
  rw [String.toList_ofList]
  decide +kernel

/-- The variable in front of the dot is implicit. -/
theorem implicitVariables_dotted : dottedManifest.implicitVariables = .ok (.ofNames ["foo"]) := by
  obtain ⟨text, printed, only⟩ := print_dotted
  refine implicitVariables_eq_ok_iff.mpr ⟨text, print_eq_ok_iff.mp printed, ?_⟩
  unfold Placeholder.names
  rw [only]
  decide

theorem declares_dotted : dottedManifest.Declares (String.ofList "foo.bar".toList) :=
  ⟨_, List.mem_singleton_self _, rfl⟩

/-- A variable may be reported although all that asks for it has the name of a declared variable. -/
theorem not_forall_implicit_undeclared :
    ¬ ∀ (m : Manifest) (names : NameSet) (text : String), m.implicitVariables = .ok names →
      m.print = .ok text → ∀ name ∈ names.toList, ∃ p : Placeholder, p.StandsIn text.toList ∧
        RefersTo p.name name ∧ ¬ m.Declares (String.ofList p.name) := by
  intro all
  obtain ⟨text, printed, only⟩ := print_dotted
  obtain ⟨p, here, -, undeclared⟩ := all _ _ text implicitVariables_dotted printed "foo" (by decide)
  rw [Placeholder.standsIn_iff_mem_all, only, List.mem_singleton] at here
  exact undeclared (here ▸ declares_dotted)

/-- The placeholder asks for the variable in front of the dot. -/
theorem implicitVariables_eq_asked_dotted :
    dottedManifest.implicitVariables = .ok (.ofNames ["foo"]) ∧
    ∃ text, dottedManifest.print = .ok text ∧
      dottedManifest.Asks text ⟨false, "foo.bar".toList⟩ "foo" := by
  obtain ⟨text, printed, asked, -, -⟩ := implicitVariables_eq_asked implicitVariables_dotted
  obtain ⟨text', printed', only⟩ := print_dotted
  obtain rfl := Except.ok.inj (printed.symm.trans printed')
  obtain ⟨p, asks⟩ := (asked "foo").mp (by decide)
  have here := asks.stands
  rw [Placeholder.standsIn_iff_mem_all, only, List.mem_singleton] at here
  exact ⟨implicitVariables_dotted, text, printed, here ▸ asks⟩

end Manifest
end DeployManifest
