import DeployManifest.Proofs.PlaceholderEchoes
import DeployManifest.Proofs.PrintedWords

/-!
# Placeholders in printed trees

A placeholder in a printed collection stands in one of its items, keys or values (`standsIn_node_seq`,
`standsIn_node_map`), wherever these stand in the collection, as all words do that are looked for.

Strings are written in many styles, and hold no other placeholders in any of them (`standsIn_node_string`,
and `standsIn_keyText_string` for keys).
-/

namespace DeployManifest.Yaml.Value

open Placeholder (StandsIn)

variable {p : Placeholder} {behind : Behind} {tagged : Bool} {column : Nat}

/-- Whether a placeholder stands in the key or the value of an entry. -/
def StandsInEntry (p : Placeholder) (column : Nat) (e : Value × Value) : Prop :=
  p.StandsIn (keyText column e.1) ∨ p.StandsIn (node (behindKey e.1) false column e.2)

/-- A placeholder in a printed sequence stands in one of its items. -/
theorem standsIn_node_seq {all : List Value} :
    p.StandsIn (node behind tagged column (.seq all)) ↔
      ∃ v ∈ all, p.StandsIn (node .dash false (behind.dashes tagged column) v) := by
  by_cases proper : p.IsProper
  · simp [StandsIn, proper, infix_node_seq proper.isWord]
  · simp [StandsIn, proper]

/-- A placeholder in a printed mapping stands in one of its keys or values. -/
theorem standsIn_node_map {all : List (Value × Value)} :
    p.StandsIn (node behind tagged column (.map all)) ↔
      ∃ e ∈ all, StandsInEntry p (behind.inner column) e := by
  by_cases proper : p.IsProper
  · simp [StandsInEntry, StandsIn, proper, infix_node_map proper.isWord, InfixOfEntry]
  · simp [StandsInEntry, StandsIn, proper]

theorem standsIn_node_string {s : String} (stands : p.StandsIn (node behind tagged column (.string s))) :
    p.StandsIn s.toList :=
  ⟨stands.1, infix_of_node_scalar stands.1.isWord rfl stands.2⟩

theorem standsIn_keyText_string {s : String} (stands : p.StandsIn (keyText column (.string s))) :
    p.StandsIn s.toList :=
  ⟨stands.1, infix_of_keyText_scalar stands.1.isWord rfl stands.2⟩

end DeployManifest.Yaml.Value
