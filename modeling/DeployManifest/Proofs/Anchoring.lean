import Mathlib.Data.List.Induction
import DeployManifest.Yaml.Canonical
import DeployManifest.Yaml.View

/-!
# When anchors are transparent

Long strings that occur again are replaced by references, and that should not be seen by whoever reads
the text: if the sorted tree reads back as it is printed, so should the canonical text
(`IsTransparent`).  It does not always.  Marks are looked for in the whole text, so a string that
happens to hold one is rewritten as well.

- `IsTransparent`: whether the canonical text of a tree reads as the plain one does.
- `not_isTransparent_misleading`: a string that looks like a reference and is none.
-/

namespace DeployManifest.Yaml.Value

/-- Whether a text reads as a tree, whatever the order of entries. -/
def ReadsAs (text : String) (v : Value) : Prop :=
  ∃ w, (View.ofSource? (.ofString text)).bind View.value? = some w ∧ w.same v = true

/-- Whether the canonical text of a tree reads as that tree if the plain text does. -/
def IsTransparent (v : Value) : Prop :=
  ∀ plain, v.sorted.print? = some plain → ReadsAs plain v →
    ∀ text, v.canonical? = some text → ReadsAs text v

/-- A string that is just long enough to be anchored. -/
def longText : String := String.ofList (List.replicate 65 'c')

/-- The digest of this string. -/
def longDigest : String := "b30855e510446ac34706c5acafeedefd5122fe9446b3f812db11e1ac3b4d0cf2"

/-- A tree in which a string happens to look like a reference. -/
def misleading : Value :=
  .map [(.string "a", .string longText), (.string "b", .seq [.string ("*" ++ longDigest)])]

/-- The string that looks like a reference is read as what it seems to refer to. -/
theorem not_isTransparent_misleading : ¬ IsTransparent misleading := by
  have plain : misleading.sorted.print? =
      some ("a: " ++ longText ++ "\nb:\n- '*" ++ longDigest ++ "'\n") := by decide +kernel
  have plain_read : (View.ofSource? (.ofString
      ("a: " ++ longText ++ "\nb:\n- '*" ++ longDigest ++ "'\n"))).bind View.value? =
      some misleading := by decide +kernel
  have canonical : misleading.canonical? =
      some ("a: &" ++ longDigest ++ " " ++ longText ++ "\nb:\n- *" ++ longDigest ++ "\n") := by
    decide +kernel
  have canonical_read : (View.ofSource? (.ofString
      ("a: &" ++ longDigest ++ " " ++ longText ++ "\nb:\n- *" ++ longDigest ++ "\n"))).bind
        View.value? =
      some (.map [(.string "a", .string longText), (.string "b", .seq [.string longText])]) := by
    decide +kernel
  intro transparent
  obtain ⟨w, read, same⟩ :=
    transparent _ plain ⟨misleading, plain_read, by decide +kernel⟩ _ canonical
  obtain rfl := Option.some.inj (canonical_read.symm.trans read)
  exact absurd same (by decide +kernel)

end DeployManifest.Yaml.Value
