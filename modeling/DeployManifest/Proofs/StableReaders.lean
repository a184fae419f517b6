import DeployManifest.Manifest.Basic
import DeployManifest.Proofs.AlikeViews

/-!
# Manifests of documents that show the same

A manifest is read in a stable way: documents that show the same are read as the same manifest.  There
is one instance for each kind of record, from the inside outwards, and each compares the fields that the
record asks for; the last one is the manifest.

A record asks for its fields by name (`Stable.record`), and fields of the same name show the same in
documents that do (`View.Alike`), so each instance is closed by the law for the kind of field that the
record asks for: the last one of a name, a text, a list of texts or a table.
-/

namespace DeployManifest

open Yaml

/-! ## Where pods may run -/

instance : Stable LabelRequirement.ofView? := .record (fun _ => rfl) fun f g alike => by
  simp only [alike.lastText?, alike.lastTexts?]

instance : Stable NodeTerm.ofView? := .record (fun _ => rfl) fun f g alike => by
  simp only [alike.last?]

instance : Stable NodePreference.ofView? := .record (fun _ => rfl) fun f g alike => by
  simp only [alike.last?]

instance : Stable NodeSelector.ofView? := .record (fun _ => rfl) fun f g alike => by
  simp only [alike.last?]

instance : Stable NodeAffinity.ofView? := .record (fun _ => rfl) fun f g alike => by
  simp only [alike.last?]

instance : Stable LabelSelector.ofView? := .record (fun _ => rfl) fun f g alike => by
  simp only [alike.last?]

instance : Stable PodTerm.ofView? := .record (fun _ => rfl) fun f g alike => by
  simp only [alike.last?, alike.lastText?, alike.lastTexts?]

instance : Stable PodPreference.ofView? := .record (fun _ => rfl) fun f g alike => by
  simp only [alike.last?]

instance : Stable PodAffinity.ofView? := .record (fun _ => rfl) fun f g alike => by
  simp only [alike.last?]

instance : Stable Affinity.ofView? := .record (fun _ => rfl) fun f g alike => by
  simp only [alike.last?]

instance : Stable Toleration.ofView? := .record (fun _ => rfl) fun f g alike => by
  simp only [alike.last?, alike.lastText?]

instance : Stable ObjectReference.ofView? := .record (fun _ => rfl) fun f g alike => by
  simp only [alike.lastText?]

/-! ## The surroundings of instances -/

instance : Stable PodSettings.ofView? := .record (fun _ => rfl) fun f g alike => by
  simp only [alike.withDefault?, alike.optional?]

instance : Stable Agent.ofView? := .record (fun _ => rfl) fun f g alike => by
  simp only [alike.withDefault?]

instance : Stable JobDir.ofView? := .record (fun _ => rfl) fun f g alike => by
  simp only [alike.optional?]

instance : Stable Ipv6.ofView? := .record (fun _ => rfl) fun f g alike => by
  simp only [alike.withDefault?]

instance : Stable Machine.ofView? := .record (fun _ => rfl) fun f g alike => by
  simp only [alike.withDefault?, alike.optional?]

instance : Stable Env.ofView? := .record (fun _ => rfl) fun f g alike => by
  simp only [alike.withDefault?, alike.optional?]

/-! ## Jobs and addons -/

instance : Stable OperatorProperties.ofView? := .record (fun _ => rfl) fun f g alike => by
  simp only [alike.withDefault?, alike.others?]

instance : Stable JobProperties.ofView? := .record (fun _ => rfl) fun f g alike => by
  simp only [alike.withDefault?, alike.others?]

instance : Stable Job.ofView? := .record (fun _ => rfl) fun f g alike => by
  simp only [alike.required?, alike.withDefault?]

instance : Stable Lifecycle.ofView? :=
  View.stable_comp (fun name? => name?.bind Lifecycle.ofText?) View.variant?

instance : Stable JobName.ofView? := .record (fun _ => rfl) fun f g alike => by
  simp only [alike.required?]

instance : Stable StemcellOs.ofView? := .record (fun _ => rfl) fun f g alike => by
  simp only [alike.required?]

instance : Stable PlacementRules.ofView? := .record (fun _ => rfl) fun f g alike => by
  simp only [alike.renamed.withDefault?, alike.renamed.optional?]

instance : Stable Addon.ofView? := .record (fun _ => rfl) fun f g alike => by
  simp only [alike.required?, alike.withDefault?, alike.optional?]

/-! ## Variables -/

instance : Stable KeyUsage.ofView? :=
  View.stable_comp
    (fun name? => name?.bind fun name => KeyUsage.all.find? fun u : KeyUsage => u.text == name)
    View.variant?

instance : Stable ServiceReference.ofView? := .record (fun _ => rfl) fun f g alike => by
  simp only [alike.required?, alike.optional?]

instance : Stable SecretCopy.ofView? := .record (fun _ => rfl) fun f g alike => by
  simp only [alike.required?]

instance : Stable VariableOptions.ofView? := .record (fun _ => rfl) fun f g alike => by
  simp only [alike.withDefault?, alike.optional?]

instance : Stable Variable.ofView? := .record (fun _ => rfl) fun f g alike => by
  simp only [alike.required?, alike.optional?]

/-! ## Instance groups -/

instance : Stable IntOrText.ofView? where
  read_eq alike := by
    unfold IntOrText.ofView?
    rw [alike.read_eq View.value?]

instance : Stable Update.ofView? := .record (fun _ => rfl) fun f g alike => by
  simp only [alike.withDefault?, alike.optional?]

instance : Stable Resources.ofView? := .record (fun _ => rfl) fun f g alike => by
  simp only [alike.required?]

instance : Stable Network.ofView? := .record (fun _ => rfl) fun f g alike => by
  simp only [alike.required?, alike.withDefault?]

instance : Stable Migration.ofView? := .record (fun _ => rfl) fun f g alike => by
  simp only [alike.required?, alike.optional?]

instance : Stable InstanceGroup.ofView? := .record (fun _ => rfl) fun f g alike => by
  simp only [alike.required?, alike.withDefault?, alike.optional?]

/-! ## Manifests -/

instance : Stable Features.ofView? := .record (fun _ => rfl) fun f g alike => by
  simp only [alike.withDefault?, alike.optional?]

instance : Stable PinnedStemcell.ofView? := .record (fun _ => rfl) fun f g alike => by
  simp only [alike.required?]

instance : Stable Release.ofView? := .record (fun _ => rfl) fun f g alike => by
  simp only [alike.required?, alike.optional?]

instance : Stable Stemcell.ofView? := .record (fun _ => rfl) fun f g alike => by
  simp only [alike.required?, alike.withDefault?, alike.optional?]

/-- Documents that show the same are read as the same manifest. -/
instance : Stable Manifest.ofView? := .record (fun _ => rfl) fun f g alike => by
  simp only [alike.withDefault?, alike.optional?]

end DeployManifest
