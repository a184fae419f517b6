import DeployManifest.Manifest.Scheduling
import DeployManifest.Proofs.RecordReading

/-!
# Affinities and tolerations read back

The rules that place pods are handed on to the cluster as they were read: what is written of them
reads back as the same rules (`Affinity.recovers`, `Toleration.recovers`,
`ObjectReference.recovers`).  There is one such statement for each kind of record, from the inside
outwards.
-/

namespace DeployManifest

open Yaml

attribute [local simp] Fields.last?_eq_final? Fields.lastText? Fields.lastTexts? Written.texts
  Fields.all_written Written.places_always Written.places_whenPresent
  Written.final?_always Written.final?_whenPresent
  recovers_string recovers_int32 recovers_int64 recovers_list recovers_texts

theorem LabelRequirement.recovers (l : LabelRequirement) : Recovers ofView? toValue l :=
  recovers_record (by simp)

theorem NodeTerm.recovers (n : NodeTerm) : Recovers ofView? toValue n :=
  recovers_record (by simp [LabelRequirement.recovers])

theorem NodePreference.recovers (n : NodePreference) : Recovers ofView? toValue n :=
  recovers_record (by simp [NodeTerm.recovers])

theorem NodeSelector.recovers (n : NodeSelector) : Recovers ofView? toValue n :=
  recovers_record (by simp [NodeTerm.recovers])

theorem NodeAffinity.recovers (n : NodeAffinity) : Recovers ofView? toValue n :=
  recovers_record (by simp [NodePreference.recovers, NodeSelector.recovers])

theorem LabelSelector.recovers (l : LabelSelector) : Recovers ofView? toValue l :=
  recovers_record (by simp [LabelRequirement.recovers])

theorem PodTerm.recovers (p : PodTerm) : Recovers ofView? toValue p :=
  recovers_record (by simp [LabelSelector.recovers])

theorem PodPreference.recovers (p : PodPreference) : Recovers ofView? toValue p :=
  recovers_record (by simp [PodTerm.recovers])

theorem PodAffinity.recovers (p : PodAffinity) : Recovers ofView? toValue p :=
  recovers_record (by simp [PodPreference.recovers, PodTerm.recovers])

theorem Affinity.recovers (a : Affinity) : Recovers ofView? toValue a :=
  recovers_record (by simp [NodeAffinity.recovers, PodAffinity.recovers])

theorem Toleration.recovers (t : Toleration) : Recovers ofView? toValue t :=
  recovers_record (by simp)

theorem ObjectReference.recovers (o : ObjectReference) : Recovers ofView? toValue o :=
  recovers_record (by simp)

end DeployManifest
