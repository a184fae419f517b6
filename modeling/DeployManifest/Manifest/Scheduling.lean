import DeployManifest.Yaml.Record
import DeployManifest.Yaml.View

/-!
# Where pods may run

Rules that place the pods of an instance group on nodes: affinities to nodes and to other pods,
and taints that are tolerated.  They are handed on to the cluster and not interpreted here.

In these rules a field that is missing or null has its default, and of a repeated field the last
one counts.

- `LabelRequirement`, `LabelSelector`: conditions on labels.
- `NodeTerm`, `NodePreference`, `NodeSelector`, `NodeAffinity`: which nodes are chosen.
- `PodTerm`, `PodPreference`, `PodAffinity`: which pods are wanted on the same node.
- `Affinity`: all of these together.
- `Toleration`, `ObjectReference`: taints, and names of objects of the cluster.
-/

namespace DeployManifest

open Yaml (Fields Outline Value View Written)

namespace Yaml.Written

/-- A list of texts that may be absent. -/
def texts (name : String) (items? : Option (List String)) : Written :=
  whenPresent name (Value.list Value.string) items?

end Yaml.Written

/-- A condition on the value of a label: a key, an operator and the values it compares with. -/
structure LabelRequirement where
  key : String
  operator : String
  values : Option (List String)

namespace LabelRequirement

/-- Reads what a label must satisfy.  Key and operator are empty texts unless they are given. -/
def ofView? (view : View) : Option LabelRequirement := do
  let fields ← view.fields?
  return {
    key := (← fields.lastText? "key").getD ""
    operator := (← fields.lastText? "operator").getD ""
    values := ← fields.lastTexts? "values" }

/-- What is read of a requirement. -/
def outline : Outline := .record ["key", "operator", "values"] []

/-- A requirement as it is written. -/
def toValue (r : LabelRequirement) : Value := .record [
  .always "key" (.string r.key),
  .always "operator" (.string r.operator),
  .texts "values" r.values]

end LabelRequirement

/-- Conditions on the labels and fields of a node, all of which have to hold. -/
structure NodeTerm where
  expressions : Option (List LabelRequirement)
  fields : Option (List LabelRequirement)

namespace NodeTerm

/-- Reads what a node must satisfy, of its labels and of its fields. -/
def ofView? (view : View) : Option NodeTerm := do
  let fields ← view.fields?
  return {
    expressions := ← fields.last? "matchExpressions" (View.list? LabelRequirement.ofView?)
    fields := ← fields.last? "matchFields" (View.list? LabelRequirement.ofView?) }

/-- What is read of a term about nodes. -/
def outline : Outline := .record []
  [("matchExpressions", .items LabelRequirement.outline),
   ("matchFields", .items LabelRequirement.outline)]

/-- A term about nodes as it is written. -/
def toValue (t : NodeTerm) : Value := .record [
  .whenPresent "matchExpressions" (.list LabelRequirement.toValue) t.expressions,
  .whenPresent "matchFields" (.list LabelRequirement.toValue) t.fields]

end NodeTerm

/-- A preference for some nodes. -/
structure NodePreference where
  preference : NodeTerm
  weight : Int32

namespace NodePreference

/-- Reads a preference for nodes.  Its weight is zero unless it is given. -/
def ofView? (view : View) : Option NodePreference := do
  let fields ← view.fields?
  return {
    preference := (← fields.last? "preference" NodeTerm.ofView?).getD ⟨none, none⟩
    weight := (← fields.last? "weight" View.int32?).getD 0 }

/-- What is read of a preference for nodes. -/
def outline : Outline := .record ["weight"] [("preference", NodeTerm.outline)]

/-- A preference for nodes as it is written. -/
def toValue (p : NodePreference) : Value := .record [
  .always "preference" p.preference.toValue,
  .always "weight" (.int32 p.weight)]

end NodePreference

/-- Terms of which at least one has to hold for a node. -/
structure NodeSelector where
  terms : List NodeTerm

namespace NodeSelector

/-- Reads a choice of nodes, which may have no terms. -/
def ofView? (view : View) : Option NodeSelector := do
  let fields ← view.fields?
  return { terms := (← fields.last? "nodeSelectorTerms" (View.list? NodeTerm.ofView?)).getD [] }

/-- What is read of a choice of nodes. -/
def outline : Outline := .record [] [("nodeSelectorTerms", .items NodeTerm.outline)]

/-- A choice of nodes as it is written. -/
def toValue (s : NodeSelector) : Value := .record [
  .always "nodeSelectorTerms" (.list NodeTerm.toValue s.terms)]

end NodeSelector

/-- The nodes that pods prefer and require. -/
structure NodeAffinity where
  preferred : Option (List NodePreference)
  required : Option NodeSelector

namespace NodeAffinity

/-- Reads which nodes are preferred and which are required. -/
def ofView? (view : View) : Option NodeAffinity := do
  let fields ← view.fields?
  return {
    preferred := ← fields.last? "preferredDuringSchedulingIgnoredDuringExecution"
      (View.list? NodePreference.ofView?)
    required := ← fields.last? "requiredDuringSchedulingIgnoredDuringExecution"
      NodeSelector.ofView? }

/-- What is read of an affinity to nodes. -/
def outline : Outline := .record []
  [("preferredDuringSchedulingIgnoredDuringExecution", .items NodePreference.outline),
   ("requiredDuringSchedulingIgnoredDuringExecution", NodeSelector.outline)]

/-- An affinity to nodes as it is written. -/
def toValue (a : NodeAffinity) : Value := .record [
  .whenPresent "preferredDuringSchedulingIgnoredDuringExecution"
    (.list NodePreference.toValue) a.preferred,
  .whenPresent "requiredDuringSchedulingIgnoredDuringExecution" NodeSelector.toValue a.required]

end NodeAffinity

/-- Conditions on the labels of an object. -/
structure LabelSelector where
  expressions : Option (List LabelRequirement)
  labels : Option (Table String)

namespace LabelSelector

/-- Reads a choice of labels. -/
def ofView? (view : View) : Option LabelSelector := do
  let fields ← view.fields?
  return {
    expressions := ← fields.last? "matchExpressions" (View.list? LabelRequirement.ofView?)
    labels := ← fields.last? "matchLabels" (View.table? View.text?) }

/-- What is read of a choice of labels. -/
def outline : Outline := .record ["matchLabels"] [("matchExpressions", .items LabelRequirement.outline)]

/-- A choice of labels as it is written. -/
def toValue (s : LabelSelector) : Value := .record [
  .whenPresent "matchExpressions" (.list LabelRequirement.toValue) s.expressions,
  .whenPresent "matchLabels" (.table Value.string) s.labels]

end LabelSelector

/-- Pods to be near to or away from, and how near is near. -/
structure PodTerm where
  labelSelector : Option LabelSelector
  matchLabelKeys : Option (List String)
  mismatchLabelKeys : Option (List String)
  namespaceSelector : Option LabelSelector
  namespaces : Option (List String)
  topologyKey : String

namespace PodTerm

/-- A term that nothing is said of. -/
def empty : PodTerm := ⟨none, none, none, none, none, ""⟩

/-- Reads a term about other pods.  The key of its topology is the empty text unless it is given. -/
def ofView? (view : View) : Option PodTerm := do
  let fields ← view.fields?
  return {
    labelSelector := ← fields.last? "labelSelector" LabelSelector.ofView?
    matchLabelKeys := ← fields.lastTexts? "matchLabelKeys"
    mismatchLabelKeys := ← fields.lastTexts? "mismatchLabelKeys"
    namespaceSelector := ← fields.last? "namespaceSelector" LabelSelector.ofView?
    namespaces := ← fields.lastTexts? "namespaces"
    topologyKey := (← fields.lastText? "topologyKey").getD "" }

/-- What is read of a term about pods. -/
def outline : Outline := .record
  ["matchLabelKeys", "mismatchLabelKeys", "namespaces", "topologyKey"]
  [("labelSelector", LabelSelector.outline), ("namespaceSelector", LabelSelector.outline)]

/-- A term about pods as it is written. -/
def toValue (t : PodTerm) : Value := .record [
  .whenPresent "labelSelector" LabelSelector.toValue t.labelSelector,
  .texts "matchLabelKeys" t.matchLabelKeys,
  .texts "mismatchLabelKeys" t.mismatchLabelKeys,
  .whenPresent "namespaceSelector" LabelSelector.toValue t.namespaceSelector,
  .texts "namespaces" t.namespaces,
  .always "topologyKey" (.string t.topologyKey)]

end PodTerm

/-- A preference with respect to some pods. -/
structure PodPreference where
  term : PodTerm
  weight : Int32

namespace PodPreference

/-- Reads a preference for being near other pods. -/
def ofView? (view : View) : Option PodPreference := do
  let fields ← view.fields?
  return {
    term := (← fields.last? "podAffinityTerm" PodTerm.ofView?).getD PodTerm.empty
    weight := (← fields.last? "weight" View.int32?).getD 0 }

/-- What is read of a preference for pods. -/
def outline : Outline := .record ["weight"] [("podAffinityTerm", PodTerm.outline)]

/-- A preference for pods as it is written. -/
def toValue (p : PodPreference) : Value := .record [
  .always "podAffinityTerm" p.term.toValue,
  .always "weight" (.int32 p.weight)]

end PodPreference

/-- The pods that pods prefer and require to be near to, or away from. -/
structure PodAffinity where
  preferred : Option (List PodPreference)
  required : Option (List PodTerm)

namespace PodAffinity

/-- Reads which pods are preferred and which are required nearby. -/
def ofView? (view : View) : Option PodAffinity := do
  let fields ← view.fields?
  return {
    preferred := ← fields.last? "preferredDuringSchedulingIgnoredDuringExecution"
      (View.list? PodPreference.ofView?)
    required := ← fields.last? "requiredDuringSchedulingIgnoredDuringExecution"
      (View.list? PodTerm.ofView?) }

/-- What is read of an affinity to pods. -/
def outline : Outline := .record []
  [("preferredDuringSchedulingIgnoredDuringExecution", .items PodPreference.outline),
   ("requiredDuringSchedulingIgnoredDuringExecution", .items PodTerm.outline)]

/-- An affinity to pods as it is written. -/
def toValue (a : PodAffinity) : Value := .record [
  .whenPresent "preferredDuringSchedulingIgnoredDuringExecution"
    (.list PodPreference.toValue) a.preferred,
  .whenPresent "requiredDuringSchedulingIgnoredDuringExecution" (.list PodTerm.toValue) a.required]

end PodAffinity

/-- All that draws pods to places or keeps them away. -/
structure Affinity where
  node : Option NodeAffinity
  pod : Option PodAffinity
  podAnti : Option PodAffinity

namespace Affinity

/-- Reads all affinities of a group. -/
def ofView? (view : View) : Option Affinity := do
  let fields ← view.fields?
  return {
    node := ← fields.last? "nodeAffinity" NodeAffinity.ofView?
    pod := ← fields.last? "podAffinity" PodAffinity.ofView?
    podAnti := ← fields.last? "podAntiAffinity" PodAffinity.ofView? }

/-- What is read of the affinities. -/
def outline : Outline := .record []
  [("nodeAffinity", NodeAffinity.outline), ("podAffinity", PodAffinity.outline),
   ("podAntiAffinity", PodAffinity.outline)]

/-- The affinities as they are written. -/
def toValue (a : Affinity) : Value := .record [
  .whenPresent "nodeAffinity" NodeAffinity.toValue a.node,
  .whenPresent "podAffinity" PodAffinity.toValue a.pod,
  .whenPresent "podAntiAffinity" PodAffinity.toValue a.podAnti]

end Affinity

/-- A taint of nodes that pods put up with. -/
structure Toleration where
  effect : Option String
  key : Option String
  operator : Option String
  seconds : Option Int64
  value : Option String

namespace Toleration

/-- Reads which taint is tolerated, and for how long. -/
def ofView? (view : View) : Option Toleration := do
  let fields ← view.fields?
  return {
    effect := ← fields.lastText? "effect"
    key := ← fields.lastText? "key"
    operator := ← fields.lastText? "operator"
    seconds := ← fields.last? "tolerationSeconds" View.int64?
    value := ← fields.lastText? "value" }

/-- What is read of a toleration. -/
def outline : Outline := .record ["effect", "key", "operator", "tolerationSeconds", "value"] []

/-- A toleration as it is written. -/
def toValue (t : Toleration) : Value := .record [
  .whenPresent "effect" Value.string t.effect,
  .whenPresent "key" Value.string t.key,
  .whenPresent "operator" Value.string t.operator,
  .whenPresent "tolerationSeconds" .int64 t.seconds,
  .whenPresent "value" Value.string t.value]

end Toleration

/-- The name of an object in the same namespace. -/
structure ObjectReference where
  name : String

namespace ObjectReference

/-- Reads the name of an object of the cluster. -/
def ofView? (view : View) : Option ObjectReference := do
  let fields ← view.fields?
  return { name := (← fields.lastText? "name").getD "" }

/-- What is read of a reference. -/
def outline : Outline := .record ["name"] []

/-- A reference as it is written. -/
def toValue (r : ObjectReference) : Value := .record [.always "name" (.string r.name)]

end ObjectReference
end DeployManifest
