import DeployManifest.Yaml.Value
import DeployManifest.Yaml.View

/-!
# Lifecycles

The lifecycle of an instance group says whether its instances run on or only now and then.  A group
that says nothing runs on, like a service.

Main definitions: `ofView?`, which reads a lifecycle by its name, and `effective`, the one that counts.
-/

namespace DeployManifest

open Yaml (Value View)

/-- The ways in which instances run. -/
inductive Lifecycle where
  | service
  | errand
  | autoErrand
  | unspecified
  deriving DecidableEq, Repr

namespace Lifecycle

/-- The lifecycles, in the order in which a text is compared with them. -/
def all : List Lifecycle := [.service, .errand, .autoErrand, .unspecified]

/-- How a lifecycle is written.  One that is not specified is the empty text. -/
def text : Lifecycle → String
  | .service => "service"
  | .errand => "errand"
  | .autoErrand => "auto-errand"
  | .unspecified => ""

/-- The lifecycle that a text stands for. -/
def ofText? (text : String) : Option Lifecycle := all.find? fun l => l.text == text

/-- Reads a lifecycle, by its name. -/
def ofView? (view : View) : Option Lifecycle := view.variant?.bind ofText?

/-- A lifecycle as it is written. -/
def toValue (l : Lifecycle) : Value := .string l.text

/-- The lifecycle that counts: unless another is given, that of a service. -/
def effective : Lifecycle → Lifecycle
  | .unspecified => .service
  | l => l

end Lifecycle
end DeployManifest
