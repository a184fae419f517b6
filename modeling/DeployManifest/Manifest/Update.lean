import DeployManifest.Yaml.Record
import DeployManifest.Yaml.View

/-!
# How deployments are updated

An update block says how many instances are changed at a time and how long they are watched.
Instance groups may have a block of their own; the watch times and the serial flag that it leaves
open are those of the block of the whole deployment (`Update.fill`).

Main definitions: `Update`, the block, and `Update.fill`, which takes from another block what a block leaves
open.
-/

namespace DeployManifest

open Yaml (Outline Value View)

/-- A number or a text, such as a percentage or a range. -/
inductive IntOrText where
  | int (n : Int32)
  | text (s : String)
  deriving DecidableEq

namespace IntOrText

/-- Reads a number or, where there is none, a text. -/
def ofView? (view : View) : Option IntOrText :=
  match view.value? with
  | some (.int n) =>
    if Int32.minValue.toInt ≤ n && n ≤ Int32.maxValue.toInt then some (.int (Int32.ofInt n)) else none
  | some (.string s) => some (.text s)
  | _ => none

/-- A number or a text, as it is written. -/
def toValue : IntOrText → Value
  | .int n => .int32 n
  | .text s => .string s

end IntOrText

/-- An update block. -/
structure Update where
  canaries : Int32
  maxInFlight : Option IntOrText
  canaryWatchTime : Option IntOrText
  updateWatchTime : Option IntOrText
  serial : Option Bool
  vmStrategy : Option String
  deriving DecidableEq

namespace Update

/-- Reads an update block.  Only the number of canaries has a default. -/
def ofView? (view : View) : Option Update := do
  let fields ← view.fields?
  return {
    canaries := ← fields.withDefault? "canaries" View.int32? 0
    maxInFlight := ← fields.optional? "max_in_flight" IntOrText.ofView?
    canaryWatchTime := ← fields.optional? "canary_watch_time" IntOrText.ofView?
    updateWatchTime := ← fields.optional? "update_watch_time" IntOrText.ofView?
    serial := ← fields.optional? "serial" View.bool?
    vmStrategy := ← fields.optional? "vm_strategy" View.text? }

/-- What is read of an update block. -/
def outline : Outline := .record
  ["canaries", "max_in_flight", "canary_watch_time", "update_watch_time", "serial", "vm_strategy"] []

/-- An update block as it is written. -/
def toValue (u : Update) : Value := .record [
  .always "canaries" (.int32 u.canaries),
  .whenPresent "max_in_flight" IntOrText.toValue u.maxInFlight,
  .whenPresent "canary_watch_time" IntOrText.toValue u.canaryWatchTime,
  .whenPresent "update_watch_time" IntOrText.toValue u.updateWatchTime,
  .whenPresent "serial" Value.bool u.serial,
  .whenPresent "vm_strategy" Value.string u.vmStrategy]

/-- `u` with the watch times and the serial flag that it leaves open taken from `defaults`. -/
def fill (u defaults : Update) : Update :=
  { u with
    canaryWatchTime := u.canaryWatchTime <|> defaults.canaryWatchTime
    updateWatchTime := u.updateWatchTime <|> defaults.updateWatchTime
    serial := u.serial <|> defaults.serial }

end Update
end DeployManifest
