/-
# The labeller of the training harness

`determine_alert` of `nn_advisor_harness.py`, on a parsed snapshot.  Python integers are unbounded
and fractions are exact; `none` is a raised exception.  Numbers written as strings, which `int` and
`float` would accept, are in no snapshot and count as errors here.
-/
import FatpBalancer.JsonLite
import FatpBalancer.TelemetryAdvisor
import Mathlib.Tactic.Linarith
import Mathlib.Tactic.Positivity

universe u

namespace FatpBalancer.Harness

/-! ## Python's conversions -/

/-- `d.get(key, default)`. -/
def get (d : JsonObject Rat) (key : String) (default : JsonValue Rat) : JsonValue Rat :=
  (JsonValue.find d key).getD default

/-- `int` of a float: truncation toward zero. -/
def truncate (d : Rat) : Int := if 0 ≤ d then ⌊d⌋ else ⌈d⌉

def toInt : JsonValue Rat → Option Int
  | .int64 n => some n
  | .double d => some (truncate d)
  | .bool b => some (if b then 1 else 0)
  | _ => none

def toFloat : JsonValue Rat → Option Rat
  | .int64 n => some n
  | .double d => some d
  | .bool b => some (if b then 1 else 0)
  | _ => none

def len : JsonValue Rat → Option Nat
  | .array xs => some xs.length
  | .object fs => some fs.length
  | .string s => some s.length
  | _ => none

/-! ## The labeller -/

def ALERT_NONE : String := ""

def ALERT_NODE_FAULT : String := "alert.node_fault"

def ALERT_OVERLOAD : String := "alert.overload"

def ALERT_LATENCY : String := "alert.latency"

def determineAlert (snap : JsonObject Rat) (unavailable_fraction : Rat := 1 / 4)
    (overload_fraction : Rat := 3 / 4) (latency_threshold_us : Int := 10000) : Option String := do
  let active_nodes ← toInt (get snap "activeNodes" (.int64 0))
  let unavailable_nodes ← toInt (get snap "unavailableNodes" (.int64 0))
  let physical_total ← len (get snap "nodes" (.array []))
  let overloaded_frac ← toFloat (get snap "overloadedFraction" (.double 0))
  let overloaded_nodes :=
    if 0 < physical_total then truncate (overloaded_frac * physical_total + 1 / 2) else 0
  let total := active_nodes + unavailable_nodes + overloaded_nodes
  if total = 0 then return ALERT_NONE
  let unavail_frac : Rat := unavailable_nodes / total
  let active_frac : Rat := active_nodes / total
  let mean_p50_us ← toInt (get snap "clusterP50LatencyUs" (.int64 0))
  if unavailable_fraction ≤ unavail_frac then return ALERT_NODE_FAULT
  if active_frac < overload_fraction then return ALERT_OVERLOAD
  if latency_threshold_us ≤ mean_p50_us then return ALERT_LATENCY
  return ALERT_NONE

/-- The label of a snapshot's text, under the thresholds of an advisor. -/
def label {Text : Type u} (json : JsonText Text Rat) (thresholds : TelemetryThresholds)
    (text : Text) : Option String := do
  let root ← json.parse_json text
  let snap ← root.getObject
  determineAlert snap thresholds.unavailableFraction thresholds.overloadFraction
    thresholds.latencyThresholdUs

/-- The labeller, once its five readings are known. -/
theorem determineAlert_eq {snap : JsonObject Rat} {active unavailable mean : Int} {physical : Nat}
    {fraction : Rat}
    (hactive : toInt (get snap "activeNodes" (.int64 0)) = some active)
    (hunavailable : toInt (get snap "unavailableNodes" (.int64 0)) = some unavailable)
    (hphysical : len (get snap "nodes" (.array [])) = some physical)
    (hfraction : toFloat (get snap "overloadedFraction" (.double 0)) = some fraction)
    (hmean : toInt (get snap "clusterP50LatencyUs" (.int64 0)) = some mean)
    {overloaded : Int}
    (hoverloaded :
      (if 0 < physical then truncate (fraction * physical + 1 / 2) else 0) = overloaded)
    (uf lf : Rat) (T : Int) :
    determineAlert snap uf lf T =
      some (
        if active + unavailable + overloaded = 0 then ALERT_NONE
        else if uf ≤ (unavailable : Rat) / (active + unavailable + overloaded : Int) then
          ALERT_NODE_FAULT
        else if (active : Rat) / (active + unavailable + overloaded : Int) < lf then ALERT_OVERLOAD
        else if T ≤ mean then ALERT_LATENCY
        else ALERT_NONE) := by
  simp only [determineAlert, hactive, hunavailable, hphysical, hfraction, hmean, hoverloaded,
    Option.bind_eq_bind, Option.bind_some, Option.pure_def, apply_ite some]

/-! ## Numbers come back as they were -/

open JsonValue

/-- A whole number written as an integer is read as the same number. -/
theorem toFloat_readBack (v : JsonValue Rat) : toFloat v.readBack = toFloat v := by
  cases v with
  | double d =>
      simp only [readBack, readBackDouble]
      split
      · next n hn =>
          have hcast : (n : Rat) = d := FloatCasts.ofInt64_wholeInt64 (F := Rat) d n hn
          rw [toFloat, toFloat, hcast]
      · rfl
  | _ => rfl

theorem truncate_natCast_add_half (n : Nat) : truncate (n + 1 / 2) = n := by
  have hpos : (0 : Rat) ≤ n + 1 / 2 := by positivity
  rw [truncate, if_pos hpos, Int.floor_eq_iff, Int.cast_natCast]
  constructor <;> linarith

end FatpBalancer.Harness
