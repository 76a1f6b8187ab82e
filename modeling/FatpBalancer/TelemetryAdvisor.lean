/-
# The telemetry advisor

Which alert a cluster snapshot raises.  The two fractions are `float` quotients in the C++ advisor
and doubles in its Python port; here they are exact, and so are the thresholds.  That decides whether
`node_fault` and `overload` are raised when a fraction comes within a rounding error of its
threshold.  The latency test compares integers, and where it is reached the fractions no longer
matter: a latency alert means a slow `meanP50LatencyUs` however the quotients are rounded.
-/
import FatpBalancer.LoadMetrics
import FatpBalancer.Supervisor.BalancerFeatures
import Mathlib.Algebra.Order.Field.Rat

namespace FatpBalancer

/-- The thresholds, with the fractions as exact numbers. -/
structure TelemetryThresholds where
  unavailableFraction : Rat := 1 / 4
  overloadFraction : Rat := 3 / 4
  latencyThresholdUs : Nat := 10000

/-- The highest-priority alert whose threshold is breached, `""` for none. -/
def TelemetryThresholds.determineAlert (mThresholds : TelemetryThresholds) (m : ClusterMetrics) :
    String :=
  let total := m.knownNodes
  if total = 0 then ""
  else
    let unavailFrac : Rat := m.unavailableNodes / total
    let activeFrac : Rat := m.activeNodes / total
    if mThresholds.unavailableFraction ≤ unavailFrac then kAlertNodeFault
    else if activeFrac < mThresholds.overloadFraction then kAlertOverload
    else if mThresholds.latencyThresholdUs ≤ m.meanP50LatencyUs then kAlertLatency
    else ""

end FatpBalancer
