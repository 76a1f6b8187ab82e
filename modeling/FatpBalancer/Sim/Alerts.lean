/-
# Three computations of one alert

The tick path evaluates the balancer's cluster metrics, the snapshot path the metrics counted back
from a snapshot, and the training harness labels the snapshot's JSON.  All three take the same
census of the nodes; they differ in whose latency enters the mean, and in the range of the integers
that carry it.

`Census` is what they share, and `alert` what they make of it once it is known whether the latency
is over its threshold.  Each path is then brought into this form: the balancer's two folds over the
metrics, the snapshot's own counts, and the numbers that the label reads back from the text.

So the three agree unless the latency decides, and then they agree when their two means are on one
side of the threshold.  The means differ where a node has a latency to report and is not active,
which one of them counts and the other does not.
-/
import FatpBalancer.Sim.AdvisorHarness
import FatpBalancer.Sim.TelemetrySnapshot

universe u v

namespace FatpBalancer

/-! ## The census and the alert it decides

Nodes in none of the three groups, such as draining ones, count in no total. -/

namespace LoadMetrics

def isActive (m : LoadMetrics) : Bool := m.state = .idle ∨ m.state = .busy

def isUnavailable (m : LoadMetrics) : Bool := m.state = .failed ∨ m.state = .offline

def isOverloaded (m : LoadMetrics) : Bool := m.state = .overloaded

/-- Whether the node has a latency to report. -/
def hasCompleted (m : LoadMetrics) : Bool := 0 < m.completedJobs

/-- The mean of the nodes' p50 latencies, in 64-bit arithmetic; 0 for no nodes. -/
def meanP50 (l : List LoadMetrics) : Nat := (l.map p50LatencyUs).sum % 2 ^ 64 / l.length

theorem meanP50_lt (l : List LoadMetrics) : meanP50 l < 2 ^ 64 :=
  (Nat.div_le_self _ _).trans_lt (Nat.mod_lt _ (by decide))

end LoadMetrics

/-- How many nodes are active, unavailable and overloaded. -/
structure Census where
  active : Nat
  unavailable : Nat
  overloaded : Nat

namespace Census

def take (l : List LoadMetrics) : Census where
  active := l.countP LoadMetrics.isActive
  unavailable := l.countP LoadMetrics.isUnavailable
  overloaded := l.countP LoadMetrics.isOverloaded

def total (c : Census) : Nat := c.active + c.unavailable + c.overloaded

/-- No node is counted twice. -/
theorem total_take_le (l : List LoadMetrics) : (take l).total ≤ l.length := by
  induction l with
  | nil => rfl
  | cons m l ih =>
      simp only [total, take, List.countP_cons, List.length_cons] at ih ⊢
      cases h : m.state <;>
        simp [LoadMetrics.isActive, LoadMetrics.isUnavailable, LoadMetrics.isOverloaded, h] <;>
        omega

/-- The counts decide the alert, whatever the latency. -/
def Settles (c : Census) (th : TelemetryThresholds) : Prop :=
  c.total = 0 ∨ th.unavailableFraction ≤ (c.unavailable : Rat) / c.total ∨
    (c.active : Rat) / c.total < th.overloadFraction

/-- The alert of a census, with the verdict on the latency. -/
def alert (c : Census) (th : TelemetryThresholds) (slow : Bool) : String :=
  if c.total = 0 then ""
  else if th.unavailableFraction ≤ (c.unavailable : Rat) / c.total then kAlertNodeFault
  else if (c.active : Rat) / c.total < th.overloadFraction then kAlertOverload
  else if slow then kAlertLatency
  else ""

theorem alert_eq_iff (c : Census) (th : TelemetryThresholds) (slow slow' : Bool) :
    c.alert th slow = c.alert th slow' ↔ c.Settles th ∨ slow = slow' := by
  unfold alert Settles
  by_cases h0 : c.total = 0
  · simp [h0]
  by_cases h1 : th.unavailableFraction ≤ (c.unavailable : Rat) / c.total
  · simp [h0, h1]
  by_cases h2 : (c.active : Rat) / c.total < th.overloadFraction
  · simp [h0, h1, h2]
  · simp only [h0, h1, h2, if_false, false_or]
    cases slow <;> cases slow' <;> decide

/-- The advisor sees the census when the metrics carry it. -/
theorem determineAlert_eq {th : TelemetryThresholds} {m : ClusterMetrics} {c : Census}
    (ha : m.activeNodes = c.active) (hu : m.unavailableNodes = c.unavailable)
    (hk : m.knownNodes = c.total) :
    th.determineAlert m = c.alert th (decide (th.latencyThresholdUs ≤ m.meanP50LatencyUs)) := by
  simp only [TelemetryThresholds.determineAlert, alert, ha, hu, hk, decide_eq_true_eq]

/-- The harness decides the same from a census in signed integers. -/
theorem harness_eq (c : Census) (th : TelemetryThresholds) (T mean : Int) :
    (if (c.active : Int) + c.unavailable + c.overloaded = 0 then Harness.ALERT_NONE
      else if th.unavailableFraction ≤
          ((c.unavailable : Int) : Rat) / (c.active + c.unavailable + c.overloaded : Int) then
        Harness.ALERT_NODE_FAULT
      else if ((c.active : Int) : Rat) / (c.active + c.unavailable + c.overloaded : Int) <
          th.overloadFraction then
        Harness.ALERT_OVERLOAD
      else if T ≤ mean then Harness.ALERT_LATENCY
      else Harness.ALERT_NONE) = c.alert th (decide (T ≤ mean)) := by
  have htotal : (c.active : Int) + c.unavailable + c.overloaded = (c.total : Int) := by
    simp [total]
  simp only [htotal, alert, Int.natCast_eq_zero, Int.cast_natCast, decide_eq_true_eq]
  rfl

end Census

/-! ## The two passes

The source folds over the metrics twice, in the balancer and in the snapshot; each field of the
result is a count or a sum over the list. -/

namespace NodeTally

open LoadMetrics

theorem counts_activeNodes : Tally.Counts add activeNodes isActive (2 ^ 32) := by
  refine .of_ite (by decide) fun t m => ?_
  cases hs : m.state <;> simp [add, isActive, hs, apply_ite activeNodes, fetchAdd32]

theorem counts_unavailableNodes : Tally.Counts add unavailableNodes isUnavailable (2 ^ 32) := by
  refine .of_ite (by decide) fun t m => ?_
  cases hs : m.state <;> simp [add, isUnavailable, hs, apply_ite unavailableNodes, fetchAdd32]

theorem counts_overloadedNodes : Tally.Counts add overloadedNodes isOverloaded (2 ^ 32) := by
  refine .of_ite (by decide) fun t m => ?_
  cases hs : m.state <;> simp [add, isOverloaded, hs, apply_ite overloadedNodes, fetchAdd32]

/-- The active nodes that have a latency to report. -/
def reports (m : LoadMetrics) : Bool := m.isActive && m.hasCompleted

theorem counts_p50Count : Tally.Counts add p50Count reports (2 ^ 32) := by
  refine .of_ite (by decide) fun t m => ?_
  cases hs : m.state <;>
    simp [add, reports, isActive, hasCompleted, hs, apply_ite p50Count, fetchAdd32]

theorem adds_p50Sum :
    Tally.Adds add p50Sum (fun m => if reports m then m.p50LatencyUs else 0) (2 ^ 64) := by
  refine .of_ite (by decide) fun t m => ?_
  cases hs : m.state <;> simp [add, reports, isActive, hasCompleted, hs, apply_ite p50Sum]

end NodeTally

namespace SnapshotTally

open LoadMetrics

theorem counts_activeNodes : Tally.Counts add (·.snap.activeNodes) isActive (2 ^ 32) := by
  refine .of_ite (by decide) fun t m => ?_
  cases hs : m.state <;> simp [add, isActive, hs, fetchAdd32]

theorem counts_unavailableNodes :
    Tally.Counts add (·.snap.unavailableNodes) isUnavailable (2 ^ 32) := by
  refine .of_ite (by decide) fun t m => ?_
  cases hs : m.state <;> simp [add, isUnavailable, hs, fetchAdd32]

theorem counts_overloadedCount : Tally.Counts add overloadedCount isOverloaded (2 ^ 32) := by
  refine .of_ite (by decide) fun t m => ?_
  cases hs : m.state <;> simp [add, isOverloaded, hs, fetchAdd32]

theorem counts_p50Contributors : Tally.Counts add p50Contributors hasCompleted (2 ^ 32) := by
  refine .of_ite (by decide) fun t m => ?_
  simp [add, hasCompleted, fetchAdd32]

theorem adds_p50Sum :
    Tally.Adds add p50Sum (fun m => if hasCompleted m then m.p50LatencyUs else 0) (2 ^ 64) := by
  refine .of_ite (by decide) fun t m => ?_
  simp [add, hasCompleted]

/-- The snapshot under construction lists the nodes seen so far, in order. -/
theorem foldl_nodes (l : List LoadMetrics) (t : SnapshotTally) :
    (l.foldl add t).snap.nodes = t.snap.nodes ++ l.map NodeEntry.ofMetrics := by
  induction l generalizing t with
  | nil => simp
  | cons m l ih =>
      have hnodes : (t.add m).snap.nodes = t.snap.nodes ++ [.ofMetrics m] := by
        cases hs : m.state <;> simp [add, hs]
      rw [List.foldl_cons, ih, hnodes, List.map_cons, List.append_assoc, List.singleton_append]

end SnapshotTally

/-! ## What each path sees -/

open LoadMetrics

/-- The guard of the source against an empty mean agrees with division by zero. -/
theorem guarded_div (sum count : Nat) : (if 0 < count then sum / count else 0) = sum / count := by
  split
  · rfl
  · next h => rw [Nat.eq_zero_of_not_pos h, Nat.div_zero]

section Paths

variable {F : Type u} [FloatOps F] (cluster : ClusterNodes) (b : Members F)

theorem ClusterNodes.total_lt : (Census.take cluster.mNodes).total < 2 ^ 32 :=
  (Census.total_take_le cluster.mNodes).trans_lt cluster.length_lt

theorem ClusterNodes.overloaded_le :
    (Census.take cluster.mNodes).overloaded ≤ cluster.mNodes.length :=
  List.countP_le_length

/-- The tick path: the mean is over the active nodes that have completed a job. -/
theorem determineAlert_buildClusterMetrics (th : TelemetryThresholds) (w : ThroughputWindow)
    (now : TimePoint) :
    th.determineAlert (b.buildClusterMetrics w now cluster.mNodes).1 =
      (Census.take cluster.mNodes).alert th
        (th.latencyThresholdUs ≤ meanP50 (cluster.mNodes.filter NodeTally.reports)) := by
  have hfit := cluster.length_lt
  have ha := NodeTally.counts_activeNodes.foldl cluster.mNodes {} rfl hfit
  have hu := NodeTally.counts_unavailableNodes.foldl cluster.mNodes {} rfl hfit
  have ho := NodeTally.counts_overloadedNodes.foldl cluster.mNodes {} rfl hfit
  have hcount := NodeTally.counts_p50Count.foldl cluster.mNodes {} rfl hfit
  have hsum := NodeTally.adds_p50Sum.foldl_filter cluster.mNodes {} rfl
  have hknown : (b.buildClusterMetrics w now cluster.mNodes).1.knownNodes =
      (Census.take cluster.mNodes).total := by
    simp only [Members.buildClusterMetrics, ha, hu, ho]
    exact Nat.mod_eq_of_lt cluster.total_lt
  have hmean : (b.buildClusterMetrics w now cluster.mNodes).1.meanP50LatencyUs =
      meanP50 (cluster.mNodes.filter NodeTally.reports) := by
    simp only [Members.buildClusterMetrics, guarded_div, hcount, hsum, meanP50,
      List.countP_eq_length_filter]
  rw [Census.determineAlert_eq ha hu hknown, hmean]

/-! ### The snapshot

The fraction of overloaded nodes goes through a division and a multiplication by the number of
nodes, which is exact here. -/

theorem captureSnapshot_activeNodes :
    (cluster.captureSnapshot b).activeNodes = (Census.take cluster.mNodes).active := by
  have hcount := SnapshotTally.counts_activeNodes.foldl cluster.mNodes {} rfl cluster.length_lt
  simp only [ClusterNodes.captureSnapshot]
  split <;> exact hcount

theorem captureSnapshot_unavailableNodes :
    (cluster.captureSnapshot b).unavailableNodes = (Census.take cluster.mNodes).unavailable := by
  have hcount :=
    SnapshotTally.counts_unavailableNodes.foldl cluster.mNodes {} rfl cluster.length_lt
  simp only [ClusterNodes.captureSnapshot]
  split <;> exact hcount

theorem captureSnapshot_nodes :
    (cluster.captureSnapshot b).nodes = cluster.mNodes.map NodeEntry.ofMetrics := by
  have hnodes := SnapshotTally.foldl_nodes cluster.mNodes {}
  simp only [ClusterNodes.captureSnapshot]
  split <;> exact hnodes

theorem captureSnapshot_overloadedFraction (h : cluster.mNodes ≠ []) :
    (cluster.captureSnapshot b).overloadedFraction =
      ((Census.take cluster.mNodes).overloaded : Rat) / cluster.mNodes.length := by
  have hmod : cluster.mNodes.length % 2 ^ 32 = cluster.mNodes.length :=
    Nat.mod_eq_of_lt cluster.length_lt
  have hpos : 0 < cluster.mNodes.length := List.length_pos_iff.mpr h
  simp only [ClusterNodes.captureSnapshot, hmod, if_pos hpos,
    SnapshotTally.counts_overloadedCount.foldl cluster.mNodes {} rfl cluster.length_lt]
  rfl

/-- The snapshot's mean is over every node that has completed a job, active or not. -/
theorem captureSnapshot_clusterP50LatencyUs :
    (cluster.captureSnapshot b).clusterP50LatencyUs =
      meanP50 (cluster.mNodes.filter hasCompleted) := by
  simp only [ClusterNodes.captureSnapshot, guarded_div, meanP50,
    SnapshotTally.counts_p50Contributors.foldl cluster.mNodes {} rfl cluster.length_lt,
    SnapshotTally.adds_p50Sum.foldl_filter cluster.mNodes {} rfl, List.countP_eq_length_filter]

/-- The fraction times the number of nodes, rounded, is the count it was made of. -/
theorem overloadedFraction_mul (h : cluster.mNodes ≠ []) :
    (cluster.captureSnapshot b).overloadedFraction * (cluster.mNodes.length : Rat) =
      (Census.take cluster.mNodes).overloaded := by
  have hne : (cluster.mNodes.length : Rat) ≠ 0 :=
    Nat.cast_ne_zero.mpr (List.length_pos_iff.mpr h).ne'
  rw [captureSnapshot_overloadedFraction cluster b h, div_mul_cancel₀ _ hne]

theorem toClusterMetrics_overloadedNodes :
    (cluster.captureSnapshot b).toClusterMetrics.overloadedNodes =
      (Census.take cluster.mNodes).overloaded := by
  have hmod : cluster.mNodes.length % 2 ^ 32 = cluster.mNodes.length :=
    Nat.mod_eq_of_lt cluster.length_lt
  have hle := cluster.overloaded_le
  have hlt := cluster.length_lt
  simp only [TelemetrySnapshot.toClusterMetrics, captureSnapshot_nodes, List.length_map, hmod]
  split
  · next hpos =>
      have hfloor : FloatOps.toUInt64
          (((Census.take cluster.mNodes).overloaded : Rat) + 1 / 2) =
            (Census.take cluster.mNodes).overloaded := by
        simp only [FloatOps.toUInt64]
        rw [show ⌊((Census.take cluster.mNodes).overloaded : Rat) + 1 / 2⌋ =
          ((Census.take cluster.mNodes).overloaded : Int) by
            rw [Int.floor_eq_iff, Int.cast_natCast]
            constructor <;> linarith]
        exact Int.toNat_natCast _
      rw [overloadedFraction_mul cluster b (List.length_pos_iff.mp hpos), hfloor]
      exact Nat.mod_eq_of_lt (by omega)
  · omega

/-- The snapshot path. -/
theorem determineAlert_toClusterMetrics (th : TelemetryThresholds) :
    th.determineAlert (cluster.captureSnapshot b).toClusterMetrics =
      (Census.take cluster.mNodes).alert th
        (th.latencyThresholdUs ≤ meanP50 (cluster.mNodes.filter hasCompleted)) := by
  have hknown : (cluster.captureSnapshot b).toClusterMetrics.knownNodes =
      (Census.take cluster.mNodes).total := by
    have hmod := Nat.mod_eq_of_lt cluster.total_lt
    simp only [Census.total, ← captureSnapshot_activeNodes cluster b,
      ← captureSnapshot_unavailableNodes cluster b,
      ← toClusterMetrics_overloadedNodes cluster b] at hmod ⊢
    exact hmod
  rw [Census.determineAlert_eq (captureSnapshot_activeNodes cluster b)
    (captureSnapshot_unavailableNodes cluster b) hknown,
    ← captureSnapshot_clusterP50LatencyUs cluster b]
  rfl

/-! ### The label of the snapshot's text

Whole doubles come back as integers, which the label's conversions accept. -/

theorem get_readBackObject {fs : JsonObject Rat} {key : String} {v default : JsonValue Rat}
    (h : JsonValue.find fs key = some v) :
    Harness.get (JsonValue.readBackObject fs) key default = v.readBack := by
  rw [Harness.get, JsonValue.find_readBackObject, h]
  rfl

/-- A count comes back from the text of a snapshot as it was. -/
theorem toInt_get_readBackObject {fs : JsonObject Rat} {key : String} {n : Nat}
    {default : JsonValue Rat} (h : JsonValue.find fs key = some (.int64 (toInt64 n))) :
    Harness.toInt (Harness.get (JsonValue.readBackObject fs) key default) = some (toInt64 n) := by
  rw [get_readBackObject h]
  rfl

/-- The rounding of the harness, which counts in unbounded integers. -/
theorem harness_overloaded :
    (if 0 < cluster.mNodes.length then
      Harness.truncate
        ((cluster.captureSnapshot b).overloadedFraction * (cluster.mNodes.length : Rat) + 1 / 2)
      else 0) = ((Census.take cluster.mNodes).overloaded : Int) := by
  split
  · next hpos =>
      rw [overloadedFraction_mul cluster b (List.length_pos_iff.mp hpos)]
      exact Harness.truncate_natCast_add_half _
  · have hle := cluster.overloaded_le
    omega

/-- What the harness reads of the text of a snapshot. -/
theorem toInt_activeNodes :
    Harness.toInt (Harness.get (JsonValue.readBackObject (cluster.captureSnapshot b).toJson)
      "activeNodes" (.int64 0)) = some ((Census.take cluster.mNodes).active : Int) := by
  have htotal := cluster.total_lt
  have hle : (Census.take cluster.mNodes).active ≤ (Census.take cluster.mNodes).total := by
    unfold Census.total
    omega
  rw [toInt_get_readBackObject rfl, captureSnapshot_activeNodes, toInt64_of_lt (by omega)]

theorem toInt_unavailableNodes :
    Harness.toInt (Harness.get (JsonValue.readBackObject (cluster.captureSnapshot b).toJson)
      "unavailableNodes" (.int64 0)) = some ((Census.take cluster.mNodes).unavailable : Int) := by
  have htotal := cluster.total_lt
  have hle : (Census.take cluster.mNodes).unavailable ≤ (Census.take cluster.mNodes).total := by
    unfold Census.total
    omega
  rw [toInt_get_readBackObject rfl, captureSnapshot_unavailableNodes, toInt64_of_lt (by omega)]

theorem toInt_clusterP50LatencyUs :
    Harness.toInt (Harness.get (JsonValue.readBackObject (cluster.captureSnapshot b).toJson)
      "clusterP50LatencyUs" (.int64 0)) =
        some (toInt64 (meanP50 (cluster.mNodes.filter hasCompleted))) := by
  rw [toInt_get_readBackObject rfl, captureSnapshot_clusterP50LatencyUs]

theorem len_nodes :
    Harness.len (Harness.get (JsonValue.readBackObject (cluster.captureSnapshot b).toJson)
      "nodes" (.array [])) = some cluster.mNodes.length := by
  rw [get_readBackObject rfl, JsonValue.readBack, Harness.len, JsonValue.readBackArray_eq_map,
    List.length_map, List.length_map, captureSnapshot_nodes, List.length_map]

theorem toFloat_overloadedFraction :
    Harness.toFloat (Harness.get (JsonValue.readBackObject (cluster.captureSnapshot b).toJson)
      "overloadedFraction" (.double 0)) = some (cluster.captureSnapshot b).overloadedFraction := by
  rw [get_readBackObject rfl, Harness.toFloat_readBack]
  rfl

/-- The harness path: the latency is read as a signed 64-bit integer. -/
theorem label_formatJson {Text : Type v} (json : JsonText Text Rat) (pretty : Bool)
    (th : TelemetryThresholds) :
    Harness.label json th ((cluster.captureSnapshot b).formatJson json pretty) =
      some ((Census.take cluster.mNodes).alert th
        ((th.latencyThresholdUs : Int) ≤
          toInt64 (meanP50 (cluster.mNodes.filter hasCompleted)))) := by
  have halert := Harness.determineAlert_eq (toInt_activeNodes cluster b)
    (toInt_unavailableNodes cluster b) (len_nodes cluster b) (toFloat_overloadedFraction cluster b)
    (toInt_clusterP50LatencyUs cluster b) (harness_overloaded cluster b)
    th.unavailableFraction th.overloadFraction th.latencyThresholdUs
  simp only [Harness.label, TelemetrySnapshot.formatJson, json.parse_json_to_json_string,
    JsonValue.readBack, JsonValue.getObject, Option.bind_eq_bind, Option.bind_some, halert,
    Census.harness_eq]

end Paths

/-! ## When they agree

The condition is about two means and one threshold. -/

/-- A threshold is met by the signed reading of a mean only below 2^63. -/
theorem le_toInt64_iff {T n : Nat} (hn : n < 2 ^ 64) :
    (T : Int) ≤ toInt64 n ↔ T ≤ n ∧ n < 2 ^ 63 := by
  by_cases h : n < 2 ^ 63
  · rw [toInt64_of_lt h]
    omega
  · have hneg := toInt64_neg (Nat.le_of_not_lt h) hn
    omega

/-- The two means are on the same side of the latency threshold, and a mean that meets it is one
that a signed 64-bit integer holds. -/
def SameLatencyVerdict (th : TelemetryThresholds) (l : List LoadMetrics) : Prop :=
  (th.latencyThresholdUs ≤ meanP50 (l.filter fun m => m.isActive && m.hasCompleted) ↔
    th.latencyThresholdUs ≤ meanP50 (l.filter hasCompleted)) ∧
  (th.latencyThresholdUs ≤ meanP50 (l.filter hasCompleted) →
    meanP50 (l.filter hasCompleted) < 2 ^ 63)

/-- The three computations give the same alert exactly when the node counts decide it alone or the
two latency means have the same verdict. -/
theorem alerts_agree_iff {F : Type u} [FloatOps F] {Text : Type v} (json : JsonText Text Rat)
    (pretty : Bool) (th : TelemetryThresholds) (cluster : ClusterNodes) (b : Members F)
    (w : ThroughputWindow) (now : TimePoint) :
    (th.determineAlert (b.buildClusterMetrics w now cluster.mNodes).1 =
        th.determineAlert (cluster.captureSnapshot b).toClusterMetrics ∧
      Harness.label json th ((cluster.captureSnapshot b).formatJson json pretty) =
        some (th.determineAlert (cluster.captureSnapshot b).toClusterMetrics)) ↔
    (Census.take cluster.mNodes).Settles th ∨ SameLatencyVerdict th cluster.mNodes := by
  rw [determineAlert_buildClusterMetrics, determineAlert_toClusterMetrics, label_formatJson,
    Option.some.injEq, Census.alert_eq_iff, Census.alert_eq_iff, ← or_and_left]
  refine or_congr_right (and_congr ?_ ?_)
  · exact decide_eq_decide
  · rw [decide_eq_decide, le_toInt64_iff (meanP50_lt _)]
    exact and_iff_left_iff_imp

/-- One idle node that answers in 5 ms, and one draining node that took 50 ms. -/
def drainingStraggler : ClusterNodes where
  mNodes :=
    [{ nodeId := 1, state := .idle, p50LatencyUs := 5000, completedJobs := 1 },
     { nodeId := 2, state := .draining, p50LatencyUs := 50000, completedJobs := 1 }]

/-- The advisor raises no alert for this cluster and its snapshot is labelled with one. -/
theorem straggler_labelled :
    let b : Members Rat := .create { nodes := [1, 2] }
    let th : TelemetryThresholds := {}
    th.determineAlert
        (b.buildClusterMetrics { mThroughputSampleTime := 0 } 0 drainingStraggler.mNodes).1 = "" ∧
      th.determineAlert (drainingStraggler.captureSnapshot b).toClusterMetrics = kAlertLatency ∧
      Harness.label (JsonText.tree Rat) th
        ((drainingStraggler.captureSnapshot b).formatJson (JsonText.tree Rat)) =
          some kAlertLatency := by
  decide +kernel

end FatpBalancer
