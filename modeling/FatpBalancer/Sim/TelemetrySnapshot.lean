/-
# Telemetry snapshots

The snapshot that `SimulatedCluster::captureSnapshot` takes, its JSON form, and its conversion to
cluster metrics.  Fractions are exact.

The snapshot is built by a fold over the metrics of the nodes; its text is a JSON object whose
fields are written in the order of the source.  `toClusterMetrics` goes back
the other way, to the figures the advisor reads, from counts and fractions.
-/
import FatpBalancer.Balancer.Metrics
import FatpBalancer.JsonLite

universe u v

namespace FatpBalancer

/-! ## The snapshot -/

structure NodeEntry where
  nodeId : Nat := 0
  state : Nat := 0
  utilization : Rat := 0
  queueDepth : Nat := 0
  p50LatencyUs : Nat := 0
  p99LatencyUs : Nat := 0
  completedJobs : Nat := 0
  failedJobs : Nat := 0

structure TelemetrySnapshot where
  nodes : List NodeEntry := []
  activeNodes : Nat := 0
  unavailableNodes : Nat := 0
  totalSubmitted : Nat := 0
  inFlightJobs : Nat := 0
  rejectedRateLimited : Nat := 0
  rejectedPriorityRejected : Nat := 0
  rejectedClusterSaturated : Nat := 0
  overloadedFraction : Rat := 0
  failedFraction : Rat := 0
  clusterP99LatencyUs : Nat := 0
  clusterP50LatencyUs : Nat := 0

/-- The nodes of a simulated cluster, whose constructors count them with a `uint32_t`. -/
structure ClusterNodes where
  mNodes : List LoadMetrics
  length_lt : mNodes.length < 2 ^ 32 := by decide

/-! ## Capturing it -/

def NodeEntry.ofMetrics (m : LoadMetrics) : NodeEntry where
  nodeId := m.nodeId
  state := m.state.toUInt8
  utilization := m.utilization
  queueDepth := m.queueDepth
  p50LatencyUs := m.p50LatencyUs
  p99LatencyUs := m.p99LatencyUs
  completedJobs := m.completedJobs
  failedJobs := m.failedJobs

/-- The snapshot under construction and the loop's own counters. -/
structure SnapshotTally where
  snap : TelemetrySnapshot := {}
  overloadedCount : Nat := 0
  failedCount : Nat := 0
  p99Max : Nat := 0
  p50Sum : Nat := 0
  p50Contributors : Nat := 0

/-- The loop body. -/
def SnapshotTally.add (t : SnapshotTally) (m : LoadMetrics) : SnapshotTally :=
  let snap := { t.snap with nodes := t.snap.nodes ++ [.ofMetrics m] }
  let snap :=
    if m.state = .idle ∨ m.state = .busy then
      { snap with activeNodes := fetchAdd32 snap.activeNodes }
    else if m.state = .failed ∨ m.state = .offline then
      { snap with unavailableNodes := fetchAdd32 snap.unavailableNodes }
    else snap
  { snap := snap
    overloadedCount :=
      if m.state = .overloaded then fetchAdd32 t.overloadedCount else t.overloadedCount
    failedCount := if m.state = .failed then fetchAdd32 t.failedCount else t.failedCount
    p99Max := if t.p99Max < m.p99LatencyUs then m.p99LatencyUs else t.p99Max
    p50Sum := if 0 < m.completedJobs then (t.p50Sum + m.p50LatencyUs) % 2 ^ 64 else t.p50Sum
    p50Contributors :=
      if 0 < m.completedJobs then fetchAdd32 t.p50Contributors else t.p50Contributors }

variable {F : Type u} [FloatOps F]

def ClusterNodes.captureSnapshot (cluster : ClusterNodes) (balancer : Members F) :
    TelemetrySnapshot :=
  let t := cluster.mNodes.foldl SnapshotTally.add {}
  let total : Nat := cluster.mNodes.length % 2 ^ 32
  let snap :=
    if 0 < total then
      { t.snap with
        overloadedFraction := (t.overloadedCount : Rat) / total
        failedFraction := (t.failedCount : Rat) / total }
    else t.snap
  { snap with
    clusterP99LatencyUs := t.p99Max
    clusterP50LatencyUs := if 0 < t.p50Contributors then t.p50Sum / t.p50Contributors else 0
    totalSubmitted := balancer.mTotalSubmitted
    inFlightJobs := balancer.mSubmittedCount
    rejectedRateLimited := balancer.mAdmission.mRejections .rateLimited
    rejectedPriorityRejected := balancer.mAdmission.mRejections .priorityRejected
    rejectedClusterSaturated := balancer.mAdmission.mRejections .clusterSaturated }

/-! ## Reading it -/

/-- The overloaded nodes are counted back from their fraction. -/
def TelemetrySnapshot.toClusterMetrics (snap : TelemetrySnapshot) : ClusterMetrics :=
  let physicalTotal : Nat := snap.nodes.length % 2 ^ 32
  let overloadedNodes :=
    if 0 < physicalTotal then
      FloatOps.toUInt64 (snap.overloadedFraction * physicalTotal + 1 / 2) % 2 ^ 32
    else 0
  { activeNodes := snap.activeNodes
    unavailableNodes := snap.unavailableNodes
    totalSubmitted := snap.totalSubmitted
    totalCompleted := 0
    totalRejected :=
      snap.rejectedRateLimited + snap.rejectedPriorityRejected + snap.rejectedClusterSaturated
    meanP50LatencyUs := snap.clusterP50LatencyUs
    maxP99LatencyUs := snap.clusterP99LatencyUs
    overloadedNodes := overloadedNodes
    knownNodes := (snap.activeNodes + snap.unavailableNodes + overloadedNodes) % 2 ^ 32 }

def NodeEntry.toJson (n : NodeEntry) : JsonValue Rat :=
  .object
    [("nodeId", .int64 (toInt64 n.nodeId)),
     ("state", .int64 (toInt64 n.state)),
     ("utilization", .double n.utilization),
     ("queueDepth", .int64 (toInt64 n.queueDepth)),
     ("p50LatencyUs", .int64 (toInt64 n.p50LatencyUs)),
     ("p99LatencyUs", .int64 (toInt64 n.p99LatencyUs)),
     ("completedJobs", .int64 (toInt64 n.completedJobs)),
     ("failedJobs", .int64 (toInt64 n.failedJobs))]

/-- The object that `formatJson` prints. -/
def TelemetrySnapshot.toJson (snap : TelemetrySnapshot) : JsonObject Rat :=
  [("nodes", .array (snap.nodes.map NodeEntry.toJson)),
   ("activeNodes", .int64 (toInt64 snap.activeNodes)),
   ("unavailableNodes", .int64 (toInt64 snap.unavailableNodes)),
   ("totalSubmitted", .int64 (toInt64 snap.totalSubmitted)),
   ("inFlightJobs", .int64 (toInt64 snap.inFlightJobs)),
   ("rejectedRateLimited", .int64 (toInt64 snap.rejectedRateLimited)),
   ("rejectedPriorityRejected", .int64 (toInt64 snap.rejectedPriorityRejected)),
   ("rejectedClusterSaturated", .int64 (toInt64 snap.rejectedClusterSaturated)),
   ("overloadedFraction", .double snap.overloadedFraction),
   ("failedFraction", .double snap.failedFraction),
   ("clusterP99LatencyUs", .int64 (toInt64 snap.clusterP99LatencyUs)),
   ("clusterP50LatencyUs", .int64 (toInt64 snap.clusterP50LatencyUs))]

def TelemetrySnapshot.formatJson {Text : Type v} (json : JsonText Text Rat)
    (snap : TelemetrySnapshot) (pretty : Bool := true) : Text :=
  json.to_json_string (.object snap.toJson) pretty

end FatpBalancer
