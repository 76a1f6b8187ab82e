/-
# The cluster metrics

`Balancer::buildClusterMetrics`: one pass over the node metrics, the balancer's own counters, and
the rolling throughput window.
-/
import FatpBalancer.Balancer.State
import FatpBalancer.Lib.Tally

universe u

namespace FatpBalancer

/-! ## The pass over the nodes -/

/-- What the loop accumulates. -/
structure NodeTally where
  activeNodes : Nat := 0
  unavailableNodes : Nat := 0
  overloadedNodes : Nat := 0
  p50Sum : Nat := 0
  p50Count : Nat := 0
  p99Max : Nat := 0

/-- The loop body. -/
def NodeTally.add (t : NodeTally) (m : LoadMetrics) : NodeTally :=
  let t :=
    if m.state = .idle ∨ m.state = .busy then
      let t := { t with activeNodes := fetchAdd32 t.activeNodes }
      if 0 < m.completedJobs then
        { t with p50Sum := (t.p50Sum + m.p50LatencyUs) % 2 ^ 64, p50Count := fetchAdd32 t.p50Count }
      else t
    else if m.state = .failed ∨ m.state = .offline then
      { t with unavailableNodes := fetchAdd32 t.unavailableNodes }
    else t
  let t :=
    if m.state = .overloaded then { t with overloadedNodes := fetchAdd32 t.overloadedNodes } else t
  if t.p99Max < m.p99LatencyUs then { t with p99Max := m.p99LatencyUs } else t

/-! ## The throughput window -/

structure ThroughputWindow where
  mThroughputSampleTime : TimePoint
  mThroughputSampleCompleted : Nat := 0
  mCachedThroughput : Rat := 0

/-- A new sample is taken once half a second has passed since the last one. -/
def ThroughputWindow.sample (w : ThroughputWindow) (now : TimePoint) (completed : Nat) :
    ThroughputWindow :=
  let elapsedSec : Rat := ((now - w.mThroughputSampleTime : Int) : Rat) / 1000000000
  if 1 / 2 ≤ elapsedSec then
    { mThroughputSampleTime := now
      mThroughputSampleCompleted := completed
      mCachedThroughput :=
        if 0 < elapsedSec then ((completed - w.mThroughputSampleCompleted : Nat) : Rat) / elapsedSec
        else 0 }
  else w

/-! ## The metrics -/

/-- The error codes in the order of the enumeration. -/
def SubmitError.all : List SubmitError :=
  [.rateLimited, .priorityRejected, .clusterSaturated, .holdingQueueFull, .deadlineUnachievable,
    .nodeNotFound]

variable {F : Type u} [FloatOps F]

/-- The report, made from the counters at one moment.  The code loads them one after the other, each
by a relaxed load, so that other threads can count in between: `totalSubmitted` may be older than
`totalCompleted` by what has been submitted and completed since.  What is said here of a report is
said of one that nobody comes between. -/
def Members.buildClusterMetrics (b : Members F) (w : ThroughputWindow) (now : TimePoint)
    (nodeMetrics : List LoadMetrics) : ClusterMetrics × ThroughputWindow :=
  let t := nodeMetrics.foldl NodeTally.add {}
  let w := w.sample now b.mTotalCompleted
  ({ activeNodes := t.activeNodes
     unavailableNodes := t.unavailableNodes
     overloadedNodes := t.overloadedNodes
     knownNodes := (t.activeNodes + t.unavailableNodes + t.overloadedNodes) % 2 ^ 32
     meanP50LatencyUs := if 0 < t.p50Count then t.p50Sum / t.p50Count else 0
     maxP99LatencyUs := t.p99Max
     totalSubmitted := b.mTotalSubmitted
     totalCompleted := b.mTotalCompleted
     holdingQueueDepth := b.mAdmission.mHoldingQueueDepth
     rejectionsByCode := b.mAdmission.mRejections
     totalRejected := SubmitError.all.foldl (fun sum e => sum + b.mAdmission.mRejections e) 0
     throughputPerSecond := w.mCachedThroughput }, w)

end FatpBalancer
