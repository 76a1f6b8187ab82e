/-
# Node states and load metrics

The eight node states, which priorities each of them accepts, the per-node metrics the balancer
folds over, and the cluster metrics the advisor evaluates.
-/
import FatpBalancer.Job

namespace FatpBalancer

inductive NodeState
  | offline
  | initializing
  | idle
  | busy
  | overloaded
  | draining
  | failed
  | recovering
  deriving DecidableEq, Repr

/-- `static_cast<uint8_t>` of a node state. -/
def NodeState.toUInt8 : NodeState → Nat
  | .offline => 0
  | .initializing => 1
  | .idle => 2
  | .busy => 3
  | .overloaded => 4
  | .draining => 5
  | .failed => 6
  | .recovering => 7

/-- Whether a node in this state accepts jobs of this priority. -/
def nodeAcceptsPriority : NodeState → Priority → Bool
  | .idle, _ | .busy, _ => true
  | .overloaded, p | .recovering, p => p = .critical || p = .high
  | .draining, p => p = .critical
  | .offline, _ | .initializing, _ | .failed, _ => false

/-- The fields of `LoadMetrics` that the balancer, the snapshot and the advisors read.  The `float`
`utilization` stands for its value; `WeightedCapacity`, alone in scoring by it, makes a float of it
again. -/
structure LoadMetrics where
  nodeId : NodeId := 0
  state : NodeState := .offline
  utilization : Rat := 0
  queueDepth : Nat := 0
  p50LatencyUs : Nat := 0
  p99LatencyUs : Nat := 0
  completedJobs : Nat := 0
  failedJobs : Nat := 0
  deriving DecidableEq, Repr

/-- A snapshot of the whole cluster, from the balancer's point of view.  The `float`
`throughputPerSecond` stands for its exact value; the totals are 64-bit and do not wrap here. -/
structure ClusterMetrics where
  knownNodes : Nat := 0
  activeNodes : Nat := 0
  unavailableNodes : Nat := 0
  overloadedNodes : Nat := 0
  totalSubmitted : Nat := 0
  totalCompleted : Nat := 0
  totalRejected : Nat := 0
  rejectionsByCode : SubmitError → Nat := fun _ => 0
  holdingQueueDepth : Nat := 0
  throughputPerSecond : Rat := 0
  meanP50LatencyUs : Nat := 0
  maxP99LatencyUs : Nat := 0

/-- `Balancer::areAllEligibleOverloaded`: the loop stops at the first eligible node that is not
overloaded, and otherwise answers whether it met an eligible node at all. -/
def areAllEligibleOverloaded (metrics : List LoadMetrics) (priority : Priority) : Bool :=
  go false metrics
where
  go (anyEligible : Bool) : List LoadMetrics → Bool
    | [] => anyEligible
    | m :: rest =>
        if nodeAcceptsPriority m.state priority then
          if m.state ≠ .overloaded then false else go true rest
        else go anyEligible rest

/-- Some node accepts the priority, and every one that does is overloaded. -/
theorem areAllEligibleOverloaded_iff {metrics : List LoadMetrics} {priority : Priority} :
    areAllEligibleOverloaded metrics priority = true ↔
      (∃ m ∈ metrics, nodeAcceptsPriority m.state priority = true) ∧
        ∀ m ∈ metrics, nodeAcceptsPriority m.state priority = true → m.state = .overloaded := by
  have hgo : ∀ anyEligible, areAllEligibleOverloaded.go priority anyEligible metrics = true ↔
      (anyEligible = true ∨ ∃ m ∈ metrics, nodeAcceptsPriority m.state priority = true) ∧
        ∀ m ∈ metrics, nodeAcceptsPriority m.state priority = true → m.state = .overloaded := by
    induction metrics with
    | nil => simp [areAllEligibleOverloaded.go]
    | cons m rest ih =>
        intro anyEligible
        rw [areAllEligibleOverloaded.go]
        split
        · next haccepts =>
            split
            · next hroom => simp [haccepts, hroom]
            · next hfull =>
                have hfull := Decidable.not_not.mp hfull
                rw [hfull] at haccepts
                rw [ih]
                simp [haccepts, hfull]
        · next hrefuses =>
            rw [ih]
            simp [hrefuses]
  simpa [areAllEligibleOverloaded] using hgo false

end FatpBalancer
