/-
# The balancer: shared members and threads

The state of one `Balancer` and of everything that acts on it: its members, one record for every
call of `submit`, `cancel`, `switchPolicy` and `setAgingEnabled`, the drain thread, the aging
thread, and one record for every job a node has accepted, with the registration state the node's
callback and the registering thread share.

A program counter stands before an atomic step: an atomic operation, a lock region or a call into a
node.  Fields marked *history* record the past for the statements below; no step reads them.
-/
import FatpBalancer.AdmissionControl
import FatpBalancer.AgingEngine
import FatpBalancer.CostModel
import FatpBalancer.HoldingQueue

universe u

namespace FatpBalancer

/-- The position of a `submit` call in the table of calls, which identifies its job. -/
abbrev CallId := Nat

/-- The identity of a policy object: 0 is the one the balancer was built with, `k + 1` the argument
of the `k`-th `switchPolicy` call. -/
abbrev PolicyId := Nat

/-! ## Values the threads pass around -/

structure JobRoutingInfo where
  jobId : JobId
  nodeId : NodeId
  deriving DecidableEq, Repr

structure DispatchRegistrationState where
  published : Bool := false
  handle : Option JobHandle := none
  earlyCompletedJob : Option Job := none
  earlySucceeded : Bool := false
  deriving DecidableEq, Repr

/-- The closure of `makeHoldingTerminalCallback`. -/
structure HoldingTerminalCallback where
  capturedJob : Job
  /-- history: the call whose job was captured -/
  call : CallId
  deriving DecidableEq, Repr

abbrev HeldEntry := Entry HoldingTerminalCallback

/-- The atomic steps of `finalizeJobLifecycle`, in order. -/
inductive FinalizeStage
  | learn
  | count
  | untrack
  | unroute
  | release
  deriving DecidableEq, Repr

/-- A running `finalizeJobLifecycle(finishedJob, routedHandle, succeeded)`. -/
structure Finalize where
  finishedJob : Job
  routedHandle : Option JobHandle
  succeeded : Bool
  stage : FinalizeStage := .learn
  /-- history: the call whose job left the system -/
  call : CallId
  /-- history: the dispatch it left from, none for a job that was still held -/
  dispatch : Option Nat
  deriving DecidableEq, Repr

/-- The atomic steps of `registerDispatchedJob`. -/
inductive RegisterStage
  | insert
  | checkAging
  | track
  | publish
  | finalize (f : Finalize)
  deriving DecidableEq, Repr

/-- A running `registerDispatchedJob(job, nodeId, handle, regState)`; the registration state is the
one of the dispatch at position `dispatch`. -/
structure Register where
  job : Job
  nodeId : NodeId
  handle : JobHandle
  dispatch : Nat
  stage : RegisterStage := .insert
  deriving DecidableEq, Repr

/-! ## Dispatches -/

/-- Where a job is that a node has accepted. -/
inductive NodeSide
  /-- queued or running on the node -/
  | live
  /-- done on the node, which is about to invoke the callback -/
  | finished (completed : Job) (succeeded : Bool)
  /-- the callback is past its lock region and inside `finalizeJobLifecycle` -/
  | calling (f : Finalize)
  /-- the callback has returned -/
  | called
  /-- the node has reported a successful cancel and never invokes the callback -/
  | cancelled
  deriving DecidableEq, Repr

/-- One job accepted by a node: the node's side of it, the closure of
`makeDispatchCompletionCallback` and the registration state that closure shares. -/
structure Dispatch where
  nodeId : NodeId
  handle : JobHandle
  capturedJob : Job
  regState : DispatchRegistrationState := {}
  side : NodeSide := .live
  /-- history: the call whose job was dispatched -/
  call : CallId
  /-- history: in the routing maps, its finalisation not having erased it yet -/
  routed : Bool := false
  /-- history: its registration is past the aging step -/
  settled : Bool := false
  /-- history: its finalisation has untracked it -/
  untracked : Bool := false
  /-- history: what the node reported -/
  report : Option (Job × Bool) := none
  deriving DecidableEq, Repr

/-! ## Program counters -/

/-- A `submit` call. -/
inductive SubmitPc
  /-- after `mSubmittedCount.fetch_add`, before the `mDraining` load -/
  | entered
  /-- the gate was shut: `mSubmittedCount.fetch_sub` and `ClusterSaturated` -/
  | turnedAway
  /-- deadline check and metrics snapshot -/
  | gate
  | globalRate (saturated : Bool)
  | modes (saturated : Bool)
  | priorityRate (saturated : Bool)
  | capacity (saturated : Bool)
  /-- the compare-and-swap loop of `tryReserveHoldingSlot`, none before its first load -/
  | reserving (current : Option Nat)
  | holdId
  | enqueue (job : Job)
  /-- `enqueue` has failed: give the slot back -/
  | releaseSlot
  /-- held; before `mTotalSubmitted.fetch_add` -/
  | countHeld (handle : JobHandle)
  | select
  | assignId (nodeId : NodeId)
  | nodeSubmit (nodeId : NodeId) (job : Job)
  /-- accepted by the node; before `mTotalSubmitted.fetch_add` -/
  | countDispatched (r : Register)
  | register (r : Register)
  /-- `mSubmittedCount.fetch_sub` and an error return -/
  | backOut (error : SubmitError)
  | returned (result : Except SubmitError JobHandle)

/-- One call of `submit`, with the job it was given. -/
structure Call where
  job : Job
  pc : SubmitPc := .entered
  /-- history: the number of ids issued before this call's job got its own -/
  ordinal : Option Nat := none

inductive CancelPc
  | start
  /-- an entry was removed from the holding queue: give its slot back -/
  | releaseSlot (entry : HeldEntry)
  /-- routed: ask the node -/
  | askNode (info : JobRoutingInfo)
  | finalize (f : Finalize)
  | returned (result : Except CancelError Unit)

/-- One call of `cancel`, by a user or by the aging thread. -/
structure CancelCall where
  handle : JobHandle
  pc : CancelPc := .start
  /-- history: the un-finalised job whose `submit` had returned this handle when the call began -/
  target : Option CallId
  /-- history: the job this call has taken out of the system -/
  hit : Option CallId := none

inductive SwitchPc
  /-- before `mSwitchMutex` -/
  | lock
  | setDraining
  | spin
  | swap
  | resume
  | unlock
  | done
  deriving DecidableEq, Repr

/-- The holding drain thread. -/
inductive DrainPc
  /-- outside the inner loop -/
  | waiting
  /-- at the head of the inner loop -/
  | looping
  /-- an entry in hand: deadline, retry and saturation checks -/
  | entry (entry : HeldEntry)
  | dropRelease (entry : HeldEntry)
  | dropping (f : Finalize)
  | select (entry : HeldEntry)
  | nodeSubmit (nodeId : NodeId) (entry : HeldEntry)
  | requeue (entry : HeldEntry)
  /-- dispatched: give the slot back, then register -/
  | releaseSlot (r : Register)
  | register (r : Register)

/-- The aging thread. -/
inductive AgingPc
  /-- `mAgingThread` holds no thread -/
  | absent
  | sleeping
  | ticking
  | events (aged : List AgedEvent) (expired : List ExpiredEvent)
  | cancelling (cancel : CancelCall) (expired : List ExpiredEvent)
  /-- the loop has ended, the thread is not joined yet -/
  | exited

/-- A `setAgingEnabled` call. -/
inductive TogglePc
  | exchange (enabled : Bool)
  | clearStop
  | spawn
  | raiseStop
  | join
  | done
  deriving DecidableEq, Repr

/-! ## The whole state -/

structure HoldingQueueConfig where
  /-- 0 means unlimited -/
  maxRetries : Nat := 10

structure BalancerConfig (F : Type u) [FloatOps F] where
  admission : AdmissionConfig := {}
  aging : AgingConfig := {}
  costModel : CostModelConfig F := {}
  holdingQueue : HoldingQueueConfig := {}
  /-- the identities of `mNodes`, in order -/
  nodes : List NodeId
  /-- how `FastHashMap::insert` treats a key that is present -/
  insertOverwrites : Bool := true
  startTime : TimePoint := 0

/-- The members of `Balancer` that more than one thread can touch.  The 64-bit totals
`mTotalSubmitted` and `mTotalCompleted`, and the gate's rejection counters, are plain numbers: they
only ever go up by one, and what is said of them holds of the code's modulo `2 ^ 64`.  The 32-bit
`mSubmittedCount` and `mNextJobId` wrap around as in the code. -/
structure Members (F : Type u) [FloatOps F] where
  mPolicy : PolicyId
  mAdmission : AdmissionControl
  mCostModel : CostModel F
  mHandleToJobInfo : HashMap JobHandle JobRoutingInfo
  mJobIdToHandleMap : HashMap JobId JobHandle
  mDraining : Bool
  mSubmittedCount : Nat
  mTotalSubmitted : Nat
  mTotalCompleted : Nat
  mNextJobId : Nat
  mSwitchMutex : Bool
  mHoldingQueue : HoldingQueue HoldingTerminalCallback
  mAgingEngine : AgingEngine
  mAgingEnabled : Bool
  mAgingThreadStop : Bool

structure State (F : Type u) [FloatOps F] where
  m : Members F
  calls : List Call := []
  dispatches : List Dispatch := []
  cancels : List CancelCall := []
  switches : List SwitchPc := []
  toggles : List TogglePc := []
  drain : DrainPc := .waiting
  aging : AgingPc := .absent
  /-- history: the number of ids `nextJobId` has issued -/
  issued : Nat := 0
  /-- history: the finished `finalizeJobLifecycle` calls, each with the policy installed then -/
  finalized : List (CallId × PolicyId) := []
  /-- history: the policy selections, by job and policy -/
  selections : List (CallId × PolicyId) := []
  /-- history: the `CostModel::update` calls, by dispatch and job value -/
  updates : List (Option Nat × Job) := []
  /-- history: the held jobs the drain loop dropped -/
  dropped : List CallId := []
  /-- history: the held jobs a cancel removed -/
  removed : List CallId := []

variable {F : Type u} [FloatOps F]

def Members.create (cfg : BalancerConfig F) : Members F where
  mPolicy := 0
  mAdmission := .create cfg.admission cfg.startTime
  mCostModel := .create cfg.costModel
  mHandleToJobInfo := ∅
  mJobIdToHandleMap := ∅
  mDraining := false
  mSubmittedCount := 0
  mTotalSubmitted := 0
  mTotalCompleted := 0
  mNextJobId := 1
  mSwitchMutex := false
  mHoldingQueue := { mCapacity := cfg.admission.holdingQueueCapacity }
  mAgingEngine := { mConfig := cfg.aging }
  mAgingEnabled := false
  mAgingThreadStop := false

/-- A freshly constructed balancer: its drain thread is running, nothing else is. -/
def State.create (cfg : BalancerConfig F) : State F where
  m := .create cfg

end FatpBalancer
