/-
# The simulated node: its members and lock regions

One function for each lock region of `SimulatedNode`, on the members that `mMutex` protects.  What a
region is told from outside (the handle the slot map picks, the measured time) is an argument.  The
state callback, which runs user code after a region, and the artificial delay are left out.

The regions are `submit`, `cancel`, `reprioritise`, `injectFault`, the two of `executeJob` and those
of `start` and `stop`; each ends with `updateStateUnlocked` where the source's does.  The last two
sections say of every region what it does to the slots, the depth and the state, so that no proof
about nodes unfolds one.
-/
import FatpBalancer.Lib.HashMap
import FatpBalancer.LoadMetrics
import Mathlib.Logic.Function.Basic

namespace FatpBalancer

/-! ## Faults and configuration

As in the source, with its defaults. -/

inductive FaultType
  | none
  | crash
  | slowdown
  | partition
  deriving DecidableEq, Repr

structure FaultConfig where
  slowdownFactor : Nat := 10
  deriving DecidableEq, Repr

structure SimulatedNodeConfig where
  usPerCostUnit : Nat := 1
  overloadThreshold : Nat := 32
  recoverThreshold : Nat := 16
  /-- how `FastHashMap::insert` treats a key that is present -/
  insertOverwrites : Bool := true

/-! ## Handles

The two halves of the slot map's handle, in the order in which the code packs them. -/

structure SlotMapHandle where
  index : UInt32
  generation : UInt32
  deriving DecidableEq, Repr

/-- The index in bits 63..32, the generation in bits 31..0. -/
def SlotMapHandle.toJobHandle (h : SlotMapHandle) : JobHandle :=
  (h.index.toNat <<< 32) ||| h.generation.toNat

def SlotMapHandle.ofJobHandle (handle : JobHandle) : SlotMapHandle where
  index := .ofNat (handle >>> 32)
  generation := .ofNat (handle &&& 0xFFFFFFFF)

/-- The encoding loses nothing. -/
@[simp] theorem SlotMapHandle.ofJobHandle_toJobHandle (h : SlotMapHandle) :
    ofJobHandle h.toJobHandle = h := by
  obtain ⟨index, generation⟩ := h
  have hgen : generation.toNat < 2 ^ 32 := generation.toNat_lt
  have hadd : (index.toNat <<< 32) ||| generation.toNat = index.toNat * 2 ^ 32 + generation.toNat := by
    rw [← Nat.shiftLeft_add_eq_or_of_lt hgen, Nat.shiftLeft_eq]
  have hhigh : (index.toNat * 2 ^ 32 + generation.toNat) >>> 32 = index.toNat := by
    rw [Nat.shiftRight_eq_div_pow]
    omega
  have hlow : (index.toNat * 2 ^ 32 + generation.toNat) &&& 0xFFFFFFFF = generation.toNat := by
    rw [show (0xFFFFFFFF : Nat) = 2 ^ 32 - 1 from rfl, Nat.and_two_pow_sub_one_eq_mod]
    omega
  rw [toJobHandle, ofJobHandle, hadd, hhigh, hlow]
  simp

/-! ## Members -/

inductive PendingJobState
  | queued
  | running
  deriving DecidableEq, Repr

def kLatencyWindowSize : Nat := 256

/-- The members of a node.  The depths are 32 bits wide and wrap around; `mCompletedJobs` and
`mFailedJobs` have 64 bits and are counted without the wrap-around. -/
structure SimulatedNode where
  mId : NodeId
  mConfig : SimulatedNodeConfig
  mState : NodeState := .offline
  mFault : FaultType := .none
  mFaultConfig : FaultConfig := {}
  mShutdown : Bool := false
  mQueueDepthByPriority : Priority → Nat := fun _ => 0
  mQueueDepth : Nat := 0
  mPendingSlots : HashMap SlotMapHandle PendingJobState := ∅
  mPriorityOverrides : HashMap JobHandle Priority := ∅
  mCompletedJobs : Nat := 0
  mFailedJobs : Nat := 0
  mLatencies : List Nat := []
  /-- the pointer is not null -/
  mThreadPool : Bool := false

namespace SimulatedNode

/-- The regions of `start`, nobody coming in between. -/
def start (n : SimulatedNode) : SimulatedNode :=
  { n with
    mShutdown := false
    mThreadPool := true
    mState := .idle }

/-! ## Helpers, under the lock

Called by the regions and never alone. -/

/-- `fetch_sub` on a counter that is not zero. -/
def decrement (counter : Nat) : Nat := if 0 < counter then fetchSub32 counter else counter

def decrementQueueCounters (n : SimulatedNode) (priority : Priority) : SimulatedNode :=
  { n with
    mQueueDepthByPriority := Function.update n.mQueueDepthByPriority priority
      (decrement (n.mQueueDepthByPriority priority))
    mQueueDepth := decrement n.mQueueDepth }

/-- The state change to notify, if there is one. -/
def updateStateUnlocked (n : SimulatedNode) : Option NodeState × SimulatedNode :=
  if n.mFault = .crash ∨ n.mState = .failed then (none, n)
  else
    let depth := n.mQueueDepth
    let newState : NodeState :=
      if n.mConfig.overloadThreshold ≤ depth then .overloaded
      else if 0 < depth then
        -- hysteresis
        if n.mState = .overloaded ∧ n.mConfig.recoverThreshold < depth then .overloaded else .busy
      else .idle
    if newState ≠ n.mState then (some newState, { n with mState := newState }) else (none, n)

def recordLatency (n : SimulatedNode) (us : Nat) : SimulatedNode :=
  let latencies := n.mLatencies ++ [us]
  { n with
    mLatencies := if kLatencyWindowSize < latencies.length then latencies.tail else latencies }

/-! ## Lock regions

The arguments are what the caller hands over and what the environment decides. -/

def injectFault (n : SimulatedNode) (fault : FaultType) (config : FaultConfig) : SimulatedNode :=
  let n := { n with mFault := fault, mFaultConfig := config }
  if fault = .crash then { n with mState := .failed }
  else if fault = .none ∧ n.mState = .failed then
    -- recovering first, then resolved by the queue depth
    ({ n with mState := .recovering } : SimulatedNode).updateStateUnlocked.2
  else n

/-- What `submit` writes into the job it accepts. -/
def stamp (n : SimulatedNode) (job : Job) : Job :=
  { job with
    executedBy := n.mId
    queueDepthAtDispatch := n.mQueueDepth }

/-- The lock region of `submit`; the slot map picks the handle. -/
def submit (n : SimulatedNode) (job : Job) (smHandle : SlotMapHandle) :
    Except SubmitError SimulatedNode :=
  if n.mShutdown ∨ n.mFault = .crash ∨ n.mFault = .partition ∨ n.mState = .failed ∨
      n.mState = .offline then .error .clusterSaturated
  else if !nodeAcceptsPriority n.mState job.priority then .error .priorityRejected
  else if !n.mThreadPool then .error .clusterSaturated
  else
    let n := { n with
      mPendingSlots := n.mPendingSlots.insert smHandle .queued
      mQueueDepthByPriority := Function.update n.mQueueDepthByPriority job.priority
        (fetchAdd32 (n.mQueueDepthByPriority job.priority))
      mQueueDepth := fetchAdd32 n.mQueueDepth }
    .ok n.updateStateUnlocked.2

def cancel (n : SimulatedNode) (handle : JobHandle) : Except CancelError Unit × SimulatedNode :=
  let smHandle := SlotMapHandle.ofJobHandle handle
  match n.mPendingSlots.lookup smHandle with
  | none => (.error .notFound, n)
  | some .running => (.error .alreadyRunning, n)
  | some .queued =>
      (.ok (), { n with
        mPendingSlots := n.mPendingSlots.erase smHandle
        mPriorityOverrides := n.mPriorityOverrides.erase handle })

def reprioritise (n : SimulatedNode) (handle : JobHandle) (newPriority : Priority) :
    Except CancelError Unit × SimulatedNode :=
  if n.mPendingSlots.lookup (.ofJobHandle handle) = some .queued then
    (.ok (), { n with
      mPriorityOverrides :=
        HashMap.put n.mConfig.insertOverwrites handle newPriority n.mPriorityOverrides })
  else (.error .notFound, n)

/-- The first lock region of `executeJob`: the job it goes on with, none for a cancelled one. -/
def beginJob (n : SimulatedNode) (job : Job) (smHandle : SlotMapHandle) :
    Option Job × SimulatedNode :=
  let rawKey := smHandle.toJobHandle
  match n.mPendingSlots.lookup smHandle with
  | none =>
      let n := { n with mPriorityOverrides := n.mPriorityOverrides.erase rawKey }
      (none, (n.decrementQueueCounters job.priority).updateStateUnlocked.2)
  | some _ =>
      let n := { n with mPendingSlots := n.mPendingSlots.insert smHandle .running }
      match n.mPriorityOverrides.lookup rawKey with
      | none => (some job, n)
      | some ov =>
          (some { job with priority := ov },
            { n with mPriorityOverrides := n.mPriorityOverrides.erase rawKey })

/-- What the node reports of a job that ran for so long. -/
def observe (n : SimulatedNode) (job : Job) (elapsedUs : Nat) : Job :=
  let upc := if 0 < n.mConfig.usPerCostUnit then n.mConfig.usPerCostUnit else 1
  { job with observedCost := elapsedUs / upc }

/-- The second lock region of `executeJob`. -/
def completeJob (n : SimulatedNode) (job : Job) (smHandle : SlotMapHandle) (succeeded : Bool)
    (elapsedUs : Nat) : SimulatedNode :=
  let n := n.decrementQueueCounters job.priority
  let n := if succeeded then { n with mCompletedJobs := n.mCompletedJobs + 1 }
    else { n with mFailedJobs := n.mFailedJobs + 1 }
  let n := n.recordLatency elapsedUs
  let n := { n with mPendingSlots := n.mPendingSlots.erase smHandle }
  n.updateStateUnlocked.2

/-! ## What a region does to the slots and the depth -/

/-- Only the state is updated. -/
theorem updateStateUnlocked_eq (n : SimulatedNode) :
    n.updateStateUnlocked.2 = { n with mState := n.updateStateUnlocked.2.mState } := by
  rw [updateStateUnlocked]
  dsimp only
  split_ifs <;> rfl

@[simp] theorem updateStateUnlocked_mPendingSlots (n : SimulatedNode) :
    n.updateStateUnlocked.2.mPendingSlots = n.mPendingSlots := by
  rw [updateStateUnlocked_eq]

@[simp] theorem updateStateUnlocked_mQueueDepth (n : SimulatedNode) :
    n.updateStateUnlocked.2.mQueueDepth = n.mQueueDepth := by
  rw [updateStateUnlocked_eq]

@[simp] theorem updateStateUnlocked_mQueueDepthByPriority (n : SimulatedNode) :
    n.updateStateUnlocked.2.mQueueDepthByPriority = n.mQueueDepthByPriority := by
  rw [updateStateUnlocked_eq]

@[simp] theorem updateStateUnlocked_mPriorityOverrides (n : SimulatedNode) :
    n.updateStateUnlocked.2.mPriorityOverrides = n.mPriorityOverrides := by
  rw [updateStateUnlocked_eq]

/-- A fault changes neither. -/
theorem injectFault_keeps (n : SimulatedNode) (fault : FaultType) (config : FaultConfig) :
    (n.injectFault fault config).mPendingSlots = n.mPendingSlots ∧
      (n.injectFault fault config).mQueueDepth = n.mQueueDepth := by
  rw [injectFault]
  dsimp only
  split_ifs
  · exact ⟨rfl, rfl⟩
  · exact ⟨updateStateUnlocked_mPendingSlots _, updateStateUnlocked_mQueueDepth _⟩
  · exact ⟨rfl, rfl⟩

theorem injectFault_mConfig (n : SimulatedNode) (fault : FaultType) (config : FaultConfig) :
    (n.injectFault fault config).mConfig = n.mConfig := by
  rw [injectFault]
  dsimp only
  split_ifs
  · rfl
  · rw [updateStateUnlocked_eq]
  · rfl

/-- A new priority changes neither. -/
theorem reprioritise_keeps (n : SimulatedNode) (handle : JobHandle) (newPriority : Priority) :
    (n.reprioritise handle newPriority).2.mPendingSlots = n.mPendingSlots ∧
      (n.reprioritise handle newPriority).2.mQueueDepth = n.mQueueDepth := by
  rw [reprioritise]
  split <;> exact ⟨rfl, rfl⟩

/-- An accepted job takes its slot and is counted, and the state is updated. -/
theorem submit_eq {n n' : SimulatedNode} {job : Job} {smHandle : SlotMapHandle}
    (h : n.submit job smHandle = .ok n') :
    n' = ({ n with
      mPendingSlots := n.mPendingSlots.insert smHandle .queued
      mQueueDepthByPriority := Function.update n.mQueueDepthByPriority job.priority
        (fetchAdd32 (n.mQueueDepthByPriority job.priority))
      mQueueDepth := fetchAdd32 n.mQueueDepth } : SimulatedNode).updateStateUnlocked.2 := by
  rw [submit] at h
  dsimp only at h
  split_ifs at h
  exact (Except.ok.inj h).symm

theorem submit_accepted {n n' : SimulatedNode} {job : Job} {smHandle : SlotMapHandle}
    (h : n.submit job smHandle = .ok n') :
    n'.mPendingSlots = n.mPendingSlots.insert smHandle .queued ∧
      n'.mQueueDepth = fetchAdd32 n.mQueueDepth := by
  rw [submit_eq h]
  simp

/-- Cancelling succeeds on a queued slot only, which it erases, and counts nothing. -/
theorem cancel_cases (n : SimulatedNode) (handle : JobHandle) :
    ((n.cancel handle).1 = .ok () ∧ n.mPendingSlots.lookup (.ofJobHandle handle) = some .queued ∧
        (n.cancel handle).2.mPendingSlots = n.mPendingSlots.erase (.ofJobHandle handle) ∧
        (n.cancel handle).2.mQueueDepth = n.mQueueDepth) ∨
      ((∃ e, (n.cancel handle).1 = .error e) ∧
        n.mPendingSlots.lookup (.ofJobHandle handle) ≠ some .queued ∧ (n.cancel handle).2 = n) := by
  rw [cancel]
  cases h : n.mPendingSlots.lookup (.ofJobHandle handle) with
  | none => exact .inr ⟨⟨_, rfl⟩, by simp, rfl⟩
  | some st =>
      cases st with
      | queued => exact .inl ⟨rfl, rfl, rfl, rfl⟩
      | running => exact .inr ⟨⟨_, rfl⟩, by simp, rfl⟩

/-- A task whose slot is gone is discarded, and counted off. -/
theorem beginJob_absent {n : SimulatedNode} (job : Job) {smHandle : SlotMapHandle}
    (h : n.mPendingSlots.lookup smHandle = none) :
    (n.beginJob job smHandle).1 = none ∧
      (n.beginJob job smHandle).2.mPendingSlots = n.mPendingSlots ∧
      (n.beginJob job smHandle).2.mQueueDepth = decrement n.mQueueDepth := by
  rw [beginJob]
  simp only [h]
  exact ⟨trivial, updateStateUnlocked_mPendingSlots _, updateStateUnlocked_mQueueDepth _⟩

/-- A task whose slot is there runs, and stays counted. -/
theorem beginJob_present {n : SimulatedNode} (job : Job) {smHandle : SlotMapHandle}
    {st : PendingJobState} (h : n.mPendingSlots.lookup smHandle = some st) :
    (∃ job', (n.beginJob job smHandle).1 = some job') ∧
      (n.beginJob job smHandle).2.mPendingSlots = n.mPendingSlots.insert smHandle .running ∧
      (n.beginJob job smHandle).2.mQueueDepth = n.mQueueDepth := by
  rw [beginJob]
  simp only [h]
  cases n.mPriorityOverrides.lookup smHandle.toJobHandle with
  | none => exact ⟨⟨_, rfl⟩, rfl, rfl⟩
  | some ov => exact ⟨⟨_, rfl⟩, rfl, rfl⟩

/-- A finished job gives its slot back, and is counted off. -/
theorem completeJob_counts (n : SimulatedNode) (job : Job) (smHandle : SlotMapHandle)
    (succeeded : Bool) (elapsedUs : Nat) :
    (n.completeJob job smHandle succeeded elapsedUs).mPendingSlots =
        n.mPendingSlots.erase smHandle ∧
      (n.completeJob job smHandle succeeded elapsedUs).mQueueDepth = decrement n.mQueueDepth := by
  rw [completeJob]
  rw [updateStateUnlocked_mPendingSlots, updateStateUnlocked_mQueueDepth]
  cases succeeded <;> exact ⟨rfl, rfl⟩

/-! ## What a region does to the state -/

/-- The state that a depth is resolved to, by the state before. -/
def resolvedState (config : SimulatedNodeConfig) (state : NodeState) (depth : Nat) : NodeState :=
  if config.overloadThreshold ≤ depth then .overloaded
  else if 0 < depth then
    if state = .overloaded ∧ config.recoverThreshold < depth then .overloaded else .busy
  else .idle

/-- A node that has failed keeps its state, every other one resolves it. -/
theorem updateStateUnlocked_mState (n : SimulatedNode) :
    n.updateStateUnlocked.2.mState =
      if n.mFault = .crash ∨ n.mState = .failed then n.mState
      else resolvedState n.mConfig n.mState n.mQueueDepth := by
  rw [updateStateUnlocked]
  split
  · rfl
  · dsimp only
    rw [← resolvedState]
    split
    · rfl
    · next hsame => exact (not_not.mp hsame).symm

/-- A region leaves the state and the depth as they are, or resolves the state by the new depth; the
configuration, the flag, the pool and the fault stay. -/
structure Follows (n n' : SimulatedNode) : Prop where
  config : n'.mConfig = n.mConfig
  shutdown : n'.mShutdown = n.mShutdown
  pool : n'.mThreadPool = n.mThreadPool
  fault : n'.mFault = n.mFault
  state : n'.mState = n.mState ∧ n'.mQueueDepth = n.mQueueDepth ∨
    n'.mState = if n.mFault = .crash ∨ n.mState = .failed then n.mState
      else resolvedState n.mConfig n.mState n'.mQueueDepth

theorem Follows.refl (n : SimulatedNode) : n.Follows n := ⟨rfl, rfl, rfl, rfl, .inl ⟨rfl, rfl⟩⟩

/-- A region that ends in `updateStateUnlocked`. -/
theorem Follows.of_update {n m : SimulatedNode} (hconfig : m.mConfig = n.mConfig)
    (hshutdown : m.mShutdown = n.mShutdown) (hpool : m.mThreadPool = n.mThreadPool)
    (hfault : m.mFault = n.mFault) (hstate : m.mState = n.mState) :
    n.Follows m.updateStateUnlocked.2 := by
  have hnew := m.updateStateUnlocked_mState
  rw [hfault, hstate, hconfig, ← m.updateStateUnlocked_mQueueDepth] at hnew
  rw [updateStateUnlocked_eq] at hnew ⊢
  exact ⟨hconfig, hshutdown, hpool, hfault, .inr hnew⟩

theorem follows_submit {n n' : SimulatedNode} {job : Job} {smHandle : SlotMapHandle}
    (h : n.submit job smHandle = .ok n') : n.Follows n' := by
  rw [submit_eq h]
  exact .of_update rfl rfl rfl rfl rfl

theorem follows_cancel (n : SimulatedNode) (handle : JobHandle) :
    n.Follows (n.cancel handle).2 := by
  rw [cancel]
  split <;> exact ⟨rfl, rfl, rfl, rfl, .inl ⟨rfl, rfl⟩⟩

theorem follows_reprioritise (n : SimulatedNode) (handle : JobHandle) (newPriority : Priority) :
    n.Follows (n.reprioritise handle newPriority).2 := by
  rw [reprioritise]
  split <;> exact ⟨rfl, rfl, rfl, rfl, .inl ⟨rfl, rfl⟩⟩

theorem follows_beginJob (n : SimulatedNode) (job : Job) (smHandle : SlotMapHandle) :
    n.Follows (n.beginJob job smHandle).2 := by
  rw [beginJob]
  dsimp only
  split
  · exact .of_update rfl rfl rfl rfl rfl
  · split <;> exact ⟨rfl, rfl, rfl, rfl, .inl ⟨rfl, rfl⟩⟩

theorem follows_completeJob (n : SimulatedNode) (job : Job) (smHandle : SlotMapHandle)
    (succeeded : Bool) (elapsedUs : Nat) :
    n.Follows (n.completeJob job smHandle succeeded elapsedUs) := by
  rw [completeJob]
  cases succeeded <;> exact .of_update rfl rfl rfl rfl rfl

/-- Every other fault fails the node or leaves its state as it is. -/
theorem injectFault_keepsState {n : SimulatedNode} {fault : FaultType} (hcrash : fault ≠ .crash)
    (hother : fault = .none → n.mState ≠ .failed) (config : FaultConfig) :
    n.injectFault fault config = { n with mFault := fault, mFaultConfig := config } := by
  rw [injectFault, if_neg hcrash, if_neg fun h => hother h.1 h.2]

end SimulatedNode

end FatpBalancer
