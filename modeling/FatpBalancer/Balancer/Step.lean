/-
# The balancer: its atomic steps

One function for each kind of thread.  What the thread does not decide itself (a clock reading, a
metrics snapshot, the answer of the policy, the answer or the report of a node) is an input of the
step, so that any interleaving of any number of threads with any environment is a run of
`balancer cfg`.

The nodes are held to the `INode` contract and to nothing more: a handle is unique among the node's
own live jobs, an accepted job either has its callback invoked once or is reported as cancelled,
and `NotFound` means that the node has no live job with that handle.

A step is what one thread does between two points at which another one can see it: an atomic
operation, a region under a lock, or a call of a node.  The two procedures that several kinds of
thread run, `finalizeJobLifecycle` and `registerDispatchedJob`, have step functions of their own,
and the threads' program counters carry where they are in them.
-/
import FatpBalancer.Balancer.State
import FatpBalancer.Lib.Machine
import FatpBalancer.Lib.Table

universe u

namespace FatpBalancer

variable {F : Type u} [FloatOps F]

/-- What the environment decides in one step; each step reads what it needs. -/
structure Input where
  /-- the clock -/
  now : TimePoint := 0
  /-- the metrics of all nodes -/
  metrics : List LoadMetrics := []
  /-- the answer of `mPolicy->selectNode`, none for a `SelectError` -/
  selected : Option NodeId := none
  /-- the answer of `INode::submit`, none for a `SubmitError` -/
  accepted : Option JobHandle := none
  /-- the job a node passes to the completion callback -/
  completed : Job := {}
  succeeded : Bool := true
  /-- the answer of `INode::cancel`; a success names the dispatch it hits -/
  cancelReply : Except CancelError Nat := .error .notFound
  /-- `compare_exchange_weak` fails spuriously -/
  spurious : Bool := false

/-- Who takes the step: a thread that is under way, or somebody who begins a call. -/
inductive Actor
  /-- a new `submit` call: `mSubmittedCount.fetch_add` -/
  | submitCall (job : Job)
  | submit (i : CallId)
  /-- the node that holds this dispatch -/
  | node (k : Nat)
  | cancelCall (handle : JobHandle)
  | cancel (c : Nat)
  | switchCall
  | switch (k : Nat)
  | drain
  | aging
  | toggleCall (enabled : Bool)
  | toggle (k : Nat)
  | setShedBulk (enabled : Bool)
  | setAdmissionStrict (enabled : Bool)
  | setDegradationEnabled (enabled : Bool)

/-- An actor and what the environment decides for its step. -/
structure Event where
  actor : Actor
  input : Input := {}

/-! ## Helpers

Lookups and updates of the tables. -/

/-- `findNode`: the node with this identity, if the balancer has one. -/
def findNode (cfg : BalancerConfig F) (id : NodeId) : Option NodeId :=
  cfg.nodes.find? (· == id)

/-- The handle is free among the live jobs of this node. -/
def handleFree (s : State F) (nodeId : NodeId) (handle : JobHandle) : Bool :=
  s.dispatches.all fun d => !(d.nodeId == nodeId && d.handle == handle && d.side == .live)

/-- How often the job of call `i` has been finalised. -/
def finalizedCount (s : State F) (i : CallId) : Nat := s.finalized.countP fun e => e.1 == i

/-- The un-finalised job whose `submit` returned this handle. -/
def targetOf (s : State F) (handle : JobHandle) : Option CallId :=
  (List.range s.calls.length).find? fun i =>
    finalizedCount s i == 0 &&
      (s.calls[i]?).any fun c =>
        match c.pc with
        | .returned (.ok h) => h == handle
        | _ => false

/-- `capturedJob` once the callback has merged in what the node reports. -/
def mergeCompleted (capturedJob completed : Job) : Job :=
  { capturedJob with
    observedCost := completed.observedCost
    executedBy := completed.executedBy }

/-- Calling a held job's `onDone` with its own job and `succeeded = false`. -/
def onDoneFailed (entry : HeldEntry) : Finalize where
  finishedJob := mergeCompleted entry.onDone.capturedJob entry.job
  routedHandle := none
  succeeded := false
  call := entry.onDone.call
  dispatch := none

/-- Change one dispatch, when there is one. -/
def modifyDispatch (s : State F) (k : Option Nat) (g : Dispatch → Dispatch) : State F :=
  match k with
  | none => s
  | some k => { s with dispatches := s.dispatches.modify k g }

/-- A node accepts a job: a new dispatch, and the registration its submitter goes on with. -/
def acceptDispatch (s : State F) (nodeId : NodeId) (handle : JobHandle) (job : Job)
    (call : CallId) : State F :=
  { s with dispatches := s.dispatches ++ [{ nodeId, handle, capturedJob := job, call }] }

/-- The registration that follows an acceptance. -/
def newRegister (s : State F) (nodeId : NodeId) (handle : JobHandle) (job : Job) : Register where
  job := job
  nodeId := nodeId
  handle := handle
  dispatch := s.dispatches.length

/-! ## Shared sub-machines

Stage by stage, in the order of the source. -/

/-- `eraseRoutingState`. -/
def eraseRoutingState (m : Members F) (handle : JobHandle) : Members F :=
  match m.mHandleToJobInfo.lookup handle with
  | none => m
  | some info =>
      { m with
        mJobIdToHandleMap := m.mJobIdToHandleMap.erase info.jobId
        mHandleToJobInfo := m.mHandleToJobInfo.erase handle }

/-- The two map insertions of `registerDispatchedJob`. -/
def insertRoutingState (cfg : BalancerConfig F) (m : Members F) (r : Register) : Members F :=
  { m with
    mHandleToJobInfo := HashMap.put cfg.insertOverwrites r.handle
      { jobId := r.job.id, nodeId := r.nodeId } m.mHandleToJobInfo
    mJobIdToHandleMap := HashMap.put cfg.insertOverwrites r.job.id r.handle m.mJobIdToHandleMap }

/-- One step of `finalizeJobLifecycle`; none when it has returned. -/
def finalizeStep (s : State F) (f : Finalize) : State F × Option Finalize :=
  match f.stage with
  | .learn =>
      if f.succeeded then
        ({ s with
            m.mCostModel := s.m.mCostModel.update f.finishedJob
            updates := (f.dispatch, f.finishedJob) :: s.updates },
          some { f with stage := .count })
      -- neither the model nor `mTotalCompleted` hears of a failure
      else (s, some { f with stage := .untrack })
  | .count =>
      ({ s with m.mTotalCompleted := s.m.mTotalCompleted + 1 }, some { f with stage := .untrack })
  | .untrack =>
      (modifyDispatch
          { s with m.mAgingEngine := s.m.mAgingEngine.untrack f.finishedJob.id }
          f.dispatch fun d => { d with untracked := true },
        some { f with stage := .unroute })
  | .unroute =>
      match f.routedHandle with
      -- a held job that was dropped or cancelled has no routing entry
      | none => (s, some { f with stage := .release })
      | some handle =>
          (modifyDispatch { s with m := eraseRoutingState s.m handle }
              f.dispatch fun d => { d with routed := false },
            some { f with stage := .release })
  | .release =>
      ({ s with
          m.mSubmittedCount := fetchSub32 s.m.mSubmittedCount
          finalized := (f.call, s.m.mPolicy) :: s.finalized },
        none)

/-- The registration state is published; an early-completed job in it is taken out. -/
def Dispatch.publish (d : Dispatch) (handle : JobHandle) : Dispatch :=
  { d with
    regState := { d.regState with
      handle := some handle
      published := true
      earlyCompletedJob := none } }

/-- One step of `registerDispatchedJob`; none when it has returned. -/
def registerStep (cfg : BalancerConfig F) (inp : Input) (s : State F) (r : Register) :
    State F × Option Register :=
  match r.stage with
  | .insert =>
      (modifyDispatch { s with m := insertRoutingState cfg s.m r } (some r.dispatch)
          fun d => { d with routed := true },
        some { r with stage := .checkAging })
  | .checkAging =>
      if s.m.mAgingEnabled then (s, some { r with stage := .track })
      else
        (modifyDispatch s (some r.dispatch) fun d => { d with settled := true },
          some { r with stage := .publish })
  | .track =>
      (modifyDispatch { s with m.mAgingEngine := s.m.mAgingEngine.track r.job inp.now }
          (some r.dispatch) fun d => { d with settled := true },
        some { r with stage := .publish })
  -- under `regState->mutex`: from here on the callback finalises the job itself
  | .publish =>
      match s.dispatches[r.dispatch]? with
      | none => (s, none)
      | some d =>
          ({ s with dispatches := s.dispatches.set r.dispatch (d.publish r.handle) },
            d.regState.earlyCompletedJob.map fun job =>
              { r with
                stage := .finalize
                  { finishedJob := job
                    routedHandle := some r.handle
                    succeeded := d.regState.earlySucceeded
                    call := d.call
                    dispatch := some r.dispatch } })
  | .finalize f =>
      let (s, f) := finalizeStep s f
      (s, f.map fun f => { r with stage := .finalize f })

/-! ## Threads

One step function for each kind of thread; `none` means that the thread has nothing to do there, or
has to wait. -/

/-- The `submit` call at position `i` goes on at `pc`. -/
def State.submitAt (s : State F) (i : CallId) (c : Call) (pc : SubmitPc) : State F :=
  { s with calls := s.calls.set i { c with pc := pc } }

/-- The step of a `submit` call at position `i`. -/
def submitStep (cfg : BalancerConfig F) (inp : Input) (s : State F) (i : CallId) (c : Call) :
    Option (State F) :=
  let goto (s : State F) (pc : SubmitPc) : State F := s.submitAt i c pc
  -- the verdict of a rate layer: back out or go on
  let verdict (r : Option SubmitError × AdmissionControl) (next : SubmitPc) : State F :=
    goto { s with m.mAdmission := r.2 } (r.1.elim next .backOut)
  -- `mSubmittedCount.fetch_sub(1); return unexpected(error);`
  let leave (error : SubmitError) : State F :=
    goto { s with m.mSubmittedCount := fetchSub32 s.m.mSubmittedCount } (.returned (.error error))
  -- `job.submitted = Clock::now(); job.id = nextJobId();`
  let withId (next : Job → SubmitPc) : State F :=
    { s with
      m.mNextJobId := fetchAdd32 s.m.mNextJobId
      issued := s.issued + 1
      calls := s.calls.set i
        { c with
          pc := next { c.job with submitted := inp.now, id := s.m.mNextJobId }
          ordinal := some s.issued } }
  match c.pc with
  | .entered => some (goto s (if s.m.mDraining then .turnedAway else .gate))
  -- seen after the increment: the call backs out without touching the gate
  | .turnedAway => some (leave .clusterSaturated)
  | .gate =>
      some (goto s (if c.job.deadlinePassed inp.now then .backOut .deadlineUnachievable
        else .globalRate (areAllEligibleOverloaded inp.metrics c.job.priority)))
  | .globalRate saturated =>
      some (verdict (s.m.mAdmission.checkGlobalRate inp.now) (.modes saturated))
  | .modes saturated =>
      some (verdict (s.m.mAdmission.checkModes c.job.priority) (.priorityRate saturated))
  | .priorityRate saturated =>
      some (verdict (s.m.mAdmission.checkPriorityRate inp.now c.job.priority) (.capacity saturated))
  | .capacity saturated =>
      match AdmissionControl.capacityVerdict c.job.priority saturated with
      | .pass => some (goto s .select)
      | .reserve => some (goto s (.reserving none))
      | .reject =>
          some (verdict (some .clusterSaturated, s.m.mAdmission.countRejection .clusterSaturated)
            .select)
  -- `tryReserveHoldingSlot`: a load, then a compare-and-swap loop
  | .reserving none => some (goto s (.reserving (some s.m.mAdmission.mHoldingQueueDepth)))
  | .reserving (some current) =>
      if s.m.mAdmission.mHoldingQueueCapacity ≤ current then
        some (verdict (some .holdingQueueFull, s.m.mAdmission.countRejection .holdingQueueFull)
          .select)
      else if inp.spurious ∨ s.m.mAdmission.mHoldingQueueDepth ≠ current then
        some (goto s (.reserving (some s.m.mAdmission.mHoldingQueueDepth)))
      else some (goto { s with m.mAdmission.mHoldingQueueDepth := current + 1 } .holdId)
  | .holdId => some (withId .enqueue)
  -- the job is visible to the drain thread from here, before `mTotalSubmitted` counts it
  | .enqueue job =>
      match s.m.mHoldingQueue.enqueue job { capturedJob := job, call := i } with
      | .ok (handle, queue) => some (goto { s with m.mHoldingQueue := queue } (.countHeld handle))
      | .error _ => some (goto s .releaseSlot)
  | .releaseSlot =>
      some (goto { s with m.mAdmission := s.m.mAdmission.releaseFromHoldingQueue }
        (.backOut .holdingQueueFull))
  | .countHeld handle =>
      some (goto { s with m.mTotalSubmitted := s.m.mTotalSubmitted + 1 } (.returned (.ok handle)))
  | .select =>
      -- the policy that is installed when the call reads `mPolicy`
      let s := { s with selections := (i, s.m.mPolicy) :: s.selections }
      match inp.selected with
      | none => some (goto s (.backOut .clusterSaturated))
      | some id =>
          match findNode cfg id with
          | none => some (goto s (.backOut .nodeNotFound))
          | some nodeId => some (goto s (.assignId nodeId))
  | .assignId nodeId => some (withId (.nodeSubmit nodeId))
  | .nodeSubmit nodeId job =>
      match inp.accepted with
      | none => some (goto s (.backOut .clusterSaturated))
      | some handle =>
          -- an `INode` never hands out the handle of another of its live jobs
          if handleFree s nodeId handle then
            some (goto (acceptDispatch s nodeId handle job i)
              (.countDispatched (newRegister s nodeId handle job)))
          else none
  | .countDispatched r =>
      some (goto { s with m.mTotalSubmitted := s.m.mTotalSubmitted + 1 } (.register r))
  | .register r =>
      let next := registerStep cfg inp s r
      some (goto next.1 (next.2.elim (.returned (.ok r.handle)) .register))
  | .backOut error => some (leave error)
  | .returned _ => none

/-- The step of the node that holds dispatch `k`: finish the job, enter the callback, go on. -/
def nodeStep (inp : Input) (s : State F) (k : Nat) (d : Dispatch) : Option (State F) :=
  match d.side with
  | .live =>
      some { s with
        dispatches := s.dispatches.set k
          { d with
            side := .finished inp.completed inp.succeeded
            report := some (inp.completed, inp.succeeded) } }
  | .finished completed succeeded =>
      let capturedJob := mergeCompleted d.capturedJob completed
      some { s with
        dispatches := s.dispatches.set k
          -- too early: the job waits in the registration state for its submitter
          (if d.regState.published then
            { d with
              side := .calling
                { finishedJob := capturedJob
                  routedHandle := d.regState.handle
                  succeeded
                  call := d.call
                  dispatch := some k } }
          else
            { d with
              side := .called
              regState := { d.regState with
                earlyCompletedJob := some capturedJob
                earlySucceeded := succeeded } }) }
  | .calling f =>
      let next := finalizeStep s f
      some (modifyDispatch next.1 (some k) fun d =>
        { d with side := next.2.elim .called .calling })
  | .called | .cancelled => none

/-- The step of a `cancel` call, of a user or of the aging thread. -/
def cancelStep (cfg : BalancerConfig F) (inp : Input) (s : State F) (c : CancelCall) :
    Option (State F × CancelCall) :=
  let notFound : CancelCall := { c with pc := .returned (.error .notFound) }
  match c.pc with
  | .start =>
      -- `kHoldingHandleBit` tells a held job from a dispatched one
      if isHoldingHandle c.handle then
        match s.m.mHoldingQueue.remove c.handle with
        | none => some (s, notFound)
        | some (entry, queue) =>
            some ({ s with
                m.mHoldingQueue := queue
                removed := entry.onDone.call :: s.removed },
              { c with pc := .releaseSlot entry, hit := some entry.onDone.call })
      else
        match s.m.mHandleToJobInfo.lookup c.handle with
        | none => some (s, notFound)
        | some info =>
            match findNode cfg info.nodeId with
            | none => some (s, notFound)
            | some _ => some (s, { c with pc := .askNode info })
  | .releaseSlot entry =>
      some ({ s with m.mAdmission := s.m.mAdmission.releaseFromHoldingQueue },
        { c with pc := .finalize (onDoneFailed entry) })
  | .askNode info =>
      match inp.cancelReply with
      | .error error =>
          -- an `INode` that holds the job does not answer `NotFound`
          if error = .notFound ∧ !handleFree s info.nodeId c.handle then none
          else some (s, { c with pc := .returned (.error error) })
      | .ok k =>
          match s.dispatches[k]? with
          | none => none
          -- a successful cancel is of a live job of this node under this handle
          | some d =>
              if d.nodeId = info.nodeId ∧ d.handle = c.handle ∧ d.side = .live then
                some (modifyDispatch s (some k) fun d => { d with side := .cancelled },
                  { c with
                    hit := some d.call
                    pc := .finalize
                      { finishedJob := { id := info.jobId }
                        routedHandle := some c.handle
                        succeeded := false
                        call := d.call
                        dispatch := some k } })
              else none
  | .finalize f =>
      let next := finalizeStep s f
      some (next.1, { c with pc := next.2.elim (.returned (.ok ())) .finalize })
  | .returned _ => none

/-- A dispatch attempt has failed: `entry.job.holdRetries++`. -/
def retryEntry (entry : HeldEntry) : HeldEntry :=
  { entry with job.holdRetries := fetchAdd32 entry.job.holdRetries }

/-- The step of the holding drain thread. -/
def drainStep (cfg : BalancerConfig F) (inp : Input) (s : State F) : Option (State F) :=
  match s.drain with
  | .waiting => some { s with drain := .looping }
  | .looping =>
      match s.m.mHoldingQueue.tryDequeue with
      | none => some { s with drain := .waiting }
      | some (entry, queue) => some { s with m.mHoldingQueue := queue, drain := .entry entry }
  | .entry entry =>
      -- checked before saturation, so dead entries go even while the cluster is full
      if entry.job.deadlinePassed inp.now ∨
          (0 < cfg.holdingQueue.maxRetries ∧
            cfg.holdingQueue.maxRetries ≤ entry.job.holdRetries) then
        some { s with drain := .dropRelease entry, dropped := entry.onDone.call :: s.dropped }
      else if areAllEligibleOverloaded inp.metrics entry.job.priority then
        -- no attempt was made: `holdRetries` stays
        some { s with drain := .requeue entry }
      else some { s with drain := .select entry }
  | .dropRelease entry =>
      some { s with
        m.mAdmission := s.m.mAdmission.releaseFromHoldingQueue
        drain := .dropping (onDoneFailed entry) }
  | .dropping f =>
      let next := finalizeStep s f
      some { next.1 with drain := next.2.elim .looping .dropping }
  | .select entry =>
      let s := { s with selections := (entry.onDone.call, s.m.mPolicy) :: s.selections }
      match inp.selected with
      | none => some { s with drain := .requeue (retryEntry entry) }
      | some id =>
          match findNode cfg id with
          | none => some { s with drain := .requeue (retryEntry entry) }
          | some nodeId =>
              some { s with drain := .nodeSubmit nodeId { entry with job.submitted := inp.now } }
  | .nodeSubmit nodeId entry =>
      match inp.accepted with
      | none => some { s with drain := .requeue (retryEntry entry) }
      | some handle =>
          if handleFree s nodeId handle then
            some { acceptDispatch s nodeId handle entry.job entry.onDone.call with
              drain := .releaseSlot (newRegister s nodeId handle entry.job) }
          else none
  | .requeue entry =>
      -- the result is discarded: an entry that does not fit is lost
      match s.m.mHoldingQueue.requeue entry with
      -- either way the inner loop breaks: the entries behind this one wait for the next wake-up
      | .ok (_, queue) => some { s with m.mHoldingQueue := queue, drain := .waiting }
      | .error _ => some { s with drain := .waiting }
  | .releaseSlot r =>
      some { s with
        m.mAdmission := s.m.mAdmission.releaseFromHoldingQueue
        drain := .register r }
  | .register r =>
      let next := registerStep cfg inp s r
      some { next.1 with drain := next.2.elim .looping .register }

/-- The step of the aging thread. -/
def agingStep (cfg : BalancerConfig F) (inp : Input) (s : State F) : Option (State F) :=
  match s.aging with
  | .absent | .exited => none
  | .sleeping => some { s with aging := if s.m.mAgingThreadStop then .exited else .ticking }
  -- the tick runs under `mAgingMutex`, and its events are acted on after it
  | .ticking =>
      let tick := s.m.mAgingEngine.tick inp.now
      some { s with m.mAgingEngine := tick.2, aging := .events tick.1.aged tick.1.expired }
  -- `reprioritise` acts on the node alone
  | .events (_ :: aged) expired => some { s with aging := .events aged expired }
  | .events [] (e :: expired) =>
      match s.m.mJobIdToHandleMap.lookup e.id with
      | none => some { s with aging := .events [] expired }
      | some handle =>
          some { s with aging := .cancelling { handle, target := targetOf s handle } expired }
  | .events [] [] => some { s with aging := .sleeping }
  | .cancelling c expired =>
      match c.pc with
      | .returned _ => some { s with aging := .events [] expired }
      | _ => (cancelStep cfg inp s c).map fun r => { r.1 with aging := .cancelling r.2 expired }

/-- The step of the `switchPolicy` call at position `k`. -/
def switchStep (s : State F) (k : Nat) (pc : SwitchPc) : Option (State F) :=
  let goto (s : State F) (pc : SwitchPc) : State F := { s with switches := s.switches.set k pc }
  match pc with
  | .lock =>
      if s.m.mSwitchMutex then none else some (goto { s with m.mSwitchMutex := true } .setDraining)
  | .setDraining => some (goto { s with m.mDraining := true } .spin)
  -- waits for every `submit` in progress and every accepted job to be finalised
  | .spin => some (goto s (if s.m.mSubmittedCount = 0 then .swap else .spin))
  | .swap => some (goto { s with m.mPolicy := k + 1 } .resume)
  | .resume => some (goto { s with m.mDraining := false } .unlock)
  | .unlock => some (goto { s with m.mSwitchMutex := false } .done)
  | .done => none

/-- The step of the `setAgingEnabled` call at position `k`: `startAgingThread` or
`stopAgingThread`.  Assigning to a joinable thread ends the program and is no step. -/
def toggleStep (s : State F) (k : Nat) (pc : TogglePc) : Option (State F) :=
  let goto (s : State F) (pc : TogglePc) : State F := { s with toggles := s.toggles.set k pc }
  match pc with
  | .exchange enabled =>
      if enabled = s.m.mAgingEnabled then some (goto s .done)
      else
        some (goto { s with m.mAgingEnabled := enabled }
          (if enabled then .clearStop else .raiseStop))
  | .clearStop => some (goto { s with m.mAgingThreadStop := false } .spawn)
  | .spawn =>
      match s.aging with
      | .absent => some (goto { s with aging := .sleeping } .done)
      | _ => none
  | .raiseStop => some (goto { s with m.mAgingThreadStop := true } .join)
  | .join =>
      match s.aging with
      | .absent => some (goto s .done)
      | .exited => some (goto { s with aging := .absent } .done)
      | _ => none
  | .done => none

/-! ## The machine

The step of an event is that of its actor, applied to the actor's row. -/

/-- Dispatch on the actor; a row that is not there has no step. -/
def step (cfg : BalancerConfig F) (s : State F) (ev : Event) : Option (State F) :=
  match ev.actor with
  | .submitCall job =>
      some { s with
        m.mSubmittedCount := fetchAdd32 s.m.mSubmittedCount
        calls := s.calls ++ [{ job }] }
  | .submit i => (s.calls[i]?).bind fun c => submitStep cfg ev.input s i c
  | .node k => (s.dispatches[k]?).bind fun d => nodeStep ev.input s k d
  | .cancelCall handle =>
      some { s with cancels := s.cancels ++ [{ handle, target := targetOf s handle }] }
  | .cancel c =>
      (s.cancels[c]?).bind fun call => (cancelStep cfg ev.input s call).map fun r =>
        { r.1 with cancels := r.1.cancels.set c r.2 }
  | .switchCall => some { s with switches := s.switches ++ [.lock] }
  | .switch k => (s.switches[k]?).bind fun pc => switchStep s k pc
  | .drain => drainStep cfg ev.input s
  | .aging => agingStep cfg ev.input s
  | .toggleCall enabled => some { s with toggles := s.toggles ++ [.exchange enabled] }
  | .toggle k => (s.toggles[k]?).bind fun pc => toggleStep s k pc
  | .setShedBulk enabled => some { s with m.mAdmission.mShedBulk := enabled }
  | .setAdmissionStrict enabled => some { s with m.mAdmission.mAdmissionStrict := enabled }
  | .setDegradationEnabled enabled =>
      some { s with m.mCostModel := s.m.mCostModel.setDegradationEnabled enabled }

/-- The balancer as a machine. -/
def balancer (cfg : BalancerConfig F) : Machine (State F) Event where
  init := .create cfg
  step := step cfg

/-- A script: a new `submit` call and the first `n` steps of it, all under one input. -/
def submitScript (i : CallId) (job : Job) (n : Nat) (inp : Input) : List Event :=
  { actor := .submitCall job } :: List.replicate n { actor := .submit i, input := inp }

end FatpBalancer
