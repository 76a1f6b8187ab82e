/-
# What a step of the balancer can do

One constructor for each outcome of an atomic step, with the guards under which it happens and the
state it leads to.  `step_move` reads the step functions once; every invariant is then a case
analysis over `Move`.

The module follows the layers of the code.

* `FinalizeMove` and `RegisterMove` are the two sub-machines that several kinds of thread run;
  `SameOutside` is what they leave alone.
* `SubmitMove`, `NodeMove`, `CancelMove`, `DrainMove`, `AgingMove` and `SwitchMove` are the threads'
  own steps, each with a lemma that says which tables it does not touch.
* `Move` puts them together: a step of the whole balancer is one of these, applied to the row of the
  thread that takes it.

A constructor carries the guard of the branch it models and nothing more, so that no fact about the
branch is lost and none is assumed.  `State.allCancels` collects the `cancel` calls of users and the
one the aging thread is in, since both run the same code.
-/
import FatpBalancer.Balancer.Step

universe u

namespace FatpBalancer

variable {F : Type u} [FloatOps F]

/-! ## The shared sub-machines

`finalizeJobLifecycle` is entered from a node's callback, from a successful `cancel`, from the drop
of a held job and from a registration that finds its job already completed; `registerDispatchedJob`
from `submit` and from the drain loop.  Their steps are read here once, whoever takes them. -/

/-- The outcomes of one step of `finalizeJobLifecycle`. -/
inductive FinalizeMove (s : State F) (f : Finalize) : State F → Option Finalize → Prop
  | learn (hstage : f.stage = .learn) (hok : f.succeeded = true) :
      FinalizeMove s f
        { s with
          m.mCostModel := s.m.mCostModel.update f.finishedJob
          updates := (f.dispatch, f.finishedJob) :: s.updates }
        (some { f with stage := .count })
  | skip (hstage : f.stage = .learn) (hfail : f.succeeded = false) :
      FinalizeMove s f s (some { f with stage := .untrack })
  | count (hstage : f.stage = .count) :
      FinalizeMove s f { s with m.mTotalCompleted := s.m.mTotalCompleted + 1 }
        (some { f with stage := .untrack })
  | untrack (hstage : f.stage = .untrack) :
      FinalizeMove s f
        (modifyDispatch
          { s with m.mAgingEngine := s.m.mAgingEngine.untrack f.finishedJob.id }
          f.dispatch fun d => { d with untracked := true })
        (some { f with stage := .unroute })
  | held (hstage : f.stage = .unroute) (hnone : f.routedHandle = none) :
      FinalizeMove s f s (some { f with stage := .release })
  | unroute (handle : JobHandle) (hstage : f.stage = .unroute)
      (hsome : f.routedHandle = some handle) :
      FinalizeMove s f
        (modifyDispatch { s with m := eraseRoutingState s.m handle }
          f.dispatch fun d => { d with routed := false })
        (some { f with stage := .release })
  | release (hstage : f.stage = .release) :
      FinalizeMove s f
        { s with
          m.mSubmittedCount := fetchSub32 s.m.mSubmittedCount
          finalized := (f.call, s.m.mPolicy) :: s.finalized }
        none

/-- The step function of a finalisation takes one of the moves. -/
theorem finalizeStep_move (s : State F) (f : Finalize) :
    FinalizeMove s f (finalizeStep s f).1 (finalizeStep s f).2 := by
  unfold finalizeStep
  split
  case h_1 hstage =>
    split
    · next hok => exact .learn hstage hok
    · next hfail => exact .skip hstage (by simpa using hfail)
  case h_2 hstage => exact .count hstage
  case h_3 hstage => exact .untrack hstage
  case h_4 hstage =>
    split
    · next hnone => exact .held hstage hnone
    · next handle hsome => exact .unroute handle hstage hsome
  case h_5 hstage => exact .release hstage

/-- Only the stage of a running finalisation changes. -/
theorem FinalizeMove.next {s s' : State F} {f g : Finalize} (h : FinalizeMove s f s' (some g)) :
    g = { f with stage := g.stage } := by
  cases h <;> rfl

/-- The outcomes of one step of `registerDispatchedJob`. -/
inductive RegisterMove (cfg : BalancerConfig F) (inp : Input) (s : State F) (r : Register) :
    State F → Option Register → Prop
  | insert (hstage : r.stage = .insert) :
      RegisterMove cfg inp s r
        (modifyDispatch { s with m := insertRoutingState cfg s.m r } (some r.dispatch)
          fun d => { d with routed := true })
        (some { r with stage := .checkAging })
  | agingOn (hstage : r.stage = .checkAging) (hon : s.m.mAgingEnabled = true) :
      RegisterMove cfg inp s r s (some { r with stage := .track })
  | agingOff (hstage : r.stage = .checkAging) (hoff : s.m.mAgingEnabled = false) :
      RegisterMove cfg inp s r
        (modifyDispatch s (some r.dispatch) fun d => { d with settled := true })
        (some { r with stage := .publish })
  | track (hstage : r.stage = .track) :
      RegisterMove cfg inp s r
        (modifyDispatch { s with m.mAgingEngine := s.m.mAgingEngine.track r.job inp.now }
          (some r.dispatch) fun d => { d with settled := true })
        (some { r with stage := .publish })
  | noDispatch (hstage : r.stage = .publish) (hd : s.dispatches[r.dispatch]? = none) :
      RegisterMove cfg inp s r s none
  | publish (d : Dispatch) (hstage : r.stage = .publish) (hd : s.dispatches[r.dispatch]? = some d)
      (hearly : d.regState.earlyCompletedJob = none) :
      RegisterMove cfg inp s r
        { s with dispatches := s.dispatches.set r.dispatch (d.publish r.handle) }
        none
  | publishEarly (d : Dispatch) (job : Job) (hstage : r.stage = .publish)
      (hd : s.dispatches[r.dispatch]? = some d)
      (hearly : d.regState.earlyCompletedJob = some job) :
      RegisterMove cfg inp s r
        { s with dispatches := s.dispatches.set r.dispatch (d.publish r.handle) }
        (some { r with
          stage := .finalize
            { finishedJob := job
              routedHandle := some r.handle
              succeeded := d.regState.earlySucceeded
              call := d.call
              dispatch := some r.dispatch } })
  | finalize (f : Finalize) {s' : State F} {f' : Option Finalize} (hstage : r.stage = .finalize f)
      (h : FinalizeMove s f s' f') :
      RegisterMove cfg inp s r s' (f'.map fun f' => { r with stage := .finalize f' })

/-- The step function of a registration takes one of the moves.  A finalisation that the
registration runs at its end is a `FinalizeMove` inside it. -/
theorem registerStep_move (cfg : BalancerConfig F) (inp : Input) (s : State F) (r : Register) :
    RegisterMove cfg inp s r (registerStep cfg inp s r).1 (registerStep cfg inp s r).2 := by
  unfold registerStep
  split
  case h_1 hstage => exact .insert hstage
  case h_2 hstage =>
    split
    · next hon => exact .agingOn hstage hon
    · next hoff => exact .agingOff hstage (by simpa using hoff)
  case h_3 hstage => exact .track hstage
  case h_4 hstage =>
    split
    · next hd => exact .noDispatch hstage hd
    · next d hd =>
        cases hearly : d.regState.earlyCompletedJob with
        | none => exact .publish d hstage hd hearly
        | some job => exact .publishEarly d job hstage hd hearly
  case h_5 f hstage => exact .finalize f hstage (finalizeStep_move s f)

/-- Two states that agree on everything `registerDispatchedJob` and `finalizeJobLifecycle` do not
touch. -/
structure SameOutside (s s' : State F) : Prop where
  calls : s'.calls = s.calls
  cancels : s'.cancels = s.cancels
  switches : s'.switches = s.switches
  drain : s'.drain = s.drain
  aging : s'.aging = s.aging
  admission : s'.m.mAdmission = s.m.mAdmission
  queue : s'.m.mHoldingQueue = s.m.mHoldingQueue
  policy : s'.m.mPolicy = s.m.mPolicy
  draining : s'.m.mDraining = s.m.mDraining
  mutex : s'.m.mSwitchMutex = s.m.mSwitchMutex
  nextJobId : s'.m.mNextJobId = s.m.mNextJobId
  issued : s'.issued = s.issued
  selections : s'.selections = s.selections
  dropped : s'.dropped = s.dropped
  removed : s'.removed = s.removed

/-- Every state agrees with itself. -/
theorem SameOutside.refl (s : State F) : SameOutside s s :=
  ⟨rfl, rfl, rfl, rfl, rfl, rfl, rfl, rfl, rfl, rfl, rfl, rfl, rfl, rfl, rfl⟩

theorem modifyDispatch_sameOutside {s s' : State F} (h : SameOutside s s') (k : Option Nat)
    (g : Dispatch → Dispatch) : SameOutside s (modifyDispatch s' k g) := by
  cases k with
  | none => exact h
  | some k =>
      exact ⟨h.calls, h.cancels, h.switches, h.drain, h.aging, h.admission, h.queue, h.policy,
        h.draining, h.mutex, h.nextJobId, h.issued, h.selections, h.dropped, h.removed⟩

theorem eraseRoutingState_sameOutside (s : State F) (handle : JobHandle) :
    SameOutside s { s with m := eraseRoutingState s.m handle } := by
  unfold eraseRoutingState
  split <;> exact ⟨rfl, rfl, rfl, rfl, rfl, rfl, rfl, rfl, rfl, rfl, rfl, rfl, rfl, rfl, rfl⟩

theorem FinalizeMove.sameOutside {s s' : State F} {f : Finalize} {f' : Option Finalize}
    (h : FinalizeMove s f s' f') : SameOutside s s' := by
  cases h with
  | skip | held => exact .refl s
  | learn | count | release =>
      exact ⟨rfl, rfl, rfl, rfl, rfl, rfl, rfl, rfl, rfl, rfl, rfl, rfl, rfl, rfl, rfl⟩
  | untrack =>
      apply modifyDispatch_sameOutside
      exact ⟨rfl, rfl, rfl, rfl, rfl, rfl, rfl, rfl, rfl, rfl, rfl, rfl, rfl, rfl, rfl⟩
  | unroute handle => exact modifyDispatch_sameOutside (eraseRoutingState_sameOutside s handle) _ _

theorem RegisterMove.sameOutside {cfg : BalancerConfig F} {inp : Input} {s s' : State F}
    {r : Register} {r' : Option Register} (h : RegisterMove cfg inp s r s' r') :
    SameOutside s s' := by
  cases h with
  | agingOn | noDispatch => exact .refl s
  | publish | publishEarly =>
      exact ⟨rfl, rfl, rfl, rfl, rfl, rfl, rfl, rfl, rfl, rfl, rfl, rfl, rfl, rfl, rfl⟩
  | agingOff => exact modifyDispatch_sameOutside (.refl s) _ _
  | insert | track =>
      apply modifyDispatch_sameOutside
      exact ⟨rfl, rfl, rfl, rfl, rfl, rfl, rfl, rfl, rfl, rfl, rfl, rfl, rfl, rfl, rfl⟩
  | finalize f hstage hf => exact hf.sameOutside

/-- A dispatch without the history flags that registration and finalisation set. -/
def Dispatch.core (d : Dispatch) : Dispatch :=
  { d with routed := false, settled := false, untracked := false }

theorem modifyDispatch_core {s : State F} {k : Option Nat} {g : Dispatch → Dispatch}
    (hg : ∀ d, (g d).core = d.core) :
    (modifyDispatch s k g).dispatches.map Dispatch.core = s.dispatches.map Dispatch.core := by
  cases k with
  | none => rfl
  | some k =>
      apply List.ext_getElem?
      intro n
      simp only [modifyDispatch, List.getElem?_map, List.getElem?_modify]
      split
      · cases s.dispatches[n]? <;> simp [hg]
      · simp

/-- Finalisation changes nothing but history flags in the dispatches. -/
theorem FinalizeMove.dispatches_core {s s' : State F} {f : Finalize} {f' : Option Finalize}
    (h : FinalizeMove s f s' f') :
    s'.dispatches.map Dispatch.core = s.dispatches.map Dispatch.core := by
  cases h with
  | learn | skip | count | held | release => rfl
  | untrack => exact modifyDispatch_core fun _ => rfl
  | unroute handle => exact modifyDispatch_core fun _ => rfl

/-- Lists with the same cores have the same dispatches at every position, up to the history flags.
-/
theorem getElem?_core {l l' : List Dispatch} (h : l'.map Dispatch.core = l.map Dispatch.core)
    {k : Nat} {d : Dispatch} (hd : l[k]? = some d) : ∃ d', l'[k]? = some d' ∧ d'.core = d.core := by
  have hk := congrArg (·[k]?) h
  simp only [List.getElem?_map, hd, Option.map_some] at hk
  exact Option.map_eq_some_iff.mp hk

/-- A weight that does not look at the history flags has the same total on lists with the same
cores. -/
theorem total_core {w : Dispatch → Nat} (hw : ∀ d, w d.core = w d) {l l' : List Dispatch}
    (h : l'.map Dispatch.core = l.map Dispatch.core) : Table.total w l' = Table.total w l := by
  have hmap : ∀ l, Table.total w l = Table.total w (l.map Dispatch.core) := by
    intro l
    simp [Table.total, hw, Function.comp_def]
  rw [hmap l', h, ← hmap l]

/-! ## Submit

A `submit` call reads the draining gate, takes its number, runs the layers of the admission gate and
then either backs out, stores the job in the holding queue or offers it to a node.  The layers
before the selection differ only in the verdict they hand on, which `SubmitPc.gated` and
`SubmitPc.leaving` keep apart from the rest. -/

/-- Past the draining gate and before the job has a holding slot or a node. -/
def SubmitPc.gated : SubmitPc → Bool
  | .gate | .globalRate _ | .modes _ | .priorityRate _ | .capacity _ | .reserving _ => true
  | _ => false

/-- The error a call is about to leave with. -/
def SubmitPc.leaving : SubmitPc → Option SubmitError
  | .turnedAway => some .clusterSaturated
  | .backOut error => some error
  | _ => none

/-- The outcomes of one step of a `submit` call. -/
inductive SubmitMove (cfg : BalancerConfig F) (inp : Input) (s : State F) (i : CallId) (c : Call) :
    State F → Prop
  | shut (hpc : c.pc = .entered) (hdrain : s.m.mDraining = true) :
      SubmitMove cfg inp s i c (s.submitAt i c .turnedAway)
  | opened (hpc : c.pc = .entered) (hdrain : s.m.mDraining = false) :
      SubmitMove cfg inp s i c (s.submitAt i c .gate)
  /-- an admission layer, or the deadline check, turns the job away -/
  | reject (ac : AdmissionControl) (error : SubmitError) (hpc : c.pc.gated = true)
      (hac : s.m.mAdmission.SameSlots ac) :
      SubmitMove cfg inp s i c
        (State.submitAt { s with m.mAdmission := ac } i c (.backOut error))
  /-- the next admission layer, or the policy, decides -/
  | advance (ac : AdmissionControl) (pc : SubmitPc) (hpc : c.pc.gated = true)
      (hpc' : pc.gated = true ∨ pc = .select) (hac : s.m.mAdmission.SameSlots ac) :
      SubmitMove cfg inp s i c (State.submitAt { s with m.mAdmission := ac } i c pc)
  | reserve (hpc : c.pc = .reserving (some s.m.mAdmission.mHoldingQueueDepth))
      (hroom : s.m.mAdmission.mHoldingQueueDepth < s.m.mAdmission.mHoldingQueueCapacity) :
      SubmitMove cfg inp s i c
        (State.submitAt
          { s with m.mAdmission.mHoldingQueueDepth := s.m.mAdmission.mHoldingQueueDepth + 1 }
          i c .holdId)
  | holdId (hpc : c.pc = .holdId) :
      SubmitMove cfg inp s i c
        { s with
          m.mNextJobId := fetchAdd32 s.m.mNextJobId
          issued := s.issued + 1
          calls := s.calls.set i
            { c with
              pc := .enqueue { c.job with submitted := inp.now, id := s.m.mNextJobId }
              ordinal := some s.issued } }
  | enqueued (job : Job) (handle : JobHandle) (queue : HoldingQueue HoldingTerminalCallback)
      (hpc : c.pc = .enqueue job)
      (hq : s.m.mHoldingQueue.enqueue job { capturedJob := job, call := i } =
        .ok (handle, queue)) :
      SubmitMove cfg inp s i c
        (State.submitAt { s with m.mHoldingQueue := queue } i c (.countHeld handle))
  | notEnqueued (job : Job) (error : SubmitError) (hpc : c.pc = .enqueue job)
      (hq : s.m.mHoldingQueue.enqueue job { capturedJob := job, call := i } = .error error) :
      SubmitMove cfg inp s i c (s.submitAt i c .releaseSlot)
  | releaseSlot (hpc : c.pc = .releaseSlot) :
      SubmitMove cfg inp s i c
        (State.submitAt { s with m.mAdmission := s.m.mAdmission.releaseFromHoldingQueue } i c
          (.backOut .holdingQueueFull))
  | countHeld (handle : JobHandle) (hpc : c.pc = .countHeld handle) :
      SubmitMove cfg inp s i c
        (State.submitAt { s with m.mTotalSubmitted := s.m.mTotalSubmitted + 1 } i c
          (.returned (.ok handle)))
  | unselected (error : SubmitError) (hpc : c.pc = .select) :
      SubmitMove cfg inp s i c
        (State.submitAt { s with selections := (i, s.m.mPolicy) :: s.selections } i c
          (.backOut error))
  | selected (nodeId : NodeId) (hpc : c.pc = .select) (hnode : findNode cfg nodeId = some nodeId) :
      SubmitMove cfg inp s i c
        (State.submitAt { s with selections := (i, s.m.mPolicy) :: s.selections } i c
          (.assignId nodeId))
  | assignId (nodeId : NodeId) (hpc : c.pc = .assignId nodeId) :
      SubmitMove cfg inp s i c
        { s with
          m.mNextJobId := fetchAdd32 s.m.mNextJobId
          issued := s.issued + 1
          calls := s.calls.set i
            { c with
              pc := .nodeSubmit nodeId { c.job with submitted := inp.now, id := s.m.mNextJobId }
              ordinal := some s.issued } }
  | refused (nodeId : NodeId) (job : Job) (hpc : c.pc = .nodeSubmit nodeId job) :
      SubmitMove cfg inp s i c (s.submitAt i c (.backOut .clusterSaturated))
  | accepted (nodeId : NodeId) (job : Job) (handle : JobHandle)
      (hpc : c.pc = .nodeSubmit nodeId job) (hin : inp.accepted = some handle)
      (hfree : handleFree s nodeId handle = true) :
      SubmitMove cfg inp s i c
        ((acceptDispatch s nodeId handle job i).submitAt i c
          (.countDispatched (newRegister s nodeId handle job)))
  | countDispatched (r : Register) (hpc : c.pc = .countDispatched r) :
      SubmitMove cfg inp s i c
        (State.submitAt { s with m.mTotalSubmitted := s.m.mTotalSubmitted + 1 } i c (.register r))
  | register (r : Register) {s' : State F} {r' : Option Register} (hpc : c.pc = .register r)
      (h : RegisterMove cfg inp s r s' r') :
      SubmitMove cfg inp s i c
        (s'.submitAt i c (r'.elim (.returned (.ok r.handle)) .register))
  | backOut (error : SubmitError) (hpc : c.pc.leaving = some error) :
      SubmitMove cfg inp s i c
        (State.submitAt { s with m.mSubmittedCount := fetchSub32 s.m.mSubmittedCount } i c
          (.returned (.error error)))

/-- A `submit` step changes one row of the table of calls, and not the job in it. -/
theorem SubmitMove.calls {cfg : BalancerConfig F} {inp : Input} {s s' : State F} {i : CallId}
    {c : Call} (h : SubmitMove cfg inp s i c s') :
    ∃ c', s'.calls = s.calls.set i c' ∧ c'.job = c.job := by
  cases h with
  | @register r t r' hpc hr =>
      refine ⟨{ c with pc := r'.elim (.returned (.ok r.handle)) .register }, ?_, rfl⟩
      rw [State.submitAt, hr.sameOutside.calls]
  | _ => exact ⟨_, rfl, rfl⟩

/-- `findNode` gives back the node it was asked for, or nothing. -/
theorem findNode_eq_some {cfg : BalancerConfig F} {id nodeId : NodeId}
    (h : findNode cfg id = some nodeId) : nodeId = id := by
  simpa using List.find?_some h

/-- A rate layer answers with a rejection or lets the job through. -/
theorem verdict_move {cfg : BalancerConfig F} {inp : Input} {s : State F} {i : CallId} {c : Call}
    {r : Option SubmitError × AdmissionControl} {next : SubmitPc} (hpc : c.pc.gated = true)
    (hnext : next.gated = true ∨ next = .select) (hac : s.m.mAdmission.SameSlots r.2) :
    SubmitMove cfg inp s i c
      (State.submitAt { s with m.mAdmission := r.2 } i c (r.1.elim next .backOut)) := by
  cases h : r.1 with
  | none => exact .advance r.2 next hpc hnext hac
  | some error => exact .reject r.2 error hpc hac

/-- The step function of a `submit` call takes one of the moves. -/
theorem submitStep_move {cfg : BalancerConfig F} {inp : Input} {s s' : State F} {i : CallId}
    {c : Call} (h : submitStep cfg inp s i c = some s') : SubmitMove cfg inp s i c s' := by
  have hself : s.m.mAdmission.SameSlots s.m.mAdmission := ⟨rfl, rfl⟩
  -- one case for each program counter, in the order of the source
  cases hpc : c.pc <;> simp only [submitStep, hpc, Option.some.injEq] at h
  case entered =>
    subst h
    cases hdrain : s.m.mDraining with
    | true => exact .shut hpc hdrain
    | false => exact .opened hpc hdrain
  case turnedAway =>
    subst h
    exact .backOut _ (by rw [hpc]; rfl)
  case gate =>
    subst h
    split
    · exact .reject s.m.mAdmission _ (by simp [hpc, SubmitPc.gated]) hself
    · exact .advance s.m.mAdmission _ (by simp [hpc, SubmitPc.gated]) (.inl rfl) hself
  case globalRate saturated =>
    subst h
    exact verdict_move (by simp [hpc, SubmitPc.gated]) (.inl rfl)
      (AdmissionControl.checkGlobalRate_sameSlots ..)
  case modes saturated =>
    subst h
    exact verdict_move (by simp [hpc, SubmitPc.gated]) (.inl rfl)
      (AdmissionControl.checkModes_sameSlots ..)
  case priorityRate saturated =>
    subst h
    exact verdict_move (by simp [hpc, SubmitPc.gated]) (.inl rfl)
      (AdmissionControl.checkPriorityRate_sameSlots ..)
  case capacity saturated =>
    have hgated : c.pc.gated = true := by simp [hpc, SubmitPc.gated]
    split at h
    · cases h
      exact .advance s.m.mAdmission _ hgated (.inr rfl) hself
    · cases h
      exact .advance s.m.mAdmission _ hgated (.inl rfl) hself
    · cases h
      exact .reject _ _ hgated (AdmissionControl.countRejection_sameSlots ..)
  case reserving current =>
    have hgated : c.pc.gated = true := by simp [hpc, SubmitPc.gated]
    cases current with
    | none =>
        cases h
        exact .advance s.m.mAdmission _ hgated (.inl rfl) hself
    | some current =>
        dsimp only at h
        split at h
        · cases h
          exact .reject _ _ hgated (AdmissionControl.countRejection_sameSlots ..)
        -- a failed exchange reloads the depth and goes round the loop again
        · split at h
          · cases h
            exact .advance s.m.mAdmission _ hgated (.inl rfl) hself
          · next hfull hcas =>
              obtain ⟨-, rfl⟩ :
                  ¬inp.spurious = true ∧ s.m.mAdmission.mHoldingQueueDepth = current := by
                simpa [not_or] using hcas
              cases h
              exact .reserve hpc (by omega)
  case holdId =>
    subst h
    exact .holdId hpc
  case enqueue job =>
    split at h
    · next hq =>
        cases h
        exact .enqueued _ _ _ hpc hq
    · next hq =>
        cases h
        exact .notEnqueued _ _ hpc hq
  case releaseSlot =>
    subst h
    exact .releaseSlot hpc
  case countHeld handle =>
    subst h
    exact .countHeld handle hpc
  case select =>
    split at h
    · cases h
      exact .unselected _ hpc
    · split at h
      · cases h
        exact .unselected _ hpc
      · next hnode =>
          cases h
          obtain rfl := findNode_eq_some hnode
          exact .selected _ hpc hnode
  case assignId nodeId =>
    subst h
    exact .assignId nodeId hpc
  case nodeSubmit nodeId job =>
    split at h
    · cases h
      exact .refused nodeId job hpc
    · next handle hin =>
        split at h
        -- a node never answers with a handle that one of its live jobs holds
        · next hfree =>
            cases h
            exact .accepted nodeId job handle hpc hin hfree
        · cases h
  case countDispatched r =>
    subst h
    exact .countDispatched r hpc
  case register r =>
    subst h
    exact .register r hpc (registerStep_move cfg inp s r)
  case backOut error =>
    subst h
    exact .backOut error (by rw [hpc]; rfl)
  case returned result => cases h

/-! ## Nodes and cancels

What a node does to a dispatch it has accepted, and what a `cancel` call does to the balancer's
members and to the node.  A cancel under a raw node handle and one under a holding handle part at
the first step and meet again in `finalizeJobLifecycle`. -/

/-- The outcomes of one step of the node that holds dispatch `k`. -/
inductive NodeMove (inp : Input) (s : State F) (k : Nat) (d : Dispatch) : State F → Prop
  | finish (hside : d.side = .live) :
      NodeMove inp s k d
        { s with
          dispatches := s.dispatches.set k
            { d with
              side := .finished inp.completed inp.succeeded
              report := some (inp.completed, inp.succeeded) } }
  /-- the callback leaves the job to the registering thread -/
  | early (completed : Job) (succeeded : Bool) (hside : d.side = .finished completed succeeded)
      (hpublished : d.regState.published = false) :
      NodeMove inp s k d
        { s with
          dispatches := s.dispatches.set k
            { d with
              side := .called
              regState := { d.regState with
                earlyCompletedJob := some (mergeCompleted d.capturedJob completed)
                earlySucceeded := succeeded } } }
  | enter (completed : Job) (succeeded : Bool) (hside : d.side = .finished completed succeeded)
      (hpublished : d.regState.published = true) :
      NodeMove inp s k d
        { s with
          dispatches := s.dispatches.set k
            { d with
              side := .calling
                { finishedJob := mergeCompleted d.capturedJob completed
                  routedHandle := d.regState.handle
                  succeeded
                  call := d.call
                  dispatch := some k } } }
  | finalize (f : Finalize) {s' : State F} {f' : Option Finalize} (hside : d.side = .calling f)
      (h : FinalizeMove s f s' f') :
      NodeMove inp s k d
        (modifyDispatch s' (some k) fun d => { d with side := f'.elim .called .calling })

/-- The step function of a dispatch's node takes one of the moves. -/
theorem nodeStep_move {inp : Input} {s s' : State F} {k : Nat} {d : Dispatch}
    (h : nodeStep inp s k d = some s') : NodeMove inp s k d s' := by
  cases hside : d.side <;> simp only [nodeStep, hside, Option.some.injEq] at h
  case live =>
    subst h
    exact .finish hside
  case finished completed succeeded =>
    subst h
    split
    · next hpublished => exact .enter completed succeeded hside hpublished
    · next hpublished => exact .early completed succeeded hside (by simpa using hpublished)
  case calling f =>
    subst h
    exact .finalize f hside (finalizeStep_move s f)
  case called => cases h
  case cancelled => cases h

/-- A node's step leaves the balancer's threads where they are. -/
theorem NodeMove.threads {inp : Input} {s s' : State F} {k : Nat} {d : Dispatch}
    (h : NodeMove inp s k d s') :
    s'.calls = s.calls ∧ s'.cancels = s.cancels ∧ s'.switches = s.switches ∧
      s'.drain = s.drain ∧ s'.aging = s.aging := by
  cases h with
  | finalize f hside hf =>
      -- the callback runs `finalizeJobLifecycle` and touches what that touches
      have hout := modifyDispatch_sameOutside hf.sameOutside (some k)
      exact ⟨(hout _).calls, (hout _).cancels, (hout _).switches, (hout _).drain, (hout _).aging⟩
  | _ => exact ⟨rfl, rfl, rfl, rfl, rfl⟩

/-- The outcomes of one step of a `cancel` call. -/
inductive CancelMove (cfg : BalancerConfig F) (inp : Input) (s : State F) (c : CancelCall) :
    State F → CancelCall → Prop
  | notHeld (hpc : c.pc = .start) (hbit : isHoldingHandle c.handle = true)
      (hq : s.m.mHoldingQueue.remove c.handle = none) :
      CancelMove cfg inp s c s { c with pc := .returned (.error .notFound) }
  | removed (entry : HeldEntry) (queue : HoldingQueue HoldingTerminalCallback)
      (hpc : c.pc = .start) (hbit : isHoldingHandle c.handle = true)
      (hq : s.m.mHoldingQueue.remove c.handle = some (entry, queue)) :
      CancelMove cfg inp s c
        { s with
          m.mHoldingQueue := queue
          removed := entry.onDone.call :: s.removed }
        { c with pc := .releaseSlot entry, hit := some entry.onDone.call }
  | notRouted (hpc : c.pc = .start) (hbit : isHoldingHandle c.handle = false)
      (hinfo : s.m.mHandleToJobInfo.lookup c.handle = none) :
      CancelMove cfg inp s c s { c with pc := .returned (.error .notFound) }
  | noNode (info : JobRoutingInfo) (hpc : c.pc = .start)
      (hbit : isHoldingHandle c.handle = false)
      (hinfo : s.m.mHandleToJobInfo.lookup c.handle = some info)
      (hnode : findNode cfg info.nodeId = none) :
      CancelMove cfg inp s c s { c with pc := .returned (.error .notFound) }
  | ask (info : JobRoutingInfo) (hpc : c.pc = .start) (hbit : isHoldingHandle c.handle = false)
      (hinfo : s.m.mHandleToJobInfo.lookup c.handle = some info) :
      CancelMove cfg inp s c s { c with pc := .askNode info }
  | releaseSlot (entry : HeldEntry) (hpc : c.pc = .releaseSlot entry) :
      CancelMove cfg inp s c { s with m.mAdmission := s.m.mAdmission.releaseFromHoldingQueue }
        { c with pc := .finalize (onDoneFailed entry) }
  | refused (info : JobRoutingInfo) (error : CancelError) (hpc : c.pc = .askNode info)
      (hfree : error = .notFound → handleFree s info.nodeId c.handle = true) :
      CancelMove cfg inp s c s { c with pc := .returned (.error error) }
  | hit (info : JobRoutingInfo) (k : Nat) (d : Dispatch) (hpc : c.pc = .askNode info)
      (hd : s.dispatches[k]? = some d) (hnode : d.nodeId = info.nodeId)
      (hhandle : d.handle = c.handle) (hlive : d.side = .live) (hreply : inp.cancelReply = .ok k) :
      CancelMove cfg inp s c (modifyDispatch s (some k) fun d => { d with side := .cancelled })
        { c with
          hit := some d.call
          pc := .finalize
            { finishedJob := { id := info.jobId }
              routedHandle := some c.handle
              succeeded := false
              call := d.call
              dispatch := some k } }
  | finalize (f : Finalize) {s' : State F} {f' : Option Finalize} (hpc : c.pc = .finalize f)
      (h : FinalizeMove s f s' f') :
      CancelMove cfg inp s c s' { c with pc := f'.elim (.returned (.ok ())) .finalize }

/-- The step function of a `cancel` call takes one of the moves. -/
theorem cancelStep_move {cfg : BalancerConfig F} {inp : Input} {s : State F} {c : CancelCall}
    {r : State F × CancelCall} (h : cancelStep cfg inp s c = some r) :
    CancelMove cfg inp s c r.1 r.2 := by
  cases hpc : c.pc <;> simp only [cancelStep, hpc, Option.some.injEq] at h
  case start =>
    split at h
    · next hbit =>
        split at h
        · next hq =>
            cases h
            exact .notHeld hpc hbit hq
        · next entry queue hq =>
            cases h
            exact .removed entry queue hpc hbit hq
    · next hbit =>
        have hbit : isHoldingHandle c.handle = false := by simpa using hbit
        split at h
        · next hinfo =>
            cases h
            exact .notRouted hpc hbit hinfo
        · next info hinfo =>
            split at h
            · next hnode =>
                cases h
                exact .noNode info hpc hbit hinfo hnode
            · cases h
              exact .ask info hpc hbit hinfo
  case releaseSlot entry =>
    subst h
    exact .releaseSlot entry hpc
  case askNode info =>
    split at h
    · next error hreply =>
        split at h
        · cases h
        -- a node that says `NotFound` has no live job under the handle
        · next hok =>
            cases h
            exact .refused info error hpc fun herror => by simpa [herror] using hok
    · next k hreply =>
        split at h
        · cases h
        · next d hd =>
            split at h
            · next hmatch =>
                cases h
                exact .hit info k d hpc hd hmatch.1 hmatch.2.1 hmatch.2.2 hreply
            · cases h
  case finalize f =>
    subst h
    exact .finalize f hpc (finalizeStep_move s f)
  case returned result => cases h

/-- A `cancel` step leaves the other threads where they are. -/
theorem CancelMove.threads {cfg : BalancerConfig F} {inp : Input} {s s' : State F}
    {c c' : CancelCall} (h : CancelMove cfg inp s c s' c') :
    s'.calls = s.calls ∧ s'.cancels = s.cancels ∧ s'.switches = s.switches ∧
      s'.drain = s.drain ∧ s'.aging = s.aging := by
  cases h with
  | finalize f hpc hf =>
      have hout := hf.sameOutside
      exact ⟨hout.calls, hout.cancels, hout.switches, hout.drain, hout.aging⟩
  | _ => exact ⟨rfl, rfl, rfl, rfl, rfl⟩

/-! ## The balancer's own threads

The holding drain thread, the aging thread, and the callers of `switchPolicy` and `setAgingEnabled`,
who are not the balancer's own but have a table of program counters as the others do. -/

/-- The outcomes of one step of the holding drain thread. -/
inductive DrainMove (cfg : BalancerConfig F) (inp : Input) (s : State F) : State F → Prop
  | wake (hpc : s.drain = .waiting) : DrainMove cfg inp s { s with drain := .looping }
  | drained (hpc : s.drain = .looping) (hq : s.m.mHoldingQueue.tryDequeue = none) :
      DrainMove cfg inp s { s with drain := .waiting }
  | take (entry : HeldEntry) (queue : HoldingQueue HoldingTerminalCallback)
      (hpc : s.drain = .looping) (hq : s.m.mHoldingQueue.tryDequeue = some (entry, queue)) :
      DrainMove cfg inp s { s with m.mHoldingQueue := queue, drain := .entry entry }
  | drop (entry : HeldEntry) (hpc : s.drain = .entry entry) :
      DrainMove cfg inp s
        { s with drain := .dropRelease entry, dropped := entry.onDone.call :: s.dropped }
  -- saturation is no attempt: the entry goes back as it came
  | saturated (entry : HeldEntry) (hpc : s.drain = .entry entry) :
      DrainMove cfg inp s { s with drain := .requeue entry }
  | offer (entry : HeldEntry) (hpc : s.drain = .entry entry) :
      DrainMove cfg inp s { s with drain := .select entry }
  | dropRelease (entry : HeldEntry) (hpc : s.drain = .dropRelease entry) :
      DrainMove cfg inp s
        { s with
          m.mAdmission := s.m.mAdmission.releaseFromHoldingQueue
          drain := .dropping (onDoneFailed entry) }
  | dropping (f : Finalize) {s' : State F} {f' : Option Finalize} (hpc : s.drain = .dropping f)
      (h : FinalizeMove s f s' f') :
      DrainMove cfg inp s { s' with drain := f'.elim .looping .dropping }
  | unselected (entry : HeldEntry) (hpc : s.drain = .select entry) :
      DrainMove cfg inp s
        { s with
          selections := (entry.onDone.call, s.m.mPolicy) :: s.selections
          drain := .requeue (retryEntry entry) }
  | selected (entry : HeldEntry) (nodeId : NodeId) (hpc : s.drain = .select entry)
      (hnode : findNode cfg nodeId = some nodeId) :
      DrainMove cfg inp s
        { s with
          selections := (entry.onDone.call, s.m.mPolicy) :: s.selections
          drain := .nodeSubmit nodeId { entry with job.submitted := inp.now } }
  | refused (nodeId : NodeId) (entry : HeldEntry) (hpc : s.drain = .nodeSubmit nodeId entry) :
      DrainMove cfg inp s { s with drain := .requeue (retryEntry entry) }
  | accepted (nodeId : NodeId) (entry : HeldEntry) (handle : JobHandle)
      (hpc : s.drain = .nodeSubmit nodeId entry) (hin : inp.accepted = some handle)
      (hfree : handleFree s nodeId handle = true) :
      DrainMove cfg inp s
        { acceptDispatch s nodeId handle entry.job entry.onDone.call with
          drain := .releaseSlot (newRegister s nodeId handle entry.job) }
  | requeued (entry : HeldEntry) (handle : JobHandle)
      (queue : HoldingQueue HoldingTerminalCallback) (hpc : s.drain = .requeue entry)
      (hq : s.m.mHoldingQueue.requeue entry = .ok (handle, queue)) :
      DrainMove cfg inp s { s with m.mHoldingQueue := queue, drain := .waiting }
  -- the result of `requeue` is discarded, and the entry with it when the queue is full
  | lost (entry : HeldEntry) (error : SubmitError) (hpc : s.drain = .requeue entry)
      (hq : s.m.mHoldingQueue.requeue entry = .error error) :
      DrainMove cfg inp s { s with drain := .waiting }
  | releaseSlot (r : Register) (hpc : s.drain = .releaseSlot r) :
      DrainMove cfg inp s
        { s with
          m.mAdmission := s.m.mAdmission.releaseFromHoldingQueue
          drain := .register r }
  | register (r : Register) {s' : State F} {r' : Option Register} (hpc : s.drain = .register r)
      (h : RegisterMove cfg inp s r s' r') :
      DrainMove cfg inp s { s' with drain := r'.elim .looping .register }

/-- The step function of the drain thread takes one of the moves. -/
theorem drainStep_move {cfg : BalancerConfig F} {inp : Input} {s s' : State F}
    (h : drainStep cfg inp s = some s') : DrainMove cfg inp s s' := by
  cases hpc : s.drain <;> simp only [drainStep, hpc, Option.some.injEq] at h
  case waiting =>
    subst h
    exact .wake hpc
  case looping =>
    split at h
    · next hq =>
        cases h
        exact .drained hpc hq
    · next entry queue hq =>
        cases h
        exact .take entry queue hpc hq
  case entry entry =>
    split at h
    · cases h
      exact .drop entry hpc
    · split at h
      · cases h
        exact .saturated entry hpc
      · cases h
        exact .offer entry hpc
  case dropRelease entry =>
    subst h
    exact .dropRelease entry hpc
  case dropping f =>
    subst h
    exact .dropping f hpc (finalizeStep_move s f)
  case select entry =>
    split at h
    · cases h
      exact .unselected entry hpc
    · split at h
      · cases h
        exact .unselected entry hpc
      · next hnode =>
          cases h
          obtain rfl := findNode_eq_some hnode
          exact .selected entry _ hpc hnode
  case nodeSubmit nodeId entry =>
    split at h
    · cases h
      exact .refused nodeId entry hpc
    · next handle hin =>
        split at h
        · next hfree =>
            cases h
            exact .accepted nodeId entry handle hpc hin hfree
        · cases h
  case requeue entry =>
    split at h
    · next hq =>
        cases h
        exact .requeued entry _ _ hpc hq
    · next hq =>
        cases h
        exact .lost entry _ hpc hq
  case releaseSlot r =>
    subst h
    exact .releaseSlot r hpc
  case register r =>
    subst h
    exact .register r hpc (registerStep_move cfg inp s r)

/-- The drain thread's step leaves the other threads where they are. -/
theorem DrainMove.threads {cfg : BalancerConfig F} {inp : Input} {s s' : State F}
    (h : DrainMove cfg inp s s') :
    s'.calls = s.calls ∧ s'.cancels = s.cancels ∧ s'.switches = s.switches ∧
      s'.aging = s.aging := by
  cases h with
  | dropping f hpc hf =>
      have hout := hf.sameOutside
      exact ⟨hout.calls, hout.cancels, hout.switches, hout.aging⟩
  | register r hpc hr =>
      have hout := hr.sameOutside
      exact ⟨hout.calls, hout.cancels, hout.switches, hout.aging⟩
  | _ => exact ⟨rfl, rfl, rfl, rfl⟩

/-- The outcomes of one step of the aging thread outside its `cancel` calls. -/
inductive AgingMove (inp : Input) (s : State F) : State F → Prop
  | exit (hpc : s.aging = .sleeping) : AgingMove inp s { s with aging := .exited }
  | wake (hpc : s.aging = .sleeping) : AgingMove inp s { s with aging := .ticking }
  | tick (hpc : s.aging = .ticking) :
      AgingMove inp s
        { s with
          m.mAgingEngine := (s.m.mAgingEngine.tick inp.now).2
          aging := .events (s.m.mAgingEngine.tick inp.now).1.aged
            (s.m.mAgingEngine.tick inp.now).1.expired }
  | aged (e : AgedEvent) (aged : List AgedEvent) (expired : List ExpiredEvent)
      (hpc : s.aging = .events (e :: aged) expired) :
      AgingMove inp s { s with aging := .events aged expired }
  -- the job is finalised already, or not registered yet
  | gone (e : ExpiredEvent) (expired : List ExpiredEvent)
      (hpc : s.aging = .events [] (e :: expired))
      (hid : s.m.mJobIdToHandleMap.lookup e.id = none) :
      AgingMove inp s { s with aging := .events [] expired }
  | expire (e : ExpiredEvent) (expired : List ExpiredEvent) (handle : JobHandle)
      (hpc : s.aging = .events [] (e :: expired))
      (hid : s.m.mJobIdToHandleMap.lookup e.id = some handle) :
      AgingMove inp s
        { s with aging := .cancelling { handle, target := targetOf s handle } expired }
  | rest (hpc : s.aging = .events [] []) : AgingMove inp s { s with aging := .sleeping }
  | cancelled (c : CancelCall) (expired : List ExpiredEvent) (result : Except CancelError Unit)
      (hpc : s.aging = .cancelling c expired) (hc : c.pc = .returned result) :
      AgingMove inp s { s with aging := .events [] expired }

/-- A step of the aging thread is one of its own, or a step of the `cancel` call it is in. -/
theorem agingStep_move {cfg : BalancerConfig F} {inp : Input} {s s' : State F}
    (h : agingStep cfg inp s = some s') :
    AgingMove inp s s' ∨ ∃ c expired t c', s.aging = .cancelling c expired ∧
      CancelMove cfg inp s c t c' ∧ s' = { t with aging := .cancelling c' expired } := by
  unfold agingStep at h
  split at h
  case h_1 => cases h
  case h_2 => cases h
  case h_3 hpc =>
    cases h
    split
    · exact .inl (.exit hpc)
    · exact .inl (.wake hpc)
  case h_4 hpc =>
    cases h
    exact .inl (.tick hpc)
  case h_5 e aged expired hpc =>
    cases h
    exact .inl (.aged e aged expired hpc)
  case h_6 e expired hpc =>
    split at h
    · next hid =>
        cases h
        exact .inl (.gone e expired hpc hid)
    · next handle hid =>
        cases h
        exact .inl (.expire e expired handle hpc hid)
  case h_7 hpc =>
    cases h
    exact .inl (.rest hpc)
  case h_8 c expired hpc =>
    split at h
    · next result hc =>
        cases h
        exact .inl (.cancelled c expired result hpc hc)
    · obtain ⟨r, hr, rfl⟩ := Option.map_eq_some_iff.mp h
      exact .inr ⟨c, expired, _, _, hpc, cancelStep_move hr, rfl⟩

/-- The outcomes of one step of a `switchPolicy` call. -/
inductive SwitchMove (s : State F) (k : Nat) (pc : SwitchPc) : State F → Prop
  | lock (hpc : pc = .lock) (hmutex : s.m.mSwitchMutex = false) :
      SwitchMove s k pc
        { s with m.mSwitchMutex := true, switches := s.switches.set k .setDraining }
  | setDraining (hpc : pc = .setDraining) :
      SwitchMove s k pc { s with m.mDraining := true, switches := s.switches.set k .spin }
  | spinOn (hpc : pc = .spin) (hcount : s.m.mSubmittedCount ≠ 0) :
      SwitchMove s k pc { s with switches := s.switches.set k .spin }
  | spinOff (hpc : pc = .spin) (hcount : s.m.mSubmittedCount = 0) :
      SwitchMove s k pc { s with switches := s.switches.set k .swap }
  | swap (hpc : pc = .swap) :
      SwitchMove s k pc { s with m.mPolicy := k + 1, switches := s.switches.set k .resume }
  | resume (hpc : pc = .resume) :
      SwitchMove s k pc { s with m.mDraining := false, switches := s.switches.set k .unlock }
  | unlock (hpc : pc = .unlock) :
      SwitchMove s k pc { s with m.mSwitchMutex := false, switches := s.switches.set k .done }

/-- The step function of a `switchPolicy` call takes one of the moves. -/
theorem switchStep_move {s s' : State F} {k : Nat} {pc : SwitchPc}
    (h : switchStep s k pc = some s') : SwitchMove s k pc s' := by
  cases hpc : pc <;> simp only [switchStep, hpc, Option.some.injEq] at h
  case lock =>
    split at h
    · cases h
    · next hmutex =>
        cases h
        exact .lock rfl (by simpa using hmutex)
  case setDraining =>
    subst h
    exact .setDraining rfl
  case spin =>
    subst h
    split
    · next hcount => exact .spinOff rfl hcount
    · next hcount => exact .spinOn rfl hcount
  case swap =>
    subst h
    exact .swap rfl
  case resume =>
    subst h
    exact .resume rfl
  case unlock =>
    subst h
    exact .unlock rfl
  case done => cases h

/-- A `setAgingEnabled` step changes the two aging flags and starts or joins a thread that is not
running. -/
theorem toggleStep_frame {s s' : State F} {k : Nat} {pc : TogglePc}
    (h : toggleStep s k pc = some s') :
    ∃ enabled stop toggles aging,
      s' = { s with
        m.mAgingEnabled := enabled
        m.mAgingThreadStop := stop
        toggles := toggles
        aging := aging } ∧
      (aging = s.aging ∨
        (s.aging = .absent ∧ aging = .sleeping) ∨ (s.aging = .exited ∧ aging = .absent)) := by
  cases pc <;> simp only [toggleStep, Option.some.injEq] at h
  case exchange enabled =>
    split at h
    · cases h
      exact ⟨_, _, _, _, rfl, .inl rfl⟩
    · cases h
      exact ⟨_, _, _, _, rfl, .inl rfl⟩
  case clearStop =>
    subst h
    exact ⟨_, _, _, _, rfl, .inl rfl⟩
  case spawn =>
    split at h
    · next hpc =>
        cases h
        exact ⟨_, _, _, _, rfl, .inr (.inl ⟨hpc, rfl⟩)⟩
    · cases h
  case raiseStop =>
    subst h
    exact ⟨_, _, _, _, rfl, .inl rfl⟩
  case join =>
    split at h
    · cases h
      exact ⟨_, _, _, _, rfl, .inl rfl⟩
    · next hpc =>
        cases h
        exact ⟨_, _, _, _, rfl, .inr (.inr ⟨hpc, rfl⟩)⟩
    · cases h
  case done => cases h

/-! ## The machine

The moves of all threads under one roof.  A step of a `cancel` call reads the same whether a user or
the aging thread makes it; `CancelReplaced` says which of the two tables it updates. -/

/-- The `cancel` call the aging thread is in. -/
def AgingPc.cancel? : AgingPc → Option CancelCall
  | .cancelling c _ => some c
  | _ => none

/-- The `cancel` call that this event is a step of. -/
def State.cancelOf (s : State F) (ev : Event) : Option CancelCall :=
  match ev.actor with
  | .cancel k => s.cancels[k]?
  | .aging => s.aging.cancel?
  | _ => none

/-- All `cancel` calls in the system, the aging thread's own included. -/
def State.allCancels (s : State F) : List CancelCall := s.aging.cancel?.toList ++ s.cancels

/-- The tables `cancels` and `aging` are those of `s` with the call `c` gone on to `c'`. -/
structure CancelReplaced (s : State F) (c c' : CancelCall) (cancels : List CancelCall)
    (aging : AgingPc) : Prop where
  old : c ∈ s.allCancels
  mem : ∀ x ∈ aging.cancel?.toList ++ cancels, x ∈ s.allCancels ∨ x = c'
  total : ∀ w : CancelCall → Nat,
    Table.total w (aging.cancel?.toList ++ cancels) + w c = Table.total w s.allCancels + w c'

/-- A user's call is replaced in the table of cancels. -/
theorem CancelReplaced.user {s : State F} {k : Nat} {c : CancelCall}
    (hc : s.cancels[k]? = some c) (c' : CancelCall) :
    CancelReplaced s c c' (s.cancels.set k c') s.aging where
  old := List.mem_append_right _ (List.mem_of_getElem? hc)
  mem := by
    intro x hx
    rcases List.mem_append.mp hx with hx | hx
    · exact .inl (List.mem_append_left _ hx)
    · exact (List.mem_or_eq_of_mem_set hx).imp_left (List.mem_append_right _)
  total := by
    intro w
    have := Table.total_set (w := w) hc c'
    simp only [State.allCancels, Table.total_append]
    omega

/-- The aging thread's call is replaced in its program counter. -/
theorem CancelReplaced.agingThread {s : State F} {c : CancelCall} {expired : List ExpiredEvent}
    (hpc : s.aging = .cancelling c expired) (c' : CancelCall) :
    CancelReplaced s c c' s.cancels (.cancelling c' expired) where
  old := by simp [State.allCancels, hpc, AgingPc.cancel?]
  mem := by
    intro x hx
    rcases List.mem_append.mp hx with hx | hx
    · exact .inr (by simpa [AgingPc.cancel?] using hx)
    · exact .inl (List.mem_append_right _ hx)
  total := by
    intro w
    simp only [State.allCancels, hpc, AgingPc.cancel?, Option.toList_some, Table.total_append,
      Table.total_cons, Table.total_nil]
    omega

/-- The aging thread begins its `cancel` calls at the start and leaves them returned, so a weight
that is zero there does not see its other steps. -/
theorem AgingMove.total_allCancels {inp : Input} {s s' : State F} (h : AgingMove inp s s')
    {w : CancelCall → Nat} (hstart : ∀ c, c.pc = .start → w c = 0)
    (hreturned : ∀ c result, c.pc = .returned result → w c = 0) :
    Table.total w s'.allCancels = Table.total w s.allCancels := by
  cases h with
  | expire e expired handle hpc hid =>
      simp [State.allCancels, hpc, AgingPc.cancel?, hstart]
  | cancelled c expired result hpc hc =>
      simp [State.allCancels, hpc, AgingPc.cancel?, hreturned c result hc]
  | exit hpc | wake hpc | tick hpc | aged e aged expired hpc | gone e expired hpc hid | rest hpc =>
      simp [State.allCancels, hpc, AgingPc.cancel?]

/-- The outcomes of one step of the balancer. -/
inductive Move (cfg : BalancerConfig F) (ev : Event) (s : State F) : State F → Prop
  | submitCall (job : Job) :
      Move cfg ev s
        { s with
          m.mSubmittedCount := fetchAdd32 s.m.mSubmittedCount
          calls := s.calls ++ [{ job }] }
  | submit (i : CallId) (c : Call) {s' : State F} (hc : s.calls[i]? = some c)
      (h : SubmitMove cfg ev.input s i c s') (hactor : ev.actor = .submit i) : Move cfg ev s s'
  | node (k : Nat) (d : Dispatch) {s' : State F} (hd : s.dispatches[k]? = some d)
      (h : NodeMove ev.input s k d s') (hactor : ev.actor = .node k) : Move cfg ev s s'
  | cancelCall (handle : JobHandle) :
      Move cfg ev s { s with cancels := s.cancels ++ [{ handle, target := targetOf s handle }] }
  /-- a `cancel` call of a user or of the aging thread goes on -/
  | cancel (c c' : CancelCall) (t : State F) (cancels : List CancelCall) (aging : AgingPc)
      (h : CancelMove cfg ev.input s c t c') (hrep : CancelReplaced s c c' cancels aging)
      (hcall : s.cancelOf ev = some c) :
      Move cfg ev s { t with cancels := cancels, aging := aging }
  | switchCall : Move cfg ev s { s with switches := s.switches ++ [.lock] }
  | switch (k : Nat) (pc : SwitchPc) {s' : State F} (hactor : ev.actor = .switch k)
      (hpc : s.switches[k]? = some pc) (h : SwitchMove s k pc s') : Move cfg ev s s'
  | drain {s' : State F} (h : DrainMove cfg ev.input s s') (hactor : ev.actor = .drain) :
      Move cfg ev s s'
  | aging {s' : State F} (h : AgingMove ev.input s s') : Move cfg ev s s'
  | toggle (enabled stop : Bool) (toggles : List TogglePc) (aging : AgingPc)
      (haging : aging = s.aging ∨ (s.aging = .absent ∧ aging = .sleeping) ∨
        (s.aging = .exited ∧ aging = .absent)) :
      Move cfg ev s
        { s with
          m.mAgingEnabled := enabled
          m.mAgingThreadStop := stop
          toggles := toggles
          aging := aging }
  | setModes (shedBulk strict : Bool) :
      Move cfg ev s
        { s with m.mAdmission.mShedBulk := shedBulk, m.mAdmission.mAdmissionStrict := strict }
  | setDegradationEnabled (enabled : Bool) :
      Move cfg ev s { s with m.mCostModel := s.m.mCostModel.setDegradationEnabled enabled }

/-- Every enabled step of the balancer is a move, under the actor and the input of its event. -/
theorem step_move {cfg : BalancerConfig F} {s s' : State F} {ev : Event}
    (h : step cfg s ev = some s') : Move cfg ev s s' := by
  cases hactor : ev.actor <;> simp only [step, hactor, Option.some.injEq] at h
  case submitCall job =>
    subst h
    exact .submitCall job
  case submit i =>
    obtain ⟨c, hc, h⟩ := Option.bind_eq_some_iff.mp h
    exact .submit i c hc (submitStep_move h) hactor
  case node k =>
    obtain ⟨d, hd, h⟩ := Option.bind_eq_some_iff.mp h
    exact .node k d hd (nodeStep_move h) hactor
  case cancelCall handle =>
    subst h
    exact .cancelCall handle
  case cancel k =>
    obtain ⟨c, hc, h⟩ := Option.bind_eq_some_iff.mp h
    obtain ⟨r, hr, rfl⟩ := Option.map_eq_some_iff.mp h
    have hm := cancelStep_move hr
    obtain ⟨-, hcancels, -, -, haging⟩ := hm.threads
    -- `Move.cancel` replaces the call in one of two tables; here it is the users'
    have hmove := Move.cancel _ _ _ _ _ hm (.user hc r.2)
      (by rw [State.cancelOf, hactor]; exact hc)
    rwa [← haging, ← hcancels] at hmove
  case switchCall =>
    subst h
    exact .switchCall
  case switch k =>
    obtain ⟨pc, hpc, h⟩ := Option.bind_eq_some_iff.mp h
    exact .switch k pc hactor hpc (switchStep_move h)
  case drain => exact .drain (drainStep_move h) hactor
  case aging =>
    rcases agingStep_move h with hm | ⟨c, expired, t, c', hpc, hm, rfl⟩
    · exact .aging hm
    · have hmove := Move.cancel _ _ _ _ _ hm (.agingThread hpc c')
        (by rw [State.cancelOf, hactor, hpc]; rfl)
      rwa [← hm.threads.2.1] at hmove
  case toggleCall enabled =>
    subst h
    exact .toggle _ _ _ _ (.inl rfl)
  case toggle k =>
    obtain ⟨pc, hpc, h⟩ := Option.bind_eq_some_iff.mp h
    obtain ⟨enabled, stop, toggles, aging, rfl, haging⟩ := toggleStep_frame h
    exact .toggle enabled stop toggles aging haging
  case setShedBulk enabled =>
    subst h
    exact .setModes enabled s.m.mAdmission.mAdmissionStrict
  case setAdmissionStrict enabled =>
    subst h
    exact .setModes s.m.mAdmission.mShedBulk enabled
  case setDegradationEnabled enabled =>
    subst h
    exact .setDegradationEnabled enabled

/-- Only the drain thread moves the drain thread. -/
theorem Move.drain_or {cfg : BalancerConfig F} {s s' : State F} {ev : Event}
    (h : Move cfg ev s s') :
    s'.drain = s.drain ∨ ev.actor = .drain ∧ DrainMove cfg ev.input s s' := by
  cases h with
  | drain hm hactor => exact .inr ⟨hactor, hm⟩
  | submit i c hc hm =>
      cases hm with
      | register r hpc hr => exact .inl hr.sameOutside.drain
      | _ => exact .inl rfl
  | node k d hd hm => exact .inl hm.threads.2.2.2.1
  | cancel c c' t cancels aging hm hrep => exact .inl hm.threads.2.2.2.1
  | aging hm => cases hm <;> exact .inl rfl
  | switch k pc hactor hpc hm => cases hm <;> exact .inl rfl
  | _ => exact .inl rfl

/-- The drain thread stays where it is or makes one of its moves. -/
theorem Move.drain_cases {cfg : BalancerConfig F} {s s' : State F} {ev : Event}
    (h : Move cfg ev s s') : s'.drain = s.drain ∨ DrainMove cfg ev.input s s' :=
  h.drain_or.imp_right And.right

/-- The step of another actor leaves the drain thread where it is. -/
theorem Move.drain_eq {cfg : BalancerConfig F} {s s' : State F} {ev : Event}
    (h : Move cfg ev s s') (hactor : ev.actor ≠ .drain) : s'.drain = s.drain :=
  h.drain_or.resolve_right fun hdrain => hactor hdrain.1

end FatpBalancer
