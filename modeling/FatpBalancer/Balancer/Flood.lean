/-
# Runs that only fill

Nothing bounds the number of jobs in flight: a node may take any number of jobs and finish none of
them.  For every number there is a run that leaves exactly that many accepted jobs in flight, each
through the whole of `submit`.

`Flooded` describes the state after `n` such jobs, and `Flooded.succ` adds one more, step by step
through `submit`; the machine's own rules for calls and dispatches at the end of their tables keep
the terms small.  It is used where a bound on the jobs in flight has to be shown necessary.
-/
import FatpBalancer.Balancer.Moves

universe u

namespace FatpBalancer

open Machine

variable {F : Type u} [FloatOps F]

/-! ## The newest call and the newest dispatch

A call that has just begun is the last row of its table, and stays so while it runs alone. -/

/-- The state with one more `submit` call. -/
def State.push (s : State F) (c : Call) : State F := { s with calls := s.calls ++ [c] }

/-- The state with one more dispatch. -/
def State.pushDispatch (s : State F) (d : Dispatch) : State F :=
  { s with dispatches := s.dispatches ++ [d] }

theorem submitAt_push (s : State F) (c : Call) (pc : SubmitPc) :
    (s.push c).submitAt s.calls.length c pc = s.push { c with pc := pc } := by
  simp [State.submitAt, State.push]

/-- The newest call takes a step. -/
theorem reach_push {cfg : BalancerConfig F} {s : State F} {c : Call} (inp : Input) (s' : State F)
    (hs : (balancer cfg).Reach anyEvent (s.push c))
    (h : submitStep cfg inp (s.push c) s.calls.length c = some s') :
    (balancer cfg).Reach anyEvent s' := by
  refine hs.step ⟨.submit s.calls.length, inp⟩ trivial ?_
  simpa [balancer, step, State.push] using h

/-- The newest call changes its program counter only. -/
theorem reach_push_goto {cfg : BalancerConfig F} {s : State F} {c : Call} (inp : Input)
    (pc : SubmitPc) (hs : (balancer cfg).Reach anyEvent (s.push c))
    (h : submitStep cfg inp (s.push c) s.calls.length c =
      some ((s.push c).submitAt s.calls.length c pc)) :
    (balancer cfg).Reach anyEvent (s.push { c with pc := pc }) := by
  rw [← submitAt_push]
  exact reach_push inp _ hs h

/-! ## One more job

The steps of one `submit`, from its entry to its return. -/

/-- One node, and every other setting at its default. -/
def oneNode : BalancerConfig Rat := { nodes := [0] }

/-- `n` jobs are accepted, none is finalised, and the next one will be accepted too. -/
structure Flooded (n : Nat) (s : State Rat) : Prop where
  length : s.calls.length = n
  accepted : ∀ c ∈ s.calls, ∃ handle, c.pc = .returned (.ok handle)
  unfinalized : s.finalized = []
  opened : s.m.mDraining = false
  unlimited : s.m.mAdmission.mGlobalBucket.mRate = 0 ∧ s.m.mAdmission.mNormalBucket.mRate = 0
  relaxed : s.m.mAdmission.mAdmissionStrict = false
  agingOff : s.m.mAgingEnabled = false
  handles : ∀ d ∈ s.dispatches, d.handle < n
  idle : s.switches = [] ∧ s.m.mSwitchMutex = false

variable {n : Nat} {s : State Rat}

/-- The next job passes the draining gate and the three admission layers. -/
theorem Flooded.accept (h : Flooded n s) (hs : (balancer oneNode).Reach anyEvent s) :
    (balancer oneNode).Reach anyEvent
      (State.push { s with m.mSubmittedCount := fetchAdd32 s.m.mSubmittedCount }
        { job := {}, pc := .select }) := by
  have hentered : (balancer oneNode).Reach anyEvent
      (State.push { s with m.mSubmittedCount := fetchAdd32 s.m.mSubmittedCount } { job := {} }) :=
    hs.step ⟨.submitCall {}, {}⟩ trivial rfl
  have hgate := reach_push_goto {} .gate hentered
    (by simp [submitStep, State.push, h.opened])
  have hglobal := reach_push_goto {} (.globalRate false) hgate
    (by simp [submitStep, Job.deadlinePassed, areAllEligibleOverloaded,
      areAllEligibleOverloaded.go])
  have hmodes := reach_push_goto {} (.modes false) hglobal
    (by simp [submitStep, State.push, AdmissionControl.checkGlobalRate, TokenBucket.tryConsume,
      h.unlimited])
  have hpriority := reach_push_goto {} (.priorityRate false) hmodes
    (by simp [submitStep, State.push, AdmissionControl.checkModes, Priority.holdable, h.relaxed])
  have hcapacity := reach_push_goto {} (.capacity false) hpriority
    (by simp [submitStep, State.push, AdmissionControl.checkPriorityRate, TokenBucket.tryConsume,
      h.unlimited])
  exact reach_push_goto {} .select hcapacity
    (by simp [submitStep, AdmissionControl.capacityVerdict])

/-- What selection and id assignment leave behind. -/
def assigned (s : State Rat) : State Rat :=
  { s with
    m.mSubmittedCount := fetchAdd32 s.m.mSubmittedCount
    m.mNextJobId := fetchAdd32 s.m.mNextJobId
    issued := s.issued + 1
    selections := (s.calls.length, s.m.mPolicy) :: s.selections }

/-- The dispatch of the next job; its handle is the number of jobs so far. -/
def nextDispatch (s : State Rat) : Dispatch where
  nodeId := 0
  handle := s.calls.length
  capturedJob := { id := s.m.mNextJobId }
  call := s.calls.length

def nextRegister (s : State Rat) : Register :=
  newRegister s 0 s.calls.length { id := s.m.mNextJobId }

/-- The node takes the next job. -/
theorem Flooded.dispatch (h : Flooded n s) (hs : (balancer oneNode).Reach anyEvent s) :
    (balancer oneNode).Reach anyEvent
      (((assigned s).pushDispatch (nextDispatch s)).push
        { job := {}, ordinal := some s.issued, pc := .countDispatched (nextRegister s) }) := by
  have hfree : handleFree s 0 s.calls.length = true := by
    simp only [handleFree, List.all_eq_true]
    intro d hd
    have : d.handle ≠ s.calls.length := Nat.ne_of_lt (h.length ▸ h.handles d hd)
    simp [this]
  have hselected := reach_push { selected := some 0 }
    (State.push
      { s with
        m.mSubmittedCount := fetchAdd32 s.m.mSubmittedCount
        selections := (s.calls.length, s.m.mPolicy) :: s.selections }
      { job := {}, pc := .assignId 0 })
    (h.accept hs)
    (by simp [submitStep, findNode, oneNode, State.push, State.submitAt])
  have hassigned := reach_push {}
    ((assigned s).push
      { job := {}, pc := .nodeSubmit 0 { id := s.m.mNextJobId }, ordinal := some s.issued })
    hselected
    (by simp [submitStep, State.push, assigned])
  refine reach_push { accepted := some s.calls.length } _ hassigned ?_
  simp [submitStep, State.push, State.pushDispatch, State.submitAt, acceptDispatch, nextRegister,
    newRegister, nextDispatch]
  exact ⟨hfree, rfl, rfl⟩

/-- `submit` registers the job a node has taken, and returns. -/
theorem registered (c : Call) (r : Register) (d : Dispatch)
    (hs : (balancer oneNode).Reach anyEvent
      ((s.pushDispatch d).push { c with pc := .countDispatched r }))
    (hstage : r.stage = .insert) (hposition : r.dispatch = s.dispatches.length)
    (hearly : d.regState.earlyCompletedJob = none) (hoff : s.m.mAgingEnabled = false) :
    (balancer oneNode).Reach anyEvent
      ((State.pushDispatch
          { s with
            m := insertRoutingState oneNode
              { s.m with mTotalSubmitted := s.m.mTotalSubmitted + 1 } r }
          (Dispatch.publish { d with routed := true, settled := true } r.handle)).push
        { c with pc := .returned (.ok r.handle) }) := by
  have hcounted := reach_push {}
    ((State.pushDispatch
      { s with m.mTotalSubmitted := s.m.mTotalSubmitted + 1 } d).push { c with pc := .register r })
    hs
    (by simp [submitStep, State.push, State.submitAt, State.pushDispatch])
  have hinserted := reach_push {}
    ((State.pushDispatch
      { s with
        m := insertRoutingState oneNode
          { s.m with mTotalSubmitted := s.m.mTotalSubmitted + 1 } r }
      { d with routed := true }).push { c with pc := .register { r with stage := .checkAging } })
    hcounted
    (by
      simp only [submitStep, registerStep, hstage]
      simp [hposition, modifyDispatch, State.push, State.submitAt, State.pushDispatch,
        List.modify_eq_set_getElem?])
  have hsettled := reach_push {}
    ((State.pushDispatch
      { s with
        m := insertRoutingState oneNode
          { s.m with mTotalSubmitted := s.m.mTotalSubmitted + 1 } r }
      { d with routed := true, settled := true }).push
        { c with pc := .register { r with stage := .publish } })
    hinserted
    (by
      simp only [submitStep, registerStep]
      simp [hposition, hoff, insertRoutingState, modifyDispatch, State.push, State.submitAt,
        State.pushDispatch, List.modify_eq_set_getElem?])
  refine reach_push {} _ hsettled ?_
  simp only [submitStep, registerStep]
  simp [hposition, hearly, State.push, State.submitAt, State.pushDispatch]

theorem Flooded.succ (h : Flooded n s) (hs : (balancer oneNode).Reach anyEvent s) :
    ∃ s', (balancer oneNode).Reach anyEvent s' ∧ Flooded (n + 1) s' := by
  refine ⟨_, registered { job := {}, ordinal := some s.issued } (nextRegister s) (nextDispatch s)
    (h.dispatch hs) rfl rfl rfl h.agingOff, ?_⟩
  constructor
  case length => simp [State.push, State.pushDispatch, assigned, h.length]
  case accepted =>
    intro c hc
    rcases List.mem_append.mp hc with hc | hc
    · exact h.accepted c hc
    · obtain rfl := List.mem_singleton.mp hc
      exact ⟨_, rfl⟩
  case unfinalized => exact h.unfinalized
  case opened => exact h.opened
  case unlimited => exact h.unlimited
  case relaxed => exact h.relaxed
  case agingOff => exact h.agingOff
  case handles =>
    intro d hd
    rcases List.mem_append.mp hd with hd | hd
    · exact Nat.lt_succ_of_lt (h.handles d hd)
    · obtain rfl := List.mem_singleton.mp hd
      exact Nat.lt_succ_of_le h.length.le
  case idle => exact h.idle

/-- Any number of accepted jobs can be in flight. -/
theorem flooded_reach (n : Nat) : ∃ s, (balancer oneNode).Reach anyEvent s ∧ Flooded n s := by
  induction n with
  | zero =>
      refine ⟨State.create oneNode, .init, rfl, ?_, rfl, rfl, ⟨rfl, rfl⟩, rfl, rfl, ?_, rfl, rfl⟩
      · simp [State.create]
      · simp [State.create]
  | succ n ih =>
      obtain ⟨s, hs, h⟩ := ih
      exact h.succ hs

end FatpBalancer
