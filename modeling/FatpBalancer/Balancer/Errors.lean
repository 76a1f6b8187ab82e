/-
# Calls that fail leave no trace

A `submit` that returns an error has counted itself, and may have reserved a holding slot; it gives
back what it took, whichever of its exits it leaves by.  The statements start from any state at all,
reachable or not, and run the one call alone.

A failing call has at most two things to give back, and `Owes` names both of them for each of its
program counters: its own count, and a reserved slot.  The step lemma says that a call pays its
debts or keeps them; when it returns an error it owes nothing, and all it has touched is the verdict
the gate has counted.  `Untaken` is the same for `cancel`, which writes nothing until it has taken
its job out.
-/
import FatpBalancer.Balancer.Accounting
import FatpBalancer.Balancer.Flood

universe u

namespace FatpBalancer

variable {F : Type u} [FloatOps F]

/-- The counters, the routing maps, the aging engine, the holding queue and the cost model agree. -/
structure Members.SameBooks (m m' : Members F) : Prop where
  submittedCount : m'.mSubmittedCount = m.mSubmittedCount
  totalSubmitted : m'.mTotalSubmitted = m.mTotalSubmitted
  totalCompleted : m'.mTotalCompleted = m.mTotalCompleted
  handleToJobInfo : m'.mHandleToJobInfo = m.mHandleToJobInfo
  jobIdToHandleMap : m'.mJobIdToHandleMap = m.mJobIdToHandleMap
  agingEngine : m'.mAgingEngine = m.mAgingEngine
  holdingQueue : m'.mHoldingQueue = m.mHoldingQueue
  holdingQueueDepth : m'.mAdmission.mHoldingQueueDepth = m.mAdmission.mHoldingQueueDepth
  costModel : m'.mCostModel = m.mCostModel

/-- A `submit` call all by itself, and a `cancel` call: the call and steps of it. -/
def submitAlone (s : State F) (job : Job) (inputs : List Input) : List Event :=
  { actor := .submitCall job } ::
    inputs.map fun input => { actor := .submit s.calls.length, input }

/-- A `cancel` call for this handle and some steps of it. -/
def cancelAlone (s : State F) (handle : JobHandle) (inputs : List Input) : List Event :=
  { actor := .cancelCall handle } ::
    inputs.map fun input => { actor := .cancel s.cancels.length, input }

/-! ## What a `submit` call owes

Read off the program counter; the job of an accepted call is no debt any more. -/

/-- The holding slots a call has reserved and neither used nor given back. -/
def SubmitPc.slots : SubmitPc → Nat
  | .holdId | .enqueue _ | .releaseSlot => 1
  | _ => 0

/-- What a call owes whose job is not accepted: its count, and the slot it has reserved. -/
structure Owes (m m' : Members F) (pc : SubmitPc) : Prop where
  submittedCount : m'.mSubmittedCount =
    if pc.rejected then m.mSubmittedCount else fetchAdd32 m.mSubmittedCount
  holdingQueueDepth : m'.mAdmission.mHoldingQueueDepth =
    m.mAdmission.mHoldingQueueDepth + pc.slots
  rest : m.SameBooks
    { m' with
      mSubmittedCount := m.mSubmittedCount
      mAdmission.mHoldingQueueDepth := m.mAdmission.mHoldingQueueDepth }

/-- A step that leaves the books alone and keeps what is owed. -/
theorem Owes.keep {m m' m'' : Members F} {pc pc' : SubmitPc} (h : Owes m m' pc)
    (hbooks : m'.SameBooks m'') (hrejected : pc'.rejected = pc.rejected) (hslots : pc'.slots = pc.slots) :
    Owes m m'' pc' where
  submittedCount := by
    rw [hbooks.submittedCount, hrejected]
    exact h.submittedCount
  holdingQueueDepth := by
    rw [hbooks.holdingQueueDepth, hslots]
    exact h.holdingQueueDepth
  rest := by
    have hrest := h.rest
    refine ⟨rfl, ?_, ?_, ?_, ?_, ?_, ?_, rfl, ?_⟩
    · exact hbooks.totalSubmitted.trans hrest.totalSubmitted
    · exact hbooks.totalCompleted.trans hrest.totalCompleted
    · exact hbooks.handleToJobInfo.trans hrest.handleToJobInfo
    · exact hbooks.jobIdToHandleMap.trans hrest.jobIdToHandleMap
    · exact hbooks.agingEngine.trans hrest.agingEngine
    · exact hbooks.holdingQueue.trans hrest.holdingQueue
    · exact hbooks.costModel.trans hrest.costModel

/-- Members that differ in the gate's tokens and verdicts only have the same books. -/
theorem Members.SameBooks.admission (m : Members F) {ac : AdmissionControl}
    (h : m.mAdmission.SameSlots ac) : m.SameBooks { m with mAdmission := ac } :=
  ⟨rfl, rfl, rfl, rfl, rfl, rfl, rfl, h.2, rfl⟩

/-- In the gate a call owes its count and no slot. -/
theorem SubmitPc.owes_of_gated {pc : SubmitPc} (h : pc.gated = true) :
    pc.rejected = false ∧ pc.slots = 0 := by
  cases pc <;> simp [SubmitPc.gated, SubmitPc.rejected, SubmitPc.slots] at h ⊢

/-- And so does a call that is about to leave. -/
theorem SubmitPc.owes_of_leaving {pc : SubmitPc} {error : SubmitError}
    (h : pc.leaving = some error) : pc.rejected = false ∧ pc.slots = 0 := by
  cases pc <;> simp [SubmitPc.leaving, SubmitPc.rejected, SubmitPc.slots] at h ⊢

/-- The call at position `i` has its job accepted, or owes exactly what its program counter says. -/
def Settles (m : Members F) (i : CallId) (s : State F) : Prop :=
  ∃ c, s.calls[i]? = some c ∧ (c.pc.accepted = true ∨ Owes m s.m c.pc)

/-- One step of a call whose job is not accepted. -/
theorem Owes.submit {cfg : BalancerConfig F} {m : Members F} {inp : Input} {s s' : State F}
    {i : CallId} {c : Call} (hcount : m.mSubmittedCount < 2 ^ 32) (hlen : i < s.calls.length)
    (hc : c.pc.accepted = false) (howes : Owes m s.m c.pc) (h : SubmitMove cfg inp s i c s') :
    Settles m i s' := by
  have hset : ∀ c' : Call, (s.calls.set i c')[i]? = some c' := fun c' =>
    List.getElem?_set_self hlen
  have hself : s.m.SameBooks s.m := ⟨rfl, rfl, rfl, rfl, rfl, rfl, rfl, rfl, rfl⟩
  cases h with
  | shut hpc | opened hpc | selected _ hpc | unselected _ hpc | refused _ _ hpc
  | notEnqueued _ _ hpc =>
      exact ⟨_, hset _, Or.inr (howes.keep hself (by rw [hpc]; rfl) (by rw [hpc]; rfl))⟩
  | assignId _ hpc | holdId hpc =>
      have hissued : s.m.SameBooks { s.m with mNextJobId := fetchAdd32 s.m.mNextJobId } :=
        ⟨rfl, rfl, rfl, rfl, rfl, rfl, rfl, rfl, rfl⟩
      exact ⟨_, hset _, Or.inr (howes.keep hissued (by rw [hpc]; rfl) (by rw [hpc]; rfl))⟩
  | reject ac error hpc hac =>
      obtain ⟨hrejected, hslots⟩ := SubmitPc.owes_of_gated hpc
      exact ⟨_, hset _, Or.inr (howes.keep (.admission s.m hac) hrejected.symm hslots.symm)⟩
  | advance ac pc hpc hpc' hac =>
      obtain ⟨hrejected, hslots⟩ := SubmitPc.owes_of_gated hpc
      refine ⟨_, hset _, Or.inr (howes.keep (.admission s.m hac) ?_ ?_)⟩
      · rw [hrejected]
        rcases hpc' with hgated | rfl
        · exact (SubmitPc.owes_of_gated hgated).1
        · rfl
      · rw [hslots]
        rcases hpc' with hgated | rfl
        · exact (SubmitPc.owes_of_gated hgated).2
        · rfl
  | reserve hpc hroom =>
      -- the slot is taken out of the depth and owed from here on
      refine ⟨_, hset _, Or.inr ⟨?_, ?_, howes.rest⟩⟩
      · have hcounted := howes.submittedCount
        rw [hpc] at hcounted
        exact hcounted
      · have hdepth := howes.holdingQueueDepth
        rw [hpc] at hdepth
        exact congrArg (· + 1) hdepth
  | releaseSlot hpc =>
      have hdepth := howes.holdingQueueDepth
      rw [hpc] at hdepth
      refine ⟨_, hset _, Or.inr ⟨?_, ?_, howes.rest⟩⟩
      · have hcounted := howes.submittedCount
        rw [hpc] at hcounted
        exact hcounted
      · show fetchSub32 s.m.mAdmission.mHoldingQueueDepth = _
        rw [hdepth]
        exact fetchSub32_of_pos (Nat.succ_pos _)
  | backOut error hpc =>
      obtain ⟨hrejected, hslots⟩ := SubmitPc.owes_of_leaving hpc
      refine ⟨_, hset _, Or.inr ⟨?_, ?_, howes.rest⟩⟩
      · have hcounted := howes.submittedCount
        rw [hrejected] at hcounted
        show fetchSub32 s.m.mSubmittedCount = m.mSubmittedCount
        rw [hcounted]
        exact fetchSub32_fetchAdd32 hcount
      · have hdepth := howes.holdingQueueDepth
        rw [hslots] at hdepth
        exact hdepth
  | enqueued | accepted => exact ⟨_, hset _, Or.inl rfl⟩
  | countHeld _ hpc | countDispatched _ hpc | register _ hpc =>
      rw [hpc] at hc
      cases hc

/-- An accepted job stays accepted. -/
theorem SubmitMove.accepted_kept {cfg : BalancerConfig F} {inp : Input} {s s' : State F} {i : CallId}
    {c : Call} (hlen : i < s.calls.length) (hc : c.pc.accepted = true)
    (h : SubmitMove cfg inp s i c s') :
    ∃ c', s'.calls[i]? = some c' ∧ c'.pc.accepted = true := by
  cases h with
  | countHeld | countDispatched => exact ⟨_, List.getElem?_set_self hlen, rfl⟩
  | @register r t r' hpc hr =>
      refine ⟨{ c with pc := r'.elim (.returned (.ok r.handle)) .register }, ?_, ?_⟩
      · rw [State.submitAt, hr.sameOutside.calls]
        exact List.getElem?_set_self hlen
      · cases r' <;> rfl
  | reject _ _ hpc | advance _ _ hpc =>
      cases hcpc : c.pc <;> simp [hcpc, SubmitPc.accepted, SubmitPc.gated] at hc hpc
  | backOut _ hpc =>
      cases hcpc : c.pc <;> simp [hcpc, SubmitPc.accepted, SubmitPc.leaving] at hc hpc
  | shut hpc | opened hpc | reserve hpc | holdId hpc | enqueued _ _ _ hpc | notEnqueued _ _ hpc
  | releaseSlot hpc | unselected _ hpc | selected _ hpc | assignId _ hpc | refused _ _ hpc
  | accepted _ _ _ hpc =>
      rw [hpc] at hc
      cases hc

/-- Along the whole run of the call. -/
theorem settles_run {cfg : BalancerConfig F} {s s' : State F} (hcount : s.m.mSubmittedCount < 2 ^ 32)
    {job : Job} {inputs : List Input}
    (h : (balancer cfg).run s (submitAlone s job inputs) = some s') :
    Settles s.m s.calls.length s' := by
  obtain ⟨t, ht, hrun⟩ := Option.bind_eq_some_iff.mp h
  obtain rfl := Option.some.inj ht
  refine Machine.run_invariant (I := Settles s.m s.calls.length) ?_ ?_ hrun
  · -- every step of the run is one of the call
    rintro u u' e he ⟨c, hc, hpaid⟩ hstep
    obtain ⟨inp, -, rfl⟩ := List.mem_map.mp he
    obtain ⟨c', hc', hstep⟩ := Option.bind_eq_some_iff.mp hstep
    obtain rfl := Option.some.inj (hc.symm.trans hc')
    have hlen := (List.getElem?_eq_some_iff.mp hc).1
    have hmove := submitStep_move hstep
    cases haccepted : c.pc.accepted with
    | true =>
        obtain ⟨c', hc', hkept⟩ := hmove.accepted_kept hlen haccepted
        exact ⟨c', hc', Or.inl hkept⟩
    | false =>
        have howes := hpaid.resolve_left (by simp [haccepted])
        exact howes.submit hcount hlen haccepted hmove
  · refine ⟨{ job }, by simp, Or.inr ⟨rfl, rfl, ?_⟩⟩
    exact ⟨rfl, rfl, rfl, rfl, rfl, rfl, rfl, rfl, rfl⟩

/-! ## What a `cancel` call has touched

The first write of a `cancel` is the removal from the queue, and over a node handle it is the node
that takes the job out. -/

/-- The call has not taken its job out of the system, and nothing has changed. -/
def Untaken (m : Members F) (c : Nat) (s : State F) : Prop :=
  ∃ call, s.cancels[c]? = some call ∧
    match call.pc with
    | .start | .askNode _ | .returned (.error _) => s.m = m
    | .releaseSlot _ | .finalize _ | .returned (.ok _) => True

/-- A step that does not take the job out writes nothing. -/
theorem CancelMove.untaken {cfg : BalancerConfig F} {inp : Input} {m : Members F}
    {s s' : State F} {c c' : CancelCall} (h : CancelMove cfg inp s c s' c')
    (hc : match c.pc with
      | .start | .askNode _ | .returned (.error _) => s.m = m
      | .releaseSlot _ | .finalize _ | .returned (.ok _) => True) :
    match c'.pc with
    | .start | .askNode _ | .returned (.error _) => s'.m = m
    | .releaseSlot _ | .finalize _ | .returned (.ok _) => True := by
  cases h with
  | notHeld hpc | notRouted hpc | noNode _ hpc | ask _ hpc | refused _ _ hpc =>
      rw [hpc] at hc
      exact hc
  | removed | releaseSlot | hit => trivial
  | @finalize f t f' => cases f' <;> trivial

/-- Along the whole run of the call. -/
theorem untaken_run {cfg : BalancerConfig F} {s s' : State F} {handle : JobHandle}
    {inputs : List Input} (h : (balancer cfg).run s (cancelAlone s handle inputs) = some s') :
    Untaken s.m s.cancels.length s' := by
  obtain ⟨t, ht, hrun⟩ := Option.bind_eq_some_iff.mp h
  obtain rfl := Option.some.inj ht
  refine Machine.run_invariant (I := Untaken s.m s.cancels.length) ?_ ?_ hrun
  · rintro u u' e he ⟨call, hcall, htouched⟩ hstep
    obtain ⟨inp, -, rfl⟩ := List.mem_map.mp he
    obtain ⟨call', hcall', hstep⟩ := Option.bind_eq_some_iff.mp hstep
    obtain rfl := Option.some.inj (hcall.symm.trans hcall')
    obtain ⟨r, hr, rfl⟩ := Option.map_eq_some_iff.mp hstep
    have hmove := cancelStep_move hr
    have hlen := (List.getElem?_eq_some_iff.mp hcall).1
    refine ⟨r.2, ?_, hmove.untaken htouched⟩
    rw [hmove.threads.2.1]
    exact List.getElem?_set_self hlen
  · exact ⟨{ handle, target := targetOf s handle }, by simp, rfl⟩

/-! ## The two calls

A state, one call, and the steps of that call alone. -/

/-- **Failed calls leave no trace.**  From any state, with any nodes, policy and job: a `submit` that
returns an error, by whichever exit, leaves the counters, the routing maps, the tracked jobs, the
holding queue with its depth and the cost model as they were before the call, and so does a `cancel`
that returns an error. -/
theorem failed_calls_leave_no_trace (cfg : BalancerConfig F) (s : State F)
    (hcount : s.m.mSubmittedCount < 2 ^ 32) :
    (∀ job inputs s' c error, (balancer cfg).run s (submitAlone s job inputs) = some s' →
      s'.calls[s.calls.length]? = some c → c.pc = .returned (.error error) →
      s.m.SameBooks s'.m) ∧
    (∀ handle inputs s' c error, (balancer cfg).run s (cancelAlone s handle inputs) = some s' →
      s'.cancels[s.cancels.length]? = some c → c.pc = .returned (.error error) →
      s.m.SameBooks s'.m) := by
  constructor
  · intro job inputs s' c error hrun hc hpc
    obtain ⟨c', hc', hpaid⟩ := settles_run hcount hrun
    obtain rfl := Option.some.inj (hc.symm.trans hc')
    rw [hpc] at hpaid
    have howes := hpaid.resolve_left (by rintro ⟨⟩)
    have hrest := howes.rest
    exact ⟨howes.submittedCount, hrest.totalSubmitted, hrest.totalCompleted,
      hrest.handleToJobInfo, hrest.jobIdToHandleMap, hrest.agingEngine, hrest.holdingQueue,
      howes.holdingQueueDepth, hrest.costModel⟩
  · intro handle inputs s' c error hrun hc hpc
    obtain ⟨c', hc', htouched⟩ := untaken_run hrun
    obtain rfl := Option.some.inj (hc.symm.trans hc')
    rw [hpc] at htouched
    have hsame : s'.m = s.m := htouched
    rw [hsame]
    exact ⟨rfl, rfl, rfl, rfl, rfl, rfl, rfl, rfl, rfl⟩

theorem exists_of_rejected {pc : SubmitPc} (h : pc.rejected = true) :
    ∃ error, pc = .returned (.error error) := by
  unfold SubmitPc.rejected at h
  split at h
  · exact ⟨_, rfl⟩
  · cases h

/-- A job that passes the gate and that the chosen node refuses. -/
theorem failed_calls_leave_no_trace_refused :
    ∃ s', (balancer oneNode).run (.create oneNode)
        (submitAlone (.create oneNode) {} (List.replicate 10 { selected := some 0 })) = some s' ∧
      (State.create oneNode).m.SameBooks s'.m := by
  have hrejected : ((balancer oneNode).run (.create oneNode)
      (submitAlone (.create oneNode) {} (List.replicate 10 { selected := some 0 }))).any
        (fun s' => (s'.calls[0]?).any fun c => c.pc.rejected) = true := by
    decide +kernel
  obtain ⟨s', hrun, hcalls⟩ := (Option.any_eq_true _ _).mp hrejected
  obtain ⟨c, hc, hpc⟩ := (Option.any_eq_true _ _).mp hcalls
  obtain ⟨error, hpc⟩ := exists_of_rejected hpc
  exact ⟨s', hrun,
    (failed_calls_leave_no_trace oneNode _ (by decide)).1 _ _ s' c error hrun hc hpc⟩

end FatpBalancer
