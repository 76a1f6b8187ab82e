/-
# The balancer: nothing waits for ever

Every call, every callback and the two background threads' dealings with a job have only so many
steps to take.  The steps left are counted here; each step that is taken makes them fewer, whatever
the other threads do in between.

The compare-and-swap loop of `tryReserveHoldingSlot` is the exception: a call whose reading of the
depth is stale goes round once more.  Another thread has changed the depth then, so that it is the
others' steps that pay for it.  Left out are spurious failures of the exchange, which could go on for
ever, the background threads' waking up, and `switchPolicy` and `setAgingEnabled`, which wait by
design.

`work` is a number for each program counter, larger than that of every counter the thread can go to
next; `State.work` adds them up.  `Pays` is what a step is shown to do: either the work goes down by
at least one, with `cost` units to spare for the node that has accepted a job, or the work stays and
a stale reading of the depth has become fresh.  The measure of a state is therefore a pair, ordered
by the work first and the number of stale readings second.

The last part is the other half of progress: a thread that has not returned can take its next step,
whatever the state, as long as the node it is asking answers.
-/
import FatpBalancer.Balancer.History

universe u

namespace FatpBalancer

variable {F : Type u} [FloatOps F] {cfg : BalancerConfig F} {s s' : State F} {ev : Event}
  {inp : Input}

/-! ## The steps left

The numbers are upper bounds, since the branches of a call differ in length. -/

/-- The stages that are left of a finalisation. -/
def FinalizeStage.work : FinalizeStage → Nat
  | .learn => 5
  | .count => 4
  | .untrack => 3
  | .unroute => 2
  | .release => 1

/-- The stages that are left of a registration, with room for the finalisation of an early-completed
job. -/
def RegisterStage.work : RegisterStage → Nat
  | .insert => 10
  | .checkAging => 9
  | .track => 8
  | .publish => 7
  | .finalize f => f.stage.work + 1

/-- What the callback of a dispatch has left to do. -/
def NodeSide.work : NodeSide → Nat
  | .live => 8
  | .finished _ _ => 7
  | .calling f => f.stage.work + 1
  | .called | .cancelled => 0

/-- A call that gets a job onto a node pays for the callback and for the task too. -/
def SubmitPc.work : SubmitPc → Nat
  | .entered => 41
  | .gate => 40
  | .globalRate _ => 39
  | .modes _ => 38
  | .priorityRate _ => 37
  | .capacity _ => 36
  | .reserving none => 35
  | .reserving (some _) => 34
  | .select => 32
  | .assignId _ => 31
  | .nodeSubmit _ _ => 30
  | .countDispatched r => r.stage.work + 2
  | .register r => r.stage.work + 1
  | .holdId => 4
  | .enqueue _ => 3
  | .releaseSlot => 2
  | .countHeld _ | .turnedAway | .backOut _ => 1
  | .returned _ => 0

/-- The steps left of a `cancel`, its finalisation included. -/
def CancelPc.work : CancelPc → Nat
  | .start => 8
  | .releaseSlot _ | .askNode _ => 7
  | .finalize f => f.stage.work + 1
  | .returned _ => 0

/-- The steps the drain thread has left with the entry in its hands. -/
def DrainPc.work : DrainPc → Nat
  | .waiting | .looping => 0
  | .entry _ => 40
  | .select _ => 31
  | .nodeSubmit _ _ => 30
  | .releaseSlot r => r.stage.work + 2
  | .register r => r.stage.work + 1
  | .dropRelease _ => 7
  | .dropping f => f.stage.work + 1
  | .requeue _ => 1

/-- The steps the aging thread has left until the end of its tick. -/
def AgingPc.work : AgingPc → Nat
  | .events aged expired => 1 + aged.length + 11 * expired.length
  | .cancelling c expired => 2 + c.pc.work + 11 * expired.length
  | _ => 0

/-- The steps left of all `submit` calls. -/
def callsWork (calls : List Call) : Nat := Table.total (fun c => c.pc.work) calls

/-- The steps left of all callbacks. -/
def dispatchesWork (dispatches : List Dispatch) : Nat := Table.total (fun d => d.side.work) dispatches

/-- The steps left of the users' `cancel` calls. -/
def cancelsWork (cancels : List CancelCall) : Nat := Table.total (fun c => c.pc.work) cancels

/-- The steps left of all threads together. -/
def State.work (s : State F) : Nat :=
  callsWork s.calls + dispatchesWork s.dispatches + cancelsWork s.cancels + s.drain.work +
    s.aging.work

/-- Another thread has changed the depth since this call has read it. -/
def SubmitPc.isStale (depth : Nat) : SubmitPc → Bool
  | .reserving (some current) => current != depth
  | _ => false

/-- The calls whose next exchange must fail. -/
def State.stale (s : State F) : Nat :=
  s.calls.countP fun c => c.pc.isStale s.m.mAdmission.mHoldingQueueDepth

/-! ## What a step pays

A step makes at most one table shorter of work, and whatever it hands to another table is already
counted in its own. -/

/-- A finalisation comes closer to its end. -/
theorem FinalizeMove.work_lt {f : Finalize} {f' : Option Finalize} (h : FinalizeMove s f s' f') :
    f'.elim 0 (fun f' => f'.stage.work + 1) < f.stage.work + 1 := by
  cases h with
  | learn hstage | skip hstage | count hstage => simp [FinalizeStage.work, hstage]
  | untrack hstage | held hstage | release hstage => simp [FinalizeStage.work, hstage]
  | unroute handle hstage => simp [FinalizeStage.work, hstage]

/-- Its flags are no work for the callbacks. -/
theorem FinalizeMove.dispatchesWork_eq {f : Finalize} {f' : Option Finalize}
    (h : FinalizeMove s f s' f') : dispatchesWork s'.dispatches = dispatchesWork s.dispatches :=
  total_core (fun _ => rfl) h.dispatches_core

/-- A registration comes closer to its end. -/
theorem RegisterMove.work_lt {r : Register} {r' : Option Register}
    (h : RegisterMove cfg inp s r s' r') :
    r'.elim 0 (fun r' => r'.stage.work + 1) < r.stage.work + 1 := by
  cases h with
  | @finalize f _ f' hstage hf =>
      have hlt := hf.work_lt
      rw [hstage]
      cases f' with
      | none => exact Nat.succ_pos _
      | some f' => exact Nat.succ_lt_succ hlt
  | insert hstage | agingOn hstage | agingOff hstage => simp [RegisterStage.work, hstage]
  | track hstage | noDispatch hstage => simp [RegisterStage.work, hstage]
  | publish d hstage => simp [RegisterStage.work, hstage]
  | publishEarly d job hstage => simp [RegisterStage.work, FinalizeStage.work, hstage]

/-- Publication is no work for the callbacks either. -/
theorem RegisterMove.dispatchesWork_eq {r : Register} {r' : Option Register}
    (h : RegisterMove cfg inp s r s' r') :
    dispatchesWork s'.dispatches = dispatchesWork s.dispatches := by
  cases h with
  | agingOn | noDispatch => rfl
  | insert | agingOff | track => exact total_core (fun _ => rfl) (modifyDispatch_core fun _ => rfl)
  | publish d hstage hd => exact Table.total_set_eq hd rfl
  | publishEarly d job hstage hd => exact Table.total_set_eq hd rfl
  | finalize f hstage hf => exact hf.dispatchesWork_eq

/-- A callback comes closer to its end. -/
theorem NodeMove.dispatchesWork_lt {k : Nat} {d : Dispatch} (h : NodeMove inp s k d s')
    (hd : s.dispatches[k]? = some d) :
    dispatchesWork s'.dispatches < dispatchesWork s.dispatches := by
  have hset : ∀ (l : List Dispatch) (d d' : Dispatch), l[k]? = some d →
      d'.side.work < d.side.work → dispatchesWork (l.set k d') < dispatchesWork l := by
    intro l d d' hl hlt
    have htraded := Table.total_set (w := fun d : Dispatch => d.side.work) hl d'
    simp only [dispatchesWork]
    omega
  cases h with
  | finish hside =>
      refine hset _ _ _ hd ?_
      simp [NodeSide.work, hside]
  | early completed succeeded hside hpublished =>
      refine hset _ _ _ hd ?_
      simp [NodeSide.work, hside]
  | enter completed succeeded hside hpublished =>
      refine hset _ _ _ hd ?_
      simp [NodeSide.work, FinalizeStage.work, hside]
  | @finalize f t f' hside hf =>
      obtain ⟨d₁, hd₁, hcore⟩ := getElem?_core hf.dispatches_core hd
      have hside₁ : d₁.side = .calling f := (congrArg Dispatch.side hcore).trans hside
      have hlt := hf.work_lt
      rw [← hf.dispatchesWork_eq]
      simp only [modifyDispatch, Table.modify_eq_set hd₁]
      refine hset _ _ _ hd₁ ?_
      rw [hside₁]
      cases f' with
      | none => exact Nat.succ_pos _
      | some f' => exact hlt

/-- The step uses up `cost` units of work and one for itself, or makes a stale reading fresh. -/
structure Pays (work : State F → Nat) (cost : Nat) (s s' : State F) : Prop where
  calls : s'.calls.length = s.calls.length
  pays : work s' + cost < work s ∨ cost = 0 ∧ work s' ≤ work s ∧ s'.stale < s.stale

/-- There are no more stale calls than calls. -/
theorem State.stale_le (s : State F) : s.stale ≤ s.calls.length := List.countP_le_length

/-! ## Submit

The branches up to the exchange of `tryReserveHoldingSlot` go down in work; the exchange goes round
when its reading is stale, and then makes the reading fresh. -/

/-- The call is inside a node's `submit`. -/
def SubmitPc.isSubmitting : SubmitPc → Bool
  | .nodeSubmit _ _ => true
  | _ => false

/-- What a node is given to do when it accepts a job. -/
def SubmitPc.cost (pc : SubmitPc) : Nat := if pc.isSubmitting then 6 else 0

section Submit

variable {i : CallId} {c c' : Call}

/-- A call goes on and leaves the other threads where they are. -/
theorem Pays.submit {cost : Nat} (hc : s.calls[i]? = some c) (hcalls : s'.calls = s.calls.set i c')
    (hcancels : s'.cancels = s.cancels) (hdrain : s'.drain = s.drain) (haging : s'.aging = s.aging)
    (h : dispatchesWork s'.dispatches + c'.pc.work + cost <
      dispatchesWork s.dispatches + c.pc.work) : Pays State.work cost s s' where
  calls := by rw [hcalls, List.length_set]
  pays := by
    have htraded := Table.total_set (w := fun c : Call => c.pc.work) hc c'
    simp only [State.work, callsWork, hcalls, hcancels, hdrain, haging]
    omega

/-- Every outcome of a step of `submit` outside the gate. -/
theorem SubmitMove.pays (h : SubmitMove cfg inp s i c s') (hc : s.calls[i]? = some c)
    (hgated : c.pc.gated = false) : Pays State.work c.pc.cost s s' := by
  cases h with
  | reject ac error hpc => simp [hgated] at hpc
  | advance ac pc hpc => simp [hgated] at hpc
  | reserve hpc => simp [hpc, SubmitPc.gated] at hgated
  | @register r t r' hpc hr =>
      have hlt := hr.work_lt
      have hout := hr.sameOutside
      have hcalls : (t.submitAt i c (r'.elim (.returned (.ok r.handle)) .register)).calls =
          s.calls.set i { c with pc := r'.elim (.returned (.ok r.handle)) .register } := by
        rw [State.submitAt, hout.calls]
      refine .submit hc hcalls hout.cancels hout.drain hout.aging ?_
      simp only [State.submitAt, hr.dispatchesWork_eq, hpc, SubmitPc.cost, SubmitPc.isSubmitting,
        SubmitPc.work]
      cases r' with
      | none => simp
      | some r' => simpa [SubmitPc.work] using hlt
  | accepted nodeId job handle hpc hin hfree =>
      refine .submit hc rfl rfl rfl rfl ?_
      simp [hpc, SubmitPc.cost, SubmitPc.isSubmitting, SubmitPc.work, State.submitAt,
        acceptDispatch, dispatchesWork, NodeSide.work, newRegister, RegisterStage.work]
  | backOut error hpc =>
      refine .submit hc rfl rfl rfl rfl ?_
      cases hpc' : c.pc <;> rw [hpc'] at hpc <;>
        first
        | cases hpc; done
        | simp [SubmitPc.cost, SubmitPc.isSubmitting, SubmitPc.work, State.submitAt]
  | shut hpc | opened hpc | holdId hpc | enqueued _ _ _ hpc | notEnqueued _ _ hpc =>
      exact .submit hc rfl rfl rfl rfl
        (by simp [hpc, SubmitPc.cost, SubmitPc.isSubmitting, SubmitPc.work, State.submitAt])
  | releaseSlot hpc | countHeld _ hpc | unselected _ hpc | selected _ hpc | assignId _ hpc =>
      exact .submit hc rfl rfl rfl rfl
        (by simp [hpc, SubmitPc.cost, SubmitPc.isSubmitting, SubmitPc.work, State.submitAt])
  | refused _ _ hpc | countDispatched _ hpc =>
      exact .submit hc rfl rfl rfl rfl
        (by simp [hpc, SubmitPc.cost, SubmitPc.isSubmitting, SubmitPc.work, State.submitAt])

/-- An admission layer lets the job through to a later point, or turns it away. -/
theorem Pays.goto (hc : s.calls[i]? = some c) (ac : AdmissionControl) {pc : SubmitPc}
    (h : pc.work < c.pc.work) :
    Pays State.work 0 s (State.submitAt { s with m.mAdmission := ac } i c pc) :=
  .submit hc rfl rfl rfl rfl (by simpa [State.submitAt] using h)

theorem Pays.verdict (hc : s.calls[i]? = some c) (r : Option SubmitError × AdmissionControl)
    {next : SubmitPc} (hnext : next.work < c.pc.work) (hleave : 1 < c.pc.work) :
    Pays State.work 0 s (State.submitAt { s with m.mAdmission := r.2 } i c (r.1.elim next .backOut)) := by
  cases r.1 with
  | none => exact .goto hc r.2 hnext
  | some error => exact .goto hc r.2 hleave

/-- A stale reading is made fresh. -/
theorem Pays.reload (hc : s.calls[i]? = some c) {current : Nat}
    (hpc : c.pc = .reserving (some current)) (hstale : s.m.mAdmission.mHoldingQueueDepth ≠ current) :
    Pays State.work 0 s (s.submitAt i c (.reserving (some s.m.mAdmission.mHoldingQueueDepth))) where
  calls := by simp [State.submitAt]
  pays := by
    refine .inr ⟨rfl, Nat.le_of_eq ?_, ?_⟩
    · simp only [State.work, State.submitAt, callsWork]
      rw [Table.total_set_eq hc]
      simp [hpc, SubmitPc.work]
    · have hold : c.pc.isStale s.m.mAdmission.mHoldingQueueDepth = true := by
        rw [hpc]
        exact bne_iff_ne.mpr hstale.symm
      have hfresh : SubmitPc.isStale s.m.mAdmission.mHoldingQueueDepth
          (.reserving (some s.m.mAdmission.mHoldingQueueDepth)) = false := by
        simp [SubmitPc.isStale]
      have hcount := Table.countP_set
        (p := fun c : Call => c.pc.isStale s.m.mAdmission.mHoldingQueueDepth) hc
        { c with pc := .reserving (some s.m.mAdmission.mHoldingQueueDepth) }
      rw [hold, hfresh, Bool.toNat_true, Bool.toNat_false, Nat.add_zero] at hcount
      simp only [State.stale, State.submitAt]
      exact Nat.lt_of_succ_le hcount.le

/-- The layers of the gate, the exchange included. -/
theorem submitStep_pays_gated (h : submitStep cfg inp s i c = some s') (hc : s.calls[i]? = some c)
    (hgated : c.pc.gated = true) (hspurious : inp.spurious = false) : Pays State.work 0 s s' := by
  cases hpc : c.pc <;> simp only [submitStep, hpc, Option.some.injEq] at h <;> rw [hpc] at hgated
  case gate =>
    subst h
    split <;> exact .goto hc s.m.mAdmission (by simp [hpc, SubmitPc.work])
  case globalRate saturated =>
    subst h
    exact .verdict hc _ (by simp [hpc, SubmitPc.work]) (by simp [hpc, SubmitPc.work])
  case modes saturated =>
    subst h
    exact .verdict hc _ (by simp [hpc, SubmitPc.work]) (by simp [hpc, SubmitPc.work])
  case priorityRate saturated =>
    subst h
    exact .verdict hc _ (by simp [hpc, SubmitPc.work]) (by simp [hpc, SubmitPc.work])
  case capacity saturated =>
    split at h <;> cases h
    · exact .goto hc s.m.mAdmission (by simp [hpc, SubmitPc.work])
    · exact .goto hc s.m.mAdmission (by simp [hpc, SubmitPc.work])
    · exact .goto hc _ (by simp [hpc, SubmitPc.work])
  case reserving current =>
    cases current with
    | none =>
        cases h
        exact .goto hc s.m.mAdmission (by simp [hpc, SubmitPc.work])
    | some current =>
        dsimp only at h
        split at h
        · cases h
          exact .goto hc _ (by simp [hpc, SubmitPc.work])
        · split at h
          · next hcas =>
              cases h
              rw [hspurious] at hcas
              exact .reload hc hpc (by simpa using hcas)
          · cases h
            exact .goto hc _ (by simp [hpc, SubmitPc.work])
  all_goals cases hgated

end Submit

/-! ## The other threads

A `cancel` call and the two background threads have no loop of their own; what they repeat, they
repeat for another entry or another expired job. -/

/-- A `cancel` call comes closer to its end. -/
theorem CancelMove.pays {c c' : CancelCall} {t : State F} (h : CancelMove cfg inp s c t c') :
    dispatchesWork t.dispatches + c'.pc.work < dispatchesWork s.dispatches + c.pc.work := by
  cases h with
  | notHeld hpc | removed _ _ hpc | notRouted hpc | noNode _ hpc | ask _ hpc | refused _ _ hpc =>
      simp [hpc, CancelPc.work]
  | releaseSlot entry hpc => simp [hpc, CancelPc.work, onDoneFailed, FinalizeStage.work]
  | hit info k d hpc hd hnode hhandle hlive hreply =>
      have htraded := Table.total_set (w := fun d : Dispatch => d.side.work) hd
        { d with side := .cancelled }
      have hdead : ({ d with side := .cancelled } : Dispatch).side.work = 0 := rfl
      have hwork : d.side.work = 8 := by rw [hlive]; rfl
      simp only [modifyDispatch, Table.modify_eq_set hd, dispatchesWork, hpc, CancelPc.work,
        FinalizeStage.work]
      omega
  | @finalize f t f' hpc hf =>
      have hlt := hf.work_lt
      rw [hf.dispatchesWork_eq, hpc]
      cases f' with
      | none => simp [CancelPc.work]
      | some f' => simpa [CancelPc.work] using hlt

/-- The drain thread is inside a node's `submit`. -/
def DrainPc.isSubmitting : DrainPc → Bool
  | .nodeSubmit _ _ => true
  | _ => false

/-- What a node is given to do if it accepts the entry. -/
def DrainPc.cost (pc : DrainPc) : Nat := if pc.isSubmitting then 6 else 0

/-- Between two entries of the holding queue. -/
def DrainPc.isBusy : DrainPc → Bool
  | .waiting | .looping => false
  | _ => true

/-- The drain thread comes closer to being done with the entry in its hands. -/
theorem DrainMove.work_lt (h : DrainMove cfg inp s s') (hbusy : s.drain.isBusy = true) :
    dispatchesWork s'.dispatches + s'.drain.work + s.drain.cost <
      dispatchesWork s.dispatches + s.drain.work := by
  cases h with
  | wake hpc | drained hpc | take _ _ hpc => simp [hpc, DrainPc.isBusy] at hbusy
  | drop _ hpc | saturated _ hpc | offer _ hpc | unselected _ hpc | selected _ _ hpc =>
      simp [hpc, DrainPc.cost, DrainPc.isSubmitting, DrainPc.work]
  | refused _ _ hpc | requeued _ _ _ hpc | lost _ _ hpc | releaseSlot _ hpc =>
      simp [hpc, DrainPc.cost, DrainPc.isSubmitting, DrainPc.work]
  | dropRelease entry hpc =>
      simp [hpc, DrainPc.cost, DrainPc.isSubmitting, DrainPc.work, onDoneFailed,
        FinalizeStage.work]
  | accepted nodeId entry handle hpc hin hfree =>
      simp [hpc, DrainPc.cost, DrainPc.isSubmitting, DrainPc.work, acceptDispatch, dispatchesWork,
        NodeSide.work, newRegister, RegisterStage.work]
  | @dropping f t f' hpc hf =>
      have hlt := hf.work_lt
      simp only [hf.dispatchesWork_eq, hpc, DrainPc.cost, DrainPc.isSubmitting]
      cases f' with
      | none => simp [DrainPc.work]
      | some f' => simpa [DrainPc.work] using hlt
  | @register r t r' hpc hr =>
      have hlt := hr.work_lt
      simp only [hr.dispatchesWork_eq, hpc, DrainPc.cost, DrainPc.isSubmitting]
      cases r' with
      | none => simp [DrainPc.work]
      | some r' => simpa [DrainPc.work] using hlt

/-- And pays for what it gives a node to do. -/
theorem DrainMove.pays (h : DrainMove cfg inp s s') (hbusy : s.drain.isBusy = true) :
    Pays State.work s.drain.cost s s' := by
  obtain ⟨hcalls, hcancels, -, haging⟩ := h.threads
  have hlt := h.work_lt hbusy
  refine ⟨by rw [hcalls], .inl ?_⟩
  simp only [State.work, hcalls, hcancels, haging]
  omega

/-- Between two ticks. -/
def AgingPc.isBusy : AgingPc → Bool
  | .events _ _ | .cancelling _ _ => true
  | _ => false

/-- The aging thread comes closer to the end of its tick. -/
theorem agingStep_pays (h : agingStep cfg inp s = some s') (hbusy : s.aging.isBusy = true) :
    Pays State.work 0 s s' := by
  rcases agingStep_move h with hm | ⟨c, expired, t, c', hpc, hm, rfl⟩
  · cases hm with
    | exit hpc | wake hpc | tick hpc => simp [hpc, AgingPc.isBusy] at hbusy
    | aged e aged expired hpc =>
        refine ⟨rfl, .inl ?_⟩
        simp [State.work, hpc, AgingPc.work]
    | gone e expired hpc hid =>
        refine ⟨rfl, .inl ?_⟩
        simp [State.work, hpc, AgingPc.work]
    | expire e expired handle hpc hid =>
        refine ⟨rfl, .inl ?_⟩
        simp [State.work, hpc, AgingPc.work, CancelPc.work]
        omega
    | rest hpc =>
        refine ⟨rfl, .inl ?_⟩
        simp [State.work, hpc, AgingPc.work]
    | cancelled c expired result hpc hc =>
        refine ⟨rfl, .inl ?_⟩
        simp [State.work, hpc, AgingPc.work, hc, CancelPc.work]
  · obtain ⟨hcalls, hcancels, -, hdrain, -⟩ := hm.threads
    have hlt := hm.pays
    refine ⟨by rw [hcalls], .inl ?_⟩
    simp only [State.work, hcalls, hcancels, hdrain, hpc, AgingPc.work]
    omega

/-! ## Every step of a call pays

The parts together, with the condition that the step is one of a thread that is dealing with a job.
-/

/-- A thread that is dealing with a job; an exchange that fails spuriously is no step of it. -/
def State.busy (s : State F) (ev : Event) : Bool :=
  match ev.actor with
  | .submit _ => !ev.input.spurious
  | .node _ | .cancel _ => true
  | .drain => s.drain.isBusy
  | .aging => s.aging.isBusy
  | _ => false

/-- What a node is given to do if it accepts the job of this step. -/
def State.cost (s : State F) : Actor → Nat
  | .submit i => (s.calls[i]?).elim 0 fun c => c.pc.cost
  | .drain => s.drain.cost
  | _ => 0

theorem step_pays (h : step cfg s ev = some s') (hbusy : s.busy ev = true) :
    Pays State.work (s.cost ev.actor) s s' := by
  cases hactor : ev.actor <;> simp only [State.busy, hactor, Bool.false_eq_true] at hbusy <;>
    simp only [step, hactor] at h
  case submit i =>
    obtain ⟨c, hc, h⟩ := Option.bind_eq_some_iff.mp h
    rw [State.cost, hc, Option.elim_some]
    cases hgated : c.pc.gated with
    | false => exact (submitStep_move h).pays hc hgated
    | true =>
        have hzero : c.pc.cost = 0 := by
          cases hpc : c.pc <;> rw [hpc] at hgated <;> first | rfl | cases hgated
        rw [hzero]
        exact submitStep_pays_gated h hc hgated (by simpa using hbusy)
  case node k =>
    obtain ⟨d, hd, h⟩ := Option.bind_eq_some_iff.mp h
    have hm := nodeStep_move h
    obtain ⟨hcalls, hcancels, -, hdrain, haging⟩ := hm.threads
    have hlt := hm.dispatchesWork_lt hd
    refine ⟨by rw [hcalls], .inl ?_⟩
    simp only [State.work, hcalls, hcancels, hdrain, haging, State.cost]
    omega
  case cancel k =>
    obtain ⟨c, hc, h⟩ := Option.bind_eq_some_iff.mp h
    obtain ⟨r, hr, rfl⟩ := Option.map_eq_some_iff.mp h
    have hm := cancelStep_move hr
    obtain ⟨hcalls, hcancels, -, hdrain, haging⟩ := hm.threads
    have hlt := hm.pays
    have htraded := Table.total_set (w := fun c : CancelCall => c.pc.work) hc r.2
    refine ⟨by rw [hcalls], .inl ?_⟩
    simp only [State.work, cancelsWork, hcalls, hcancels, hdrain, haging, State.cost]
    omega
  case drain => exact (drainStep_move h).pays hbusy
  case aging => exact agingStep_pays h hbusy

/-! ## No thread is stuck by itself

No thread waits for another one in the middle of a call: the locks of the source are held inside
single steps of the model, and the exchange always has an outcome. -/

/-- No work left means that the call has returned. -/
theorem SubmitPc.returned_of_work {pc : SubmitPc} (h : pc.work = 0) :
    ∃ result, pc = .returned result := by
  unfold SubmitPc.work at h
  split at h <;> first | exact ⟨_, rfl⟩ | omega

/-- No work left means that the call has returned. -/
theorem CancelPc.returned_of_work {pc : CancelPc} (h : pc.work = 0) :
    ∃ result, pc = .returned result := by
  unfold CancelPc.work at h
  split at h <;> first | exact ⟨_, rfl⟩ | omega

/-- A call that has not returned goes on, but for the node's answer. -/
theorem exists_submitStep (cfg : BalancerConfig F) (inp : Input) (s : State F) (i : CallId)
    {c : Call} (hreturned : c.pc.work ≠ 0) (hsubmitting : c.pc.isSubmitting = false) :
    ∃ s', submitStep cfg inp s i c = some s' := by
  cases hpc : c.pc <;> simp only [submitStep, hpc] <;> rw [hpc] at hreturned hsubmitting
  case capacity saturated =>
    split <;> exact ⟨_, rfl⟩
  case reserving current =>
    cases current with
    | none => exact ⟨_, rfl⟩
    | some current =>
        dsimp only
        split
        · exact ⟨_, rfl⟩
        · split <;> exact ⟨_, rfl⟩
  case enqueue job =>
    split <;> exact ⟨_, rfl⟩
  case select =>
    split
    · exact ⟨_, rfl⟩
    · split <;> exact ⟨_, rfl⟩
  case nodeSubmit nodeId job => cases hsubmitting
  case returned result => exact absurd rfl hreturned
  all_goals exact ⟨_, rfl⟩

/-- The call waits for a node's answer to `cancel`. -/
def CancelPc.isAsking : CancelPc → Bool
  | .askNode _ => true
  | _ => false

/-- A `cancel` call that is not waiting for a node can go on. -/
theorem exists_cancelStep (cfg : BalancerConfig F) (inp : Input) (s : State F) {c : CancelCall}
    (hreturned : c.pc.work ≠ 0) (hasking : c.pc.isAsking = false) :
    ∃ r, cancelStep cfg inp s c = some r := by
  cases hpc : c.pc <;> simp only [cancelStep, hpc] <;> rw [hpc] at hreturned hasking
  case start =>
    split
    · split <;> exact ⟨_, rfl⟩
    · split
      · exact ⟨_, rfl⟩
      · split <;> exact ⟨_, rfl⟩
  case askNode info => cases hasking
  case returned result => exact absurd rfl hreturned
  all_goals exact ⟨_, rfl⟩

/-- So can the drain thread, when it is not offering an entry. -/
theorem exists_drainStep (cfg : BalancerConfig F) (inp : Input) (s : State F)
    (hsubmitting : s.drain.isSubmitting = false) : ∃ s', drainStep cfg inp s = some s' := by
  cases hpc : s.drain <;> simp only [drainStep, hpc] <;> rw [hpc] at hsubmitting
  case looping =>
    split <;> exact ⟨_, rfl⟩
  case entry entry =>
    split
    · exact ⟨_, rfl⟩
    · split <;> exact ⟨_, rfl⟩
  case select entry =>
    split
    · exact ⟨_, rfl⟩
    · split <;> exact ⟨_, rfl⟩
  case nodeSubmit nodeId entry => cases hsubmitting
  case requeue entry =>
    split <;> exact ⟨_, rfl⟩
  all_goals exact ⟨_, rfl⟩

/-- And the aging thread in the middle of its tick. -/
theorem exists_agingStep (cfg : BalancerConfig F) (inp : Input) (s : State F)
    (hbusy : s.aging.isBusy = true)
    (hasking : ∀ c, s.aging.cancel? = some c → c.pc.isAsking = false) :
    ∃ s', agingStep cfg inp s = some s' := by
  cases hpc : s.aging <;> rw [hpc] at hbusy hasking <;> simp only [agingStep, hpc]
  case events aged expired =>
    cases aged with
    | cons e aged => exact ⟨_, rfl⟩
    | nil =>
        cases expired with
        | nil => exact ⟨_, rfl⟩
        | cons e expired =>
            dsimp only
            split <;> exact ⟨_, rfl⟩
  case cancelling c expired =>
    split
    · exact ⟨_, rfl⟩
    · next hreturned =>
        have hwork : c.pc.work ≠ 0 := by
          intro hzero
          cases hc : c.pc <;> rw [hc] at hzero <;>
            first | exact hreturned _ hc | simp [CancelPc.work] at hzero
        obtain ⟨r, hr⟩ := exists_cancelStep cfg inp s hwork (hasking c rfl)
        exact ⟨_, by rw [hr]; rfl⟩
  all_goals cases hbusy

end FatpBalancer
