/-
# The two totals

`mTotalSubmitted` counts the `submit` calls past their counter, and `mTotalCompleted` the
finalisations of succeeded jobs past theirs.  A job has one dispatch, which is finalised once, so
the second total stays below the first as long as no call is overtaken: its job finished by a node
while the call still stands before its counter.

* `countedCalls` ties `mTotalSubmitted` to the program counters of the calls, and `passed` says of
  each job how many of its finalisations are past the counter of the completed ones.
* `Completes` is what a step can count: nothing, or the one succeeded job whose finalisation passes
  its counter in this step.
* `CountingInv` follows a job from its acceptance to its report.  A dispatched job is counted by the
  call that dispatched it before anyone can finalise it; a held job may be dispatched by the drain
  thread and finished by its node while its `submit` call has not counted it yet, and `NotOvertaken`
  is the condition that rules this out.
* `TotalsInv` then bounds the second total by the first, job by job.
-/
import FatpBalancer.Balancer.Finalization
import FatpBalancer.Balancer.Metrics

universe u

namespace FatpBalancer

open Machine

variable {F : Type u} [FloatOps F] {cfg : BalancerConfig F} {inp : Input} {ev : Event}
  {s s' : State F}

/-! ## The totals in the shared sub-machines

A finalisation increments `mTotalCompleted` in its `count` stage and touches `mTotalSubmitted` in
none; a registration touches neither, apart from the finalisation it may run at its end. -/

/-- The `count` stage is the only one that moves a total. -/
theorem FinalizeMove.totals {f : Finalize} {f' : Option Finalize} (h : FinalizeMove s f s' f') :
    s'.m.mTotalSubmitted = s.m.mTotalSubmitted ∧
      s'.m.mTotalCompleted = s.m.mTotalCompleted + if f.stage = .count then 1 else 0 := by
  cases h with
  | learn hstage | skip hstage | count hstage | held hstage | release hstage =>
      simp [hstage]
  | untrack hstage =>
      rw [hstage]
      cases f.dispatch <;> exact ⟨rfl, rfl⟩
  | unroute handle hstage =>
      have herase : (eraseRoutingState s.m handle).mTotalSubmitted = s.m.mTotalSubmitted ∧
          (eraseRoutingState s.m handle).mTotalCompleted = s.m.mTotalCompleted := by
        unfold eraseRoutingState
        split <;> exact ⟨rfl, rfl⟩
      rw [hstage]
      cases f.dispatch <;> exact herase

/-- Registration is no submission: the counter has been incremented before. -/
theorem RegisterMove.totalSubmitted {inp : Input} {r : Register} {r' : Option Register}
    (h : RegisterMove cfg inp s r s' r') : s'.m.mTotalSubmitted = s.m.mTotalSubmitted := by
  cases h with
  | finalize f hstage hf => exact hf.totals.1
  | _ => rfl

/-- The job is counted as submitted. -/
def SubmitPc.counted : SubmitPc → Bool
  | .register _ | .returned (.ok _) => true
  | _ => false

/-! ## What one step counts as submitted

The counter is a call's own step, between the acceptance of the job and its registration, so the
number of calls past that step is the value of the counter. -/

/-- A call in the admission gate has not been counted. -/
theorem SubmitPc.not_counted_of_gated {pc : SubmitPc} (h : pc.gated = true) :
    pc.counted = false := by
  cases pc <;> simp [SubmitPc.gated, SubmitPc.counted] at h ⊢

/-- A call that backs out has not been counted. -/
theorem SubmitPc.not_counted_of_leaving {pc : SubmitPc} {error : SubmitError}
    (h : pc.leaving = some error) : pc.counted = false := by
  cases pc <;> simp [SubmitPc.leaving, SubmitPc.counted] at h ⊢

/-- The number of calls whose job is counted as submitted. -/
def countedCalls (calls : List Call) : Nat := Table.total (fun c => c.pc.counted.toNat) calls

/-- The counter and the calls move together. -/
theorem SubmitMove.counted {inp : Input} {i : CallId} {c : Call} (hc : s.calls[i]? = some c)
    (h : SubmitMove cfg inp s i c s') :
    s'.m.mTotalSubmitted + countedCalls s.calls = s.m.mTotalSubmitted + countedCalls s'.calls := by
  have hquiet : ∀ c' : Call, c'.pc.counted = c.pc.counted →
      countedCalls (s.calls.set i c') = countedCalls s.calls :=
    fun c' hsame => Table.total_set_eq hc (congrArg Bool.toNat hsame)
  have hone : ∀ c' : Call, c.pc.counted = false → c'.pc.counted = true →
      countedCalls (s.calls.set i c') = countedCalls s.calls + 1 := by
    intro c' hnot hnow
    have htraded : countedCalls (s.calls.set i c') + c.pc.counted.toNat =
        countedCalls s.calls + c'.pc.counted.toNat := Table.total_set hc c'
    rw [hnot, hnow, Bool.toNat_false, Bool.toNat_true] at htraded
    exact htraded
  cases h with
  | reject ac error hpc =>
      have hnot := SubmitPc.not_counted_of_gated hpc
      exact congrArg _ (hquiet { c with pc := .backOut error } hnot.symm).symm
  | advance ac pc hpc hpc' =>
      have hnot := SubmitPc.not_counted_of_gated hpc
      have hnot' : pc.counted = false := by
        rcases hpc' with hgated | rfl
        · exact SubmitPc.not_counted_of_gated hgated
        · rfl
      exact congrArg _ (hquiet _ (hnot'.trans hnot.symm)).symm
  | backOut error hpc =>
      have hnot := SubmitPc.not_counted_of_leaving hpc
      exact congrArg _ (hquiet { c with pc := .returned (.error error) } hnot.symm).symm
  | countHeld handle hpc =>
      show s.m.mTotalSubmitted + 1 + _ = s.m.mTotalSubmitted + countedCalls (s.calls.set i _)
      rw [hone { c with pc := .returned (.ok handle) } (by rw [hpc]; rfl) rfl]
      omega
  | countDispatched r hpc =>
      show s.m.mTotalSubmitted + 1 + _ = s.m.mTotalSubmitted + countedCalls (s.calls.set i _)
      rw [hone { c with pc := .register r } (by rw [hpc]; rfl) rfl]
      omega
  | @register r t r' hpc hr =>
      show t.m.mTotalSubmitted + _ = _ + countedCalls (t.calls.set i _)
      rw [hr.totalSubmitted, hr.sameOutside.calls]
      refine congrArg _ (hquiet _ ?_).symm
      rw [hpc]
      cases r' <;> rfl
  | shut hpc | opened hpc | reserve hpc | holdId hpc | enqueued _ _ _ hpc | notEnqueued _ _ hpc
  | releaseSlot hpc | unselected _ hpc | selected _ hpc | assignId _ hpc | refused _ _ hpc
  | accepted _ _ _ hpc =>
      refine congrArg _ (hquiet _ ?_).symm
      rw [hpc]
      rfl

/-- Of all the threads only the calls move `mTotalSubmitted`. -/
theorem Move.counted (h : Move cfg ev s s') :
    s'.m.mTotalSubmitted + countedCalls s.calls = s.m.mTotalSubmitted + countedCalls s'.calls := by
  have hquiet : s'.m.mTotalSubmitted = s.m.mTotalSubmitted → s'.calls = s.calls →
      s'.m.mTotalSubmitted + countedCalls s.calls =
        s.m.mTotalSubmitted + countedCalls s'.calls := by
    intro htotal hcalls
    rw [htotal, hcalls]
  cases h with
  | submitCall job =>
      show s.m.mTotalSubmitted + _ = s.m.mTotalSubmitted + countedCalls (s.calls ++ [_])
      unfold countedCalls
      rw [Table.total_append, Table.total_cons, Table.total_nil]
      rfl
  | submit i c hc hm => exact hm.counted hc
  | node k d hd hm =>
      refine hquiet ?_ hm.threads.1
      cases hm with
      | finalize f hside hf =>
          show (modifyDispatch _ (some k) _).m.mTotalSubmitted = _
          exact hf.totals.1
      | _ => rfl
  | cancel c c' t cancels aging hm hrep =>
      refine hquiet ?_ hm.threads.1
      cases hm with
      | finalize f hpc hf => exact hf.totals.1
      | _ => rfl
  | drain hm =>
      refine hquiet ?_ hm.threads.1
      cases hm with
      | dropping f hpc hf => exact hf.totals.1
      | register r hpc hr => exact hr.totalSubmitted
      | _ => rfl
  | aging hm => cases hm <;> exact hquiet rfl rfl
  | switch k pc hactor hpc hm => cases hm <;> exact hquiet rfl rfl
  | _ => exact hquiet rfl rfl

/-! ## What one step counts as completed

The place of the counter inside a finalisation, seen from each kind of thread that can be running
one. -/

/-- The job of a finalisation that is past its counter. -/
def Finalize.passed (f : Finalize) : Option CallId :=
  match f.stage with
  | .learn | .count => none
  | .untrack | .unroute | .release => some f.call

/-- The job of an early finalisation that is past its counter, which the registering thread runs. -/
def Register.passed (r : Register) : Option CallId :=
  match r.stage with
  | .finalize f => f.passed
  | _ => none

/-- The job of a `submit` call whose registration is past that counter. -/
def SubmitPc.passed : SubmitPc → Option CallId
  | .countDispatched r | .register r => r.passed
  | _ => none

/-- The job of a callback that is past its counter. -/
def Dispatch.passed (d : Dispatch) : Option CallId :=
  match d.side with
  | .calling f => f.passed
  | _ => none

/-- The job of a `cancel` call whose finalisation is past the counter. -/
def CancelPc.passed : CancelPc → Option CallId
  | .finalize f => f.passed
  | _ => none

/-- The job the drain thread is dropping or registering, when that finalisation is past the counter.
-/
def DrainPc.passed : DrainPc → Option CallId
  | .dropping f => f.passed
  | .releaseSlot r | .register r => r.passed
  | _ => none

/-- Of this job, in the hands of the `submit` calls. -/
def callsPassed (calls : List Call) (i : CallId) : Nat :=
  Table.total (fun c => owns i c.pc.passed) calls

/-- Of this job, in the callbacks. -/
def nodesPassed (dispatches : List Dispatch) (i : CallId) : Nat :=
  Table.total (fun d => owns i d.passed) dispatches

/-- Of this job, in the hands of the `cancel` calls. -/
def cancelsPassed (cancels : List CancelCall) (i : CallId) : Nat :=
  Table.total (fun c => owns i c.pc.passed) cancels

/-- How many finalisations of this job are past their counter. -/
def passed (s : State F) (i : CallId) : Nat :=
  callsPassed s.calls i + nodesPassed s.dispatches i + cancelsPassed s.allCancels i +
    owns i s.drain.passed + finalizedCount s i

/-- A finalisation that counts a job is past its counter from then on. -/
theorem FinalizeMove.passes {f : Finalize} {f' : Option Finalize} (h : FinalizeMove s f s' f')
    (i : CallId) :
    finalizedCount s i + owns i f.passed + (if f.stage = .count then owns i (some f.call) else 0) ≤
      finalizedCount s' i + owns i (f'.bind Finalize.passed) := by
  have hmodify : ∀ {t : State F} {k : Option Nat} {g : Dispatch → Dispatch},
      finalizedCount (modifyDispatch t k g) i = finalizedCount t i := by
    rintro t (_ | k) g <;> rfl
  unfold Finalize.passed
  cases h with
  | learn hstage | skip hstage | count hstage | held hstage => simp [hstage, finalizedCount]
  | untrack hstage | unroute handle hstage =>
      rw [hmodify, hstage]
      exact le_refl _
  | release hstage =>
      rw [hstage]
      show finalizedCount s i + owns i (some f.call) + 0 ≤
        ((f.call, s.m.mPolicy) :: s.finalized).countP (fun e => e.1 == i) + 0
      rw [List.countP_cons, owns, finalizedCount]
      simp

/-- What a step counts: nothing, or one succeeded job, whose finalisation passes the counter. -/
inductive Completes (s s' : State F) : Prop
  | nothing (htotal : s'.m.mTotalCompleted = s.m.mTotalCompleted)
      (hpassed : ∀ i, passed s i ≤ passed s' i)
  | one (f : Finalize) (hf : Finalizing s f) (hstage : f.stage = .count)
      (htotal : s'.m.mTotalCompleted = s.m.mTotalCompleted + 1)
      (hpassed : ∀ i, passed s i + owns i (some f.call) ≤ passed s' i)

/-- A finalisation makes a step, and only its thread and the flags of its dispatch change. -/
theorem Completes.finalize {f : Finalize} {t : State F} {f' : Option Finalize}
    (hf : Finalizing s f) (hm : FinalizeMove s f t f')
    (htotal : s'.m.mTotalCompleted = t.m.mTotalCompleted)
    (htraded : ∀ i, passed s i + finalizedCount t i + owns i (f'.bind Finalize.passed) ≤
      passed s' i + finalizedCount s i + owns i f.passed) : Completes s s' := by
  have hcounts := hm.totals.2
  by_cases hstage : f.stage = .count
  · rw [if_pos hstage] at hcounts
    refine .one f hf hstage (htotal.trans hcounts) fun i => ?_
    have hpasses := hm.passes i
    have htraded := htraded i
    rw [if_pos hstage] at hpasses
    omega
  · rw [if_neg hstage] at hcounts
    refine .nothing (htotal.trans hcounts) fun i => ?_
    have hpasses := hm.passes i
    have htraded := htraded i
    omega

theorem nodesPassed_core {l l' : List Dispatch}
    (h : l'.map Dispatch.core = l.map Dispatch.core) (i : CallId) :
    nodesPassed l' i = nodesPassed l i :=
  total_core (fun _ => rfl) h

/-- A registration makes a step; `who` is past whatever its finalisation is past. -/
theorem Completes.register {who : Option CallId} {r : Register} {t : State F}
    {r' : Option Register} (hr : s.registerOf who = some r) (hm : RegisterMove cfg inp s r t r')
    (htotal : s'.m.mTotalCompleted = t.m.mTotalCompleted)
    (hnodes : s'.dispatches = t.dispatches) (hfinalized : s'.finalized = t.finalized)
    (htraded : ∀ i, callsPassed s.calls i + cancelsPassed s.allCancels i + owns i s.drain.passed +
        owns i (r'.bind Register.passed) ≤
      callsPassed s'.calls i + cancelsPassed s'.allCancels i + owns i s'.drain.passed +
        owns i r.passed) : Completes s s' := by
  have hcount : ∀ i, finalizedCount s' i = finalizedCount t i := by
    intro i
    rw [finalizedCount, hfinalized, finalizedCount]
  have hquiet : t.m.mTotalCompleted = s.m.mTotalCompleted → t.finalized = s.finalized →
      r.passed = none → (∀ i, nodesPassed t.dispatches i = nodesPassed s.dispatches i) →
      Completes s s' := by
    intro hsame hfin hnone hsides
    refine .nothing (htotal.trans hsame) fun i => ?_
    have htraded := htraded i
    have hsides := hsides i
    have hcount := hcount i
    have hsame : finalizedCount t i = finalizedCount s i := by
      rw [finalizedCount, hfin, finalizedCount]
    rw [hnone, owns_none] at htraded
    simp only [passed, hnodes]
    omega
  have hstage : ∀ {stage}, r.stage = stage → (∀ f, stage ≠ .finalize f) → r.passed = none := by
    intro stage hstage hne
    unfold Register.passed
    split
    · next f hf => exact absurd (hstage.symm.trans hf) (hne f)
    · rfl
  have hset : ∀ {d d' : Dispatch}, s.dispatches[r.dispatch]? = some d → d'.passed = d.passed →
      ∀ i, nodesPassed (s.dispatches.set r.dispatch d') i = nodesPassed s.dispatches i :=
    fun hd hsame i => Table.total_set_eq hd (congrArg (owns i) hsame)
  cases hm with
  | insert h | agingOff h | track h =>
      refine hquiet rfl rfl (hstage h (by rintro _ ⟨⟩)) (nodesPassed_core ?_)
      exact modifyDispatch_core fun _ => rfl
  | agingOn h | noDispatch h => exact hquiet rfl rfl (hstage h (by rintro _ ⟨⟩)) fun _ => rfl
  | publish d h hd | publishEarly d job h hd =>
      exact hquiet rfl rfl (hstage h (by rintro _ ⟨⟩)) (hset hd rfl)
  | @finalize f t f' h hf =>
      refine .finalize (.register who r hr h) hf htotal fun i => ?_
      have htraded := htraded i
      have hcount := hcount i
      have hsides := nodesPassed_core hf.dispatches_core i
      have hpassed : r.passed = f.passed := by rw [Register.passed, h]
      have hnext : (f'.map fun f' => { r with stage := .finalize f' }).bind Register.passed =
          f'.bind Finalize.passed := by cases f' <;> rfl
      rw [hpassed, hnext] at htraded
      simp only [passed, hnodes]
      omega

/-- A step that leaves the counter and all finalisations alone counts nothing. -/
theorem Completes.quiet (htotal : s'.m.mTotalCompleted = s.m.mTotalCompleted)
    (hfinalized : s'.finalized = s.finalized)
    (hcalls : ∀ i, callsPassed s.calls i ≤ callsPassed s'.calls i)
    (hnodes : ∀ i, nodesPassed s.dispatches i ≤ nodesPassed s'.dispatches i)
    (hcancels : ∀ i, cancelsPassed s.allCancels i ≤ cancelsPassed s'.allCancels i)
    (hdrain : ∀ i, owns i s.drain.passed ≤ owns i s'.drain.passed) : Completes s s' := by
  refine .nothing htotal fun i => ?_
  have := hcalls i
  have := hnodes i
  have := hcancels i
  have := hdrain i
  have : finalizedCount s' i = finalizedCount s i := by
    rw [finalizedCount, hfinalized, finalizedCount]
  unfold passed
  omega

theorem nodesPassed_append {l : List Dispatch} {d : Dispatch} (i : CallId) :
    nodesPassed l i ≤ nodesPassed (l ++ [d]) i := by
  unfold nodesPassed
  rw [Table.total_append]
  exact Nat.le_add_right ..

/-- A `submit` call counts a completed job only inside its registration. -/
theorem SubmitMove.completes {i : CallId} {c : Call} (hc : s.calls[i]? = some c)
    (h : SubmitMove cfg inp s i c s') : Completes s s' := by
  have hcalls : ∀ c' : Call, (∀ j, owns j c.pc.passed ≤ owns j c'.pc.passed) →
      ∀ j, callsPassed s.calls j ≤ callsPassed (s.calls.set i c') j :=
    fun c' hle j => Table.total_le_set hc (hle j)
  have hnone : c.pc.passed = none → ∀ (c' : Call) (j : CallId),
      callsPassed s.calls j ≤ callsPassed (s.calls.set i c') j := by
    intro hpc c'
    apply hcalls
    intro j
    rw [hpc, owns_none]
    exact Nat.zero_le _
  cases h with
  | @register r t r' hpc hr =>
      have hrun : s.registerOf (some i) = some r := by
        rw [State.registerOf, hc, Option.bind_some, hpc]
        rfl
      refine .register hrun hr rfl rfl rfl fun j => ?_
      have htotal : callsPassed (s.calls.set i
            { c with pc := r'.elim (.returned (.ok r.handle)) .register }) j + owns j c.pc.passed =
          callsPassed s.calls j +
            owns j (r'.elim (SubmitPc.returned (.ok r.handle)) SubmitPc.register).passed :=
        Table.total_set hc _
      have hold : c.pc.passed = r.passed := by rw [hpc, SubmitPc.passed]
      have hnew : (r'.elim (SubmitPc.returned (.ok r.handle)) SubmitPc.register).passed =
          r'.bind Register.passed := by cases r' <;> rfl
      have hout := hr.sameOutside
      rw [hold, hnew] at htotal
      simp only [State.submitAt, State.allCancels, hout.calls, hout.cancels, hout.aging, hout.drain]
      omega
  | accepted nodeId job handle hpc =>
      exact .quiet rfl rfl (hnone (by rw [hpc]; rfl) _) nodesPassed_append (fun _ => le_rfl)
        fun _ => le_rfl
  | countDispatched r hpc =>
      refine .quiet rfl rfl (hcalls _ fun j => ?_) (fun _ => le_rfl) (fun _ => le_rfl) fun _ => le_rfl
      rw [hpc]
      exact le_rfl
  | reject ac error hpc | advance ac pc hpc =>
      refine .quiet rfl rfl (hnone ?_ _) (fun _ => le_rfl) (fun _ => le_rfl) fun _ => le_rfl
      cases hpc' : c.pc <;> rw [hpc'] at hpc <;> first | rfl | cases hpc
  | backOut error hpc =>
      refine .quiet rfl rfl (hnone ?_ _) (fun _ => le_rfl) (fun _ => le_rfl) fun _ => le_rfl
      cases hpc' : c.pc <;> rw [hpc'] at hpc <;> first | rfl | cases hpc
  | shut hpc | opened hpc | reserve hpc | holdId hpc | enqueued _ _ _ hpc | notEnqueued _ _ hpc
  | releaseSlot hpc | countHeld _ hpc | unselected _ hpc | selected _ hpc | assignId _ hpc
  | refused _ _ hpc =>
      exact .quiet rfl rfl (hnone (by rw [hpc]; rfl) _) (fun _ => le_rfl) (fun _ => le_rfl) fun _ => le_rfl

/-- A node's thread counts inside the callback. -/
theorem NodeMove.completes {k : Nat} {d : Dispatch} (hd : s.dispatches[k]? = some d)
    (h : NodeMove inp s k d s') : Completes s s' := by
  have hset : ∀ d' : Dispatch, d.passed = none → ∀ i,
      nodesPassed s.dispatches i ≤ nodesPassed (s.dispatches.set k d') i := by
    intro d' hnone i
    apply Table.total_le_set hd
    rw [hnone, owns_none]
    exact Nat.zero_le _
  cases h with
  | finish hside | early completed succeeded hside | enter completed succeeded hside =>
      refine .quiet rfl rfl (fun _ => le_rfl) (hset _ ?_) (fun _ => le_rfl) fun _ => le_rfl
      rw [Dispatch.passed, hside]
  | @finalize f t f' hside hf =>
      obtain ⟨d', hd', hcore⟩ := getElem?_core hf.dispatches_core hd
      refine .finalize (.node k d hd hside) hf rfl fun i => ?_
      have htotal : nodesPassed
            (t.dispatches.set k { d' with side := f'.elim .called .calling }) i +
            owns i d'.passed =
          nodesPassed t.dispatches i +
            owns i ({ d' with side := f'.elim .called .calling } : Dispatch).passed :=
        Table.total_set hd' _
      have hold : d'.passed = f.passed := by
        rw [Dispatch.passed, (Dispatch.sameCore hcore).side, hside]
      have hnew : ({ d' with side := f'.elim .called .calling } : Dispatch).passed =
          f'.bind Finalize.passed := by cases f' <;> rfl
      have hout := hf.sameOutside
      have hsides := nodesPassed_core hf.dispatches_core i
      rw [hold, hnew] at htotal
      simp only [passed, modifyDispatch, Table.modify_eq_set hd', State.allCancels, hout.calls,
        hout.cancels, hout.aging, hout.drain, finalizedCount]
      omega

/-- A `cancel` call finalises with `succeeded = false` and skips the counter. -/
theorem CancelMove.completes {c c' : CancelCall} {t : State F} {cancels : List CancelCall}
    {aging : AgingPc} (h : CancelMove cfg inp s c t c') (hrep : CancelReplaced s c c' cancels aging) :
    Completes s { t with cancels := cancels, aging := aging } := by
  have htotal : ∀ i, cancelsPassed (aging.cancel?.toList ++ cancels) i + owns i c.pc.passed =
      cancelsPassed s.allCancels i + owns i c'.pc.passed := by
    intro i
    apply hrep.total
  have hnone : c.pc.passed = none → ∀ i,
      cancelsPassed s.allCancels i ≤ cancelsPassed (aging.cancel?.toList ++ cancels) i := by
    intro hpc i
    have htotal := htotal i
    rw [hpc, owns_none] at htotal
    omega
  cases h with
  | hit info k d hpc hd hnode hhandle hlive =>
      refine .quiet rfl rfl (fun _ => le_rfl) (fun i => ?_) (hnone (by rw [hpc]; rfl)) fun _ => le_rfl
      simp only [modifyDispatch, Table.modify_eq_set hd]
      apply Table.total_le_set hd
      rw [Dispatch.passed, hlive, owns_none]
      exact Nat.zero_le _
  | @finalize f t f' hpc hf =>
      refine .finalize (.cancel c hrep.old hpc) hf rfl fun i => ?_
      have htotal := htotal i
      have hold : c.pc.passed = f.passed := by rw [hpc, CancelPc.passed]
      have hnew : (f'.elim (CancelPc.returned (.ok ())) CancelPc.finalize).passed =
          f'.bind Finalize.passed := by cases f' <;> rfl
      have hout := hf.sameOutside
      have hsides := nodesPassed_core hf.dispatches_core i
      rw [hold, hnew] at htotal
      show passed s i + finalizedCount t i + owns i (f'.bind Finalize.passed) ≤
        callsPassed t.calls i + nodesPassed t.dispatches i +
          cancelsPassed (aging.cancel?.toList ++ cancels) i + owns i t.drain.passed +
            finalizedCount t i + finalizedCount s i + owns i f.passed
      simp only [passed, hout.calls, hout.drain]
      omega
  | notHeld hpc | removed _ _ hpc | notRouted hpc | noNode _ hpc | ask _ hpc | releaseSlot _ hpc
  | refused _ _ hpc =>
      exact .quiet rfl rfl (fun _ => le_rfl) (fun _ => le_rfl) (hnone (by rw [hpc]; rfl)) fun _ => le_rfl

/-- The drain thread counts inside the registration of a job it has dispatched. -/
theorem DrainMove.completes (h : DrainMove cfg inp s s') : Completes s s' := by
  have hnone : s.drain.passed = none → ∀ (pc : DrainPc) (i : CallId),
      owns i s.drain.passed ≤ owns i pc.passed := by
    intro hpc pc i
    rw [hpc, owns_none]
    exact Nat.zero_le _
  cases h with
  | @dropping f t f' hpc hf =>
      refine .finalize (.dropping hpc) hf rfl fun i => ?_
      have hnew : (f'.elim DrainPc.looping DrainPc.dropping).passed = f'.bind Finalize.passed := by
        cases f' <;> rfl
      have hold : s.drain.passed = f.passed := by rw [hpc, DrainPc.passed]
      have hout := hf.sameOutside
      have hsides := nodesPassed_core hf.dispatches_core i
      simp only [passed, hold, hnew, State.allCancels, hout.calls, hout.cancels, hout.aging,
        finalizedCount]
      omega
  | @register r t r' hpc hr =>
      have hrun : s.registerOf none = some r := by
        rw [State.registerOf, hpc]
        rfl
      refine .register hrun hr rfl rfl rfl fun i => ?_
      have hnew : (r'.elim DrainPc.looping DrainPc.register).passed =
          r'.bind Register.passed := by cases r' <;> rfl
      have hold : s.drain.passed = r.passed := by rw [hpc, DrainPc.passed]
      have hout := hr.sameOutside
      simp only [hold, hnew, State.allCancels, hout.calls, hout.cancels, hout.aging]
      omega
  | accepted nodeId entry handle hpc =>
      exact .quiet rfl rfl (fun _ => le_rfl) nodesPassed_append (fun _ => le_rfl)
        (hnone (by rw [hpc]; rfl) _)
  | releaseSlot r hpc =>
      refine .quiet rfl rfl (fun _ => le_rfl) (fun _ => le_rfl) (fun _ => le_rfl) fun i => ?_
      rw [hpc]
      exact le_rfl
  | wake hpc | drained hpc | take _ _ hpc | drop _ hpc | saturated _ hpc | offer _ hpc
  | dropRelease _ hpc | unselected _ hpc | selected _ _ hpc | refused _ _ hpc | requeued _ _ _ hpc
  | lost _ _ hpc =>
      exact .quiet rfl rfl (fun _ => le_rfl) (fun _ => le_rfl) (fun _ => le_rfl)
        (hnone (by rw [hpc]; rfl) _)

/-- One case for each kind of move. -/
theorem Move.completes (h : Move cfg ev s s') : Completes s s' := by
  have hcancels : s'.m.mTotalCompleted = s.m.mTotalCompleted → s'.finalized = s.finalized →
      s'.calls = s.calls → s'.dispatches = s.dispatches → s'.drain = s.drain →
      (∀ i, cancelsPassed s.allCancels i ≤ cancelsPassed s'.allCancels i) → Completes s s' := by
    intro htotal hfinalized hcalls hdispatches hdrain hcancels
    refine .quiet htotal hfinalized ?_ ?_ hcancels ?_
    · rw [hcalls]
      exact fun _ => le_rfl
    · rw [hdispatches]
      exact fun _ => le_rfl
    · rw [hdrain]
      exact fun _ => le_rfl
  cases h with
  | submitCall job =>
      refine .quiet rfl rfl (fun i => ?_) (fun _ => le_rfl) (fun _ => le_rfl) fun _ => le_rfl
      unfold callsPassed
      rw [Table.total_append]
      exact Nat.le_add_right ..
  | submit i c hc hm => exact hm.completes hc
  | node k d hd hm => exact hm.completes hd
  | cancelCall handle =>
      refine hcancels rfl rfl rfl rfl rfl fun i => ?_
      unfold cancelsPassed State.allCancels
      simp only [Table.total_append]
      omega
  | cancel c c' t cancels aging hm hrep => exact hm.completes hrep
  | drain hm => exact hm.completes
  | aging hm =>
      have htotal : ∀ i, cancelsPassed s'.allCancels i = cancelsPassed s.allCancels i := by
        intro i
        refine hm.total_allCancels (fun c hpc => ?_) fun c result hpc => ?_
        · rw [hpc]
          rfl
        · rw [hpc]
          rfl
      have hsame : s'.m.mTotalCompleted = s.m.mTotalCompleted ∧ s'.finalized = s.finalized ∧
          s'.calls = s.calls ∧ s'.dispatches = s.dispatches ∧ s'.drain = s.drain := by
        cases hm <;> exact ⟨rfl, rfl, rfl, rfl, rfl⟩
      obtain ⟨h₁, h₂, h₃, h₄, h₅⟩ := hsame
      exact hcancels h₁ h₂ h₃ h₄ h₅ fun i => (htotal i).ge
  | switch k pc hactor hpc hm => cases hm <;> exact hcancels rfl rfl rfl rfl rfl fun _ => le_rfl
  | toggle enabled stop toggles aging haging =>
      refine hcancels rfl rfl rfl rfl rfl fun i => ?_
      rcases haging with rfl | ⟨hold, rfl⟩ | ⟨hold, rfl⟩
      · exact le_rfl
      · simp [State.allCancels, hold, AgingPc.cancel?]
      · simp [State.allCancels, hold, AgingPc.cancel?]
  | switchCall | setModes | setDegradationEnabled =>
      exact hcancels rfl rfl rfl rfl rfl fun _ => le_rfl

/-! ## Completed jobs are submitted ones

A node's report comes before the finalisation that counts it.  It is enough, then, that the job of
every reported dispatch is counted as submitted, or that its registration, which waits for the call,
is still to come. -/

/-- The call has stored its job and not counted it yet. -/
def SubmitPc.uncountedHeld : SubmitPc → Bool
  | .countHeld _ => true
  | _ => false

/-- The job of this call is counted as submitted. -/
def countedAt (s : State F) (i : CallId) : Prop :=
  ∃ c, s.calls[i]? = some c ∧ c.pc.counted = true

/-- The job of this call is counted as submitted, or its registration is still to come. -/
def countedInTime (s : State F) (i : CallId) : Prop :=
  ∃ c, s.calls[i]? = some c ∧ c.pc.accepted = true ∧ c.pc.uncountedHeld = false

/-- Only accepted jobs are counted. -/
theorem SubmitPc.accepted_of_counted {pc : SubmitPc} (h : pc.counted = true) :
    pc.accepted = true ∧ pc.uncountedHeld = false := by
  unfold SubmitPc.counted at h
  split at h
  · exact ⟨rfl, rfl⟩
  · exact ⟨rfl, rfl⟩
  · cases h

/-- The next step of a call whose job is accepted leaves it counted. -/
theorem SubmitMove.counts {i : CallId} {c : Call} (hc : s.calls[i]? = some c)
    (h : SubmitMove cfg inp s i c s') (haccepted : c.pc.accepted = true) : countedAt s' i := by
  have hlen : i < s.calls.length := (List.getElem?_eq_some_iff.mp hc).1
  cases h with
  | @register r t r' hpc hr =>
      refine ⟨{ c with pc := r'.elim (.returned (.ok r.handle)) .register }, ?_, ?_⟩
      · rw [State.submitAt, hr.sameOutside.calls]
        exact List.getElem?_set_self hlen
      · cases r' <;> rfl
  | countHeld handle hpc | countDispatched r hpc => exact ⟨_, List.getElem?_set_self hlen, rfl⟩
  | reject ac error hpc | advance ac pc hpc =>
      rw [(SubmitPc.accounts_of_gated hpc).1] at haccepted
      cases haccepted
  | backOut error hpc =>
      rw [(SubmitPc.accounts_of_leaving hpc).1] at haccepted
      cases haccepted
  | shut hpc | opened hpc | reserve hpc | holdId hpc | enqueued _ _ _ hpc | notEnqueued _ _ hpc
  | releaseSlot hpc | unselected _ hpc | selected _ hpc | assignId _ hpc | refused _ _ hpc
  | accepted _ _ _ hpc =>
      rw [hpc] at haccepted
      cases haccepted

/-- A call that has been counted stays counted. -/
theorem Move.countedAt (h : Move cfg ev s s') {i : CallId} (hi : countedAt s i) :
    countedAt s' i := by
  obtain ⟨c, hc, hcounted⟩ := hi
  rcases h.call_cases hc with hsame | ⟨-, hm⟩
  · exact ⟨c, hsame, hcounted⟩
  · exact hm.counts hc (SubmitPc.accepted_of_counted hcounted).1

/-- A job that is counted in time stays so: its registration ends only after its call has counted
it. -/
theorem Move.countedInTime (h : Move cfg ev s s') {i : CallId} (hi : countedInTime s i) :
    countedInTime s' i := by
  obtain ⟨c, hc, haccepted, hheld⟩ := hi
  rcases h.call_cases hc with hsame | ⟨-, hm⟩
  · exact ⟨c, hsame, haccepted, hheld⟩
  · obtain ⟨c', hc', hcounted⟩ := hm.counts hc haccepted
    exact ⟨c', hc', SubmitPc.accepted_of_counted hcounted⟩

/-- A dispatch that goes from live to finished is finished by its node, in this step. -/
theorem Move.finishes (h : Move cfg ev s s') {k : Nat} {d d' : Dispatch} {completed : Job}
    {succeeded : Bool} (hd : s.dispatches[k]? = some d) (hlive : d.side = .live)
    (hd' : s'.dispatches[k]? = some d') (hside : d'.side = .finished completed succeeded) :
    ev.actor = .node k ∧ ev.input.succeeded = succeeded := by
  have hsame : s.dispatches[k]? = some d' → ev.actor = .node k ∧ ev.input.succeeded = succeeded := by
    intro hsame
    obtain rfl := Option.some.inj (hsame.symm.trans hd)
    rw [hlive] at hside
    cases hside
  have hsides : s'.dispatches.map Dispatch.side = s.dispatches.map Dispatch.side →
      ev.actor = .node k ∧ ev.input.succeeded = succeeded := by
    intro hsides
    have hat := congrArg (·[k]?) hsides
    simp only [List.getElem?_map, hd, hd', Option.map_some, hlive, hside] at hat
    cases hat
  cases h with
  | submit i c hc hm =>
      cases hm with
      | accepted =>
          rcases Table.getElem?_append_cases hd' with hold | rfl
          · exact hsame hold
          · cases hside
      | register r hpc hr => exact hsides hr.sides
      | _ => exact hsame hd'
  | node j x hx hm hactor =>
      cases hm with
      | finish hlives =>
          rcases Table.getElem?_set_cases hd' with ⟨rfl, rfl⟩ | ⟨-, hold⟩
          · obtain ⟨-, rfl⟩ := NodeSide.finished.inj hside
            exact ⟨hactor, rfl⟩
          · exact hsame hold
      | early _ _ hlives | enter _ _ hlives =>
          rcases Table.getElem?_set_cases hd' with ⟨rfl, rfl⟩ | ⟨-, hold⟩
          · cases hside
          · exact hsame hold
      | @finalize f t o hcalling hf =>
          obtain ⟨x', hx', -⟩ := getElem?_core hf.dispatches_core hx
          simp only [modifyDispatch, Table.modify_eq_set hx'] at hd'
          rcases Table.getElem?_set_cases hd' with ⟨rfl, rfl⟩ | ⟨-, hold⟩
          · cases o <;> cases hside
          · have hat := congrArg (·[k]?) (sides_of_core hf.dispatches_core)
            simp only [List.getElem?_map, hd, hold, Option.map_some, hlive, hside] at hat
            cases hat
  | cancel c c' t cancels aging hm hrep =>
      cases hm with
      | hit info j x hpc hx =>
          simp only [modifyDispatch, Table.modify_eq_set hx] at hd'
          rcases Table.getElem?_set_cases hd' with ⟨rfl, rfl⟩ | ⟨-, hold⟩
          · cases hside
          · exact hsame hold
      | finalize f hpc hf => exact hsides (sides_of_core hf.dispatches_core)
      | _ => exact hsame hd'
  | drain hm =>
      cases hm with
      | accepted =>
          rcases Table.getElem?_append_cases hd' with hold | rfl
          · exact hsame hold
          · cases hside
      | dropping f hpc hf => exact hsides (sides_of_core hf.dispatches_core)
      | register r hpc hr => exact hsides hr.sides
      | _ => exact hsame hd'
  | aging hm => cases hm <;> exact hsame hd'
  | switch j pc hactor hpc hm => cases hm <;> exact hsame hd'
  | _ => exact hsame hd'

/-- A report is an old one, or its node makes it in this step. -/
theorem Move.reports (h : Move cfg ev s s') {k : Nat} {d' : Dispatch} {completed : Job}
    {succeeded : Bool} (hd' : s'.dispatches[k]? = some d')
    (hreport : d'.report = some (completed, succeeded)) :
    ∃ d, s.dispatches[k]? = some d ∧ d.call = d'.call ∧
      (d.report = some (completed, succeeded) ∨
        ev.actor = .node k ∧ d.side = .live ∧ ev.input.succeeded = succeeded) := by
  rcases h.dispatches.1 k d' hd' with ⟨d, hd, hmove⟩ | ⟨-, hfresh⟩
  · refine ⟨d, hd, hmove.same.1.symm, ?_⟩
    cases hmove with
    | finish completed' succeeded' hlive =>
        obtain ⟨hactor, hinput⟩ := h.finishes hd hlive hd' rfl
        obtain ⟨-, rfl⟩ := Prod.mk.inj (Option.some.inj hreport)
        exact Or.inr ⟨hactor, hlive, hinput⟩
    | flags d' hcore => exact Or.inl ((Dispatch.sameCore hcore).report ▸ hreport)
    | finalize f f' d' hside hcore => exact Or.inl ((Dispatch.sameCore hcore).report ▸ hreport)
    | early | enter | cancel | publish => exact Or.inl hreport
  · rw [hfresh.report] at hreport
    cases hreport

/-- The job that its node reports as succeeded in this event. -/
def State.nodeSucceeds (s : State F) (ev : Event) : Option CallId :=
  match ev.actor with
  | .node k =>
      (s.dispatches[k]?).bind fun d =>
        if d.side = .live ∧ ev.input.succeeded = true then some d.call else none
  | _ => none

/-- No node reports success for a held job whose `submit` call is still to count it. -/
def NotOvertaken (s : State F) (ev : Event) : Prop :=
  ∀ i ∈ s.nodeSucceeds ev, ((s.calls[i]?).any fun c => c.pc.uncountedHeld) = false

instance (s : State F) (ev : Event) : Decidable (NotOvertaken s ev) :=
  inferInstanceAs (Decidable (∀ i ∈ s.nodeSucceeds ev, _))

/-- Whose completions are counted, and when. -/
structure CountingInv (s : State F) : Prop where
  fresh : ∀ {i : CallId} {c : Call} {r : Register}, s.calls[i]? = some c →
    c.pc = .countDispatched r → r.stage = .insert
  reported : ∀ {k : Nat} {d : Dispatch} {completed : Job}, s.dispatches[k]? = some d →
    d.report = some (completed, true) → countedInTime s d.call
  finalizing : ∀ {f : Finalize}, Finalizing s f → f.succeeded = true ∨ f.stage = .count →
    countedAt s f.call

/-- A call before its counter on the dispatch path has its whole registration before it. -/
theorem Move.countDispatched (h : Move cfg ev s s') {i : CallId} {c' : Call} {r : Register}
    (hc' : s'.calls[i]? = some c') (hpc' : c'.pc = .countDispatched r) :
    s.calls[i]? = some c' ∨ r.stage = .insert := by
  rcases h.call_back hc' with hentered | ⟨c, hc, rfl | ⟨-, hm⟩⟩
  · rw [hentered] at hpc'
    cases hpc'
  · exact Or.inl hc
  · cases hm with
    | accepted nodeId job handle hpc =>
        obtain rfl := call_of_set hc hc' rfl
        cases hpc'
        exact Or.inr rfl
    | @register t r₀ o hpc hr =>
        obtain rfl := call_of_set hc hc' (by rw [State.submitAt, hr.sameOutside.calls])
        cases o <;> cases hpc'
    | advance ac pc hpc hgated =>
        obtain rfl := call_of_set hc hc' rfl
        cases hpc'
        rcases hgated with hgated | hgated <;> cases hgated
    | _ =>
        obtain rfl := call_of_set hc hc' rfl
        cases hpc'

theorem countedAt_of_inTime {i : CallId} (h : countedInTime s i)
    (hnot : ∀ {c : Call} {r : Register}, s.calls[i]? = some c → c.pc ≠ .countDispatched r) :
    countedAt s i := by
  obtain ⟨c, hc, haccepted, hheld⟩ := h
  refine ⟨c, hc, ?_⟩
  cases hpc : c.pc with
  | countDispatched r => exact absurd hpc (hnot hc)
  | countHeld handle =>
      rw [hpc] at hheld
      cases hheld
  | register r => rfl
  | returned result =>
      rw [hpc] at haccepted
      cases result with
      | ok handle => rfl
      | error e => cases haccepted
  | _ =>
      rw [hpc] at haccepted
      cases haccepted

/-- A succeeded job is counted as submitted when its finalisation begins. -/
theorem Opens.countedAt {f : Finalize} (h : Opens ev s s' f) (hi : CountingInv s)
    (hr : RegisteringInv s) (ha : AccountingInv s)
    (hreported : ∀ {k : Nat} {d : Dispatch}, s.dispatches[k]? = some d → d.Reported)
    (hf : f.succeeded = true ∨ f.stage = .count) : countedAt s f.call := by
  cases h with
  | enter k d completed succeeded f hd hside hpublished hf' =>
      subst hf'
      obtain rfl : succeeded = true := by
        rcases hf with hf | hf
        · exact hf
        · cases hf
      have hreport := (hreported hd).finished completed true hside
      refine countedAt_of_inTime (hi.reported hd hreport) fun {c r} hc hpc => ?_
      -- a published dispatch is registered, and its call is past the counter
      have hrun : s.registerOf (some d.call) = some r := by
        rw [State.registerOf, hc, Option.bind_some, hpc]
        rfl
      obtain ⟨d₀, hd₀⟩ := hr.registers hrun
      obtain rfl := ha.dispatch_unique hd hd₀.dispatch (hd₀.submitter d.call rfl).symm
      obtain rfl := Option.some.inj (hd₀.dispatch.symm.trans hd)
      have hun := hd₀.published (by rw [hi.fresh hc hpc]; rfl)
      rw [hpublished] at hun
      cases hun
  | early who r d job hrun hstage hd hearly =>
      have hsucceeded : d.regState.earlySucceeded = true := by
        rcases hf with hf | hf
        · exact hf
        · cases hf
      obtain ⟨completed, hreport, -⟩ := (hreported hd).early job hearly
      rw [hsucceeded] at hreport
      refine countedAt_of_inTime (hi.reported hd hreport) fun {c r'} hc hpc => ?_
      -- the registering thread is the call itself, past its counter
      have hrun' : s.registerOf (some d.call) = some r' := by
        rw [State.registerOf, hc, Option.bind_some, hpc]
        rfl
      obtain ⟨d₀, hd₀⟩ := hr.registers hrun'
      have hsame := ha.dispatch_unique hd hd₀.dispatch (hd₀.submitter d.call rfl).symm
      obtain rfl := hr.unique hrun hrun' hsame
      obtain rfl := Option.some.inj (hrun.symm.trans hrun')
      rw [hi.fresh hc hpc] at hstage
      cases hstage
  | hit => rcases hf with hf | hf <;> cases hf
  | dropped => rcases hf with hf | hf <;> cases hf
  | removed => rcases hf with hf | hf <;> cases hf

theorem AccountingInv.accepted_of_live (h : AccountingInv s) {k : Nat} {d : Dispatch}
    (hd : s.dispatches[k]? = some d) (hlive : d.side = .live) :
    ∃ c, s.calls[d.call]? = some c ∧ c.pc.accepted = true := by
  have hone : owns d.call d.onNode ≤ onNodes s.dispatches d.call :=
    Table.le_total (w := fun d₁ : Dispatch => owns d.call d₁.onNode) hd
  have hon : d.onNode = some d.call := by rw [Dispatch.onNode, hlive]
  have hplaced := h.placed d.call
  rw [hon, owns_self] at hone
  unfold waiting acceptedAt at hplaced
  cases hany : (s.calls[d.call]?).any fun c => c.pc.accepted with
  | false =>
      rw [hany, Bool.toNat_false] at hplaced
      omega
  | true => exact (Option.any_eq_true _ _).mp hany

/-- The one step that could break the invariant is a node's report for a held job, and there
`NotOvertaken` is the guard. -/
theorem CountingInv.next (h : CountingInv s) (hr : RegisteringInv s) (ha : AccountingInv s)
    (hreported : ∀ {k : Nat} {d : Dispatch}, s.dispatches[k]? = some d → d.Reported)
    (hok : NotOvertaken s ev) (hm : Move cfg ev s s') : CountingInv s' := by
  refine ⟨fun {i c' r} hc' hpc' => ?_, fun {k d' completed} hd' hreport => ?_, fun {f'} hf' hs => ?_⟩
  · rcases hm.countDispatched hc' hpc' with hold | hinsert
    · exact h.fresh hold hpc'
    · exact hinsert
  · obtain ⟨d, hd, hcall, hreport⟩ := hm.reports hd' hreport
    rw [← hcall]
    apply hm.countedInTime
    rcases hreport with hreport | ⟨hactor, hlive, hsucceeded⟩
    · exact h.reported hd hreport
    · obtain ⟨c, hc, haccepted⟩ := ha.accepted_of_live hd hlive
      have hheld := hok d.call (by
        rw [State.nodeSucceeds, hactor]
        simp [hd, hlive, hsucceeded])
      rw [hc] at hheld
      exact ⟨c, hc, haccepted, hheld⟩
  · cases hm.finalizing hf' with
    | kept hold => exact hm.countedAt (h.finalizing hold hs)
    | stepped f t calls dispatches cancels aging drain hf hfm hmarks =>
        have hcall : f'.call = f.call := by rw [hfm.next]
        have hcounts : f.succeeded = true ∨ f.stage = .count := by
          cases hfm with
          | learn hstage hok => exact Or.inl hok
          | skip | count | untrack | held | unroute =>
              rcases hs with hs | hs
              · exact Or.inl hs
              · cases hs
        rw [hcall]
        exact hm.countedAt (h.finalizing hf hcounts)
    | opened ho => exact hm.countedAt (ho.countedAt h hr ha hreported hs)

/-- In every state of a run in which no call is overtaken. -/
theorem countingInv_reach (hs : (balancer cfg).Reach NotOvertaken s) : CountingInv s := by
  have hcreate : CountingInv (balancer cfg).init := by
    refine ⟨fun hc => (by cases hc), fun hd => (by cases hd), fun {f} hf => ?_⟩
    cases hf with
    | register who r hr => cases who <;> cases hr
    | node k d hd => cases hd
    | cancel c hc => cases hc
    | dropping hpc => cases hpc
  refine hs.invariant hcreate fun _ hr h hok hstep => ?_
  have hreach := hr.unguarded
  exact h.next (registeringInv_reach hreach) (accountingInv_reach hreach)
    (dispatch_reported hreach) hok (step_move hstep)

/-! ### Each of them once

The bound is job by job: at most one finalisation of a job is past the counter, by the accounting of
the places, and where there is one the call has been counted. -/

theorem owns_le {i : CallId} {o o' : Option CallId} (h : o = none ∨ o = o') :
    owns i o ≤ owns i o' := by
  rcases h with rfl | rfl
  · exact Nat.zero_le _
  · exact le_refl _

theorem Register.passed_cases (r : Register) : r.passed = none ∨ r.passed = r.handles := by
  unfold Register.passed Register.handles Finalize.passed
  cases r.stage with
  | finalize f => cases hstage : f.stage <;> simp [hstage]
  | _ => exact Or.inl rfl

theorem Finalize.passed_cases (f : Finalize) : f.passed = none ∨ f.passed = some f.call := by
  unfold Finalize.passed
  cases f.stage <;> simp

theorem SubmitPc.passed_cases (pc : SubmitPc) : pc.passed = none ∨ pc.passed = pc.handles := by
  cases pc with
  | countDispatched r | register r => exact r.passed_cases
  | _ => exact Or.inl rfl

theorem Dispatch.passed_cases (d : Dispatch) : d.passed = none ∨ d.passed = d.handles := by
  unfold Dispatch.passed Dispatch.handles
  cases d.side with
  | calling f => exact f.passed_cases
  | _ => exact Or.inl rfl

theorem CancelPc.passed_cases (pc : CancelPc) : pc.passed = none ∨ pc.passed = pc.handles := by
  cases pc with
  | finalize f => exact f.passed_cases
  | _ => exact Or.inl rfl

theorem DrainPc.passed_cases (pc : DrainPc) : pc.passed = none ∨ pc.passed = pc.handles := by
  cases pc with
  | dropping f => exact f.passed_cases
  | releaseSlot r | register r => exact r.passed_cases
  | _ => exact Or.inl rfl

/-- A finalisation past its counter is under way. -/
theorem passed_le (s : State F) (i : CallId) : passed s i ≤ handling s i + finalizedCount s i := by
  have hcalls : callsPassed s.calls i ≤ callsHandle s.calls i :=
    Table.total_mono fun c _ => owns_le c.pc.passed_cases
  have hnodes : nodesPassed s.dispatches i ≤ nodesHandle s.dispatches i :=
    Table.total_mono fun d _ => (owns_le d.passed_cases).trans (Nat.le_add_right ..)
  have hcancels : cancelsPassed s.allCancels i ≤ cancelsHandle s.allCancels i :=
    Table.total_mono fun c _ => owns_le c.pc.passed_cases
  have hdrain : owns i s.drain.passed ≤ owns i s.drain.handles := owns_le s.drain.passed_cases
  unfold passed handling
  omega

/-- The totals and the jobs they count. -/
structure TotalsInv (s : State F) (jobs : List CallId) : Prop where
  submitted : s.m.mTotalSubmitted = countedCalls s.calls
  completed : s.m.mTotalCompleted = jobs.length
  passed : ∀ i, jobs.count i ≤ passed s i
  counted : ∀ i ∈ jobs, countedAt s i

/-- A completed job has not been counted before, since its finalisation was not past the counter. -/
theorem TotalsInv.next {jobs : List CallId} (h : TotalsInv s jobs) (hi : CountingInv s)
    (hm : Move cfg ev s s') : ∃ jobs', TotalsInv s' jobs' := by
  have hsubmitted : s'.m.mTotalSubmitted = countedCalls s'.calls := by
    have htraded := hm.counted
    have hbefore := h.submitted
    omega
  cases hm.completes with
  | nothing htotal hpassed =>
      refine ⟨jobs, hsubmitted, htotal.trans h.completed, fun i => ?_, fun i hi => ?_⟩
      · exact (h.passed i).trans (hpassed i)
      · exact hm.countedAt (h.counted i hi)
  | one f hf hstage htotal hpassed =>
      refine ⟨f.call :: jobs, hsubmitted, ?_, fun i => ?_, fun i hmem => ?_⟩
      · rw [htotal, h.completed, List.length_cons]
      · have hbefore := h.passed i
        have hafter := hpassed i
        rw [count_cons_owns]
        omega
      · rcases List.mem_cons.mp hmem with rfl | hmem
        · exact hm.countedAt (hi.finalizing hf (Or.inr hstage))
        · exact hm.countedAt (h.counted i hmem)

/-- In every state of a run in which no call is overtaken. -/
theorem totalsInv_reach (hs : (balancer cfg).Reach NotOvertaken s) :
    ∃ jobs, TotalsInv s jobs := by
  have hcreate : ∃ jobs, TotalsInv (balancer cfg).init jobs :=
    ⟨[], rfl, rfl, fun _ => Nat.zero_le _, by rintro _ ⟨⟩⟩
  apply hs.invariant hcreate
  intro s s' ev hr h _ hstep
  obtain ⟨jobs, h⟩ := h
  exact h.next (countingInv_reach hr) (step_move hstep)

/-- Each completed job is completed once, and counted as submitted. -/
theorem TotalsInv.le {jobs : List CallId} (h : TotalsInv s jobs) (ha : AccountingInv s) :
    s.m.mTotalCompleted ≤ s.m.mTotalSubmitted := by
  have hlt : ∀ i ∈ jobs, id i < s.calls.length := by
    intro i hi
    obtain ⟨c, hc, -⟩ := h.counted i hi
    exact (List.getElem?_eq_some_iff.mp hc).1
  have hone : ∀ i ∈ List.range s.calls.length, jobs.countP (fun j => id j == i) ≤
      (s.calls[i]?).elim 0 fun c => c.pc.counted.toNat := by
    intro i _
    by_cases hmem : i ∈ jobs
    · obtain ⟨c, hc, hcounted⟩ := h.counted i hmem
      have hpassed := (h.passed i).trans (passed_le s i)
      have hsettled := ha.settled i
      have hended := ha.ended_le i
      rw [hc, Option.elim_some, hcounted, Bool.toNat_true]
      show jobs.count i ≤ 1
      omega
    · have hzero : jobs.count i = 0 := List.count_eq_zero.mpr hmem
      show jobs.count i ≤ _
      rw [hzero]
      exact Nat.zero_le _
  calc s.m.mTotalCompleted
      = Table.total (fun i => jobs.countP fun j => id j == i) (List.range s.calls.length) := by
        rw [h.completed, Table.total_countP_key id jobs hlt]
    _ ≤ Table.total (fun i => (s.calls[i]?).elim 0 fun c => c.pc.counted.toNat)
          (List.range s.calls.length) := Table.total_mono hone
    _ = s.m.mTotalSubmitted := by
        rw [Table.total_range, h.submitted, countedCalls]

/-- **No job is counted as completed before it is counted as submitted, unless its call is
overtaken.**  In every run in which no node reports success for a held job whose `submit` call still
stands before its counter, `clusterMetrics` never reports more completed jobs than submitted ones. -/
theorem completed_le_submitted (hs : (balancer cfg).Reach NotOvertaken s) (w : ThroughputWindow)
    (now : TimePoint) (nodeMetrics : List LoadMetrics) :
    (s.m.buildClusterMetrics w now nodeMetrics).1.totalCompleted ≤
      (s.m.buildClusterMetrics w now nodeMetrics).1.totalSubmitted := by
  obtain ⟨jobs, h⟩ := totalsInv_reach hs
  exact h.le (accountingInv_reach hs.unguarded)

/-- A job is held, dispatched by the drain loop and finished by its node. -/
def heldScript (n : Nat) : List Event :=
  submitScript 0 { priority := .critical } n { metrics := [{ state := .overloaded }] } ++
    List.replicate 9 { actor := .drain, input := { selected := some 0, accepted := some 7 } } ++
      List.replicate 4 { actor := .node 0 }

/-- The call has counted its job before the drain loop takes it. -/
theorem completed_le_submitted_held : ∃ s : State Rat, s.m.mTotalCompleted = 1 ∧
    (s.m.buildClusterMetrics { mThroughputSampleTime := 0 } 0 []).1.totalCompleted ≤
      (s.m.buildClusterMetrics { mThroughputSampleTime := 0 } 0 []).1.totalSubmitted := by
  obtain ⟨s, hs, hp⟩ := exists_reach (balancer oneNode) NotOvertaken (heldScript 11)
    (fun s => s.m.mTotalCompleted == 1) (by decide +kernel)
  exact ⟨s, by simpa using hp, completed_le_submitted hs _ _ _⟩

/-- **A job can be completed before it is submitted.**  The call has stored its job and not counted
it yet when the drain loop dispatches the job and its node finishes it. -/
theorem completed_before_submitted : ∃ s : State Rat, (balancer oneNode).Reach anyEvent s ∧
    ¬(s.m.buildClusterMetrics { mThroughputSampleTime := 0 } 0 []).1.totalCompleted ≤
      (s.m.buildClusterMetrics { mThroughputSampleTime := 0 } 0 []).1.totalSubmitted := by
  obtain ⟨s, hs, hp⟩ := exists_reach (balancer oneNode) anyEvent (heldScript 10)
    (fun s => s.m.mTotalCompleted == 1 && s.m.mTotalSubmitted == 0) (by decide +kernel)
  obtain ⟨hcompleted, hsubmitted⟩ : s.m.mTotalCompleted = 1 ∧ s.m.mTotalSubmitted = 0 := by
    simpa using hp
  refine ⟨s, hs, ?_⟩
  show ¬s.m.mTotalCompleted ≤ s.m.mTotalSubmitted
  omega

end FatpBalancer
