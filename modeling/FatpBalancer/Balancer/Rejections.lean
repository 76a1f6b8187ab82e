/-
# Which rejections are counted

The admission gate counts a rejection as it decides it; the other exits of `submit` count nothing.
The state does not say later which exit a call took, so the gate's verdicts are noted in a ledger
beside the run.

`auditedBalancer` is the balancer beside this ledger, which a step adds to when the gate decides a
rejection.  `AuditInv` ties the two counters of the gate, the total and the one by error code, to
the ledger, and the ledger to the calls: who is listed is leaving with that error or has left, and
who has left with an error and is not listed has met one of the other exits.

So the reported number is that of the rejections the gate has decided; a job turned away for its
deadline, or while the balancer drains, is in no counter.
-/
import FatpBalancer.Balancer.Flood
import FatpBalancer.Balancer.Totals

universe u

namespace FatpBalancer

variable {F : Type u} [FloatOps F] {cfg : BalancerConfig F} {ev : Event} {s s' : State F}

/-! ## The ledger of the gate

Each layer of the gate answers with a verdict, and a rejection ends the call. -/

/-- The rejection, if any, that the admission gate decides in the next step of a call. -/
def gateVerdict (inp : Input) (s : State F) (c : Call) : Option SubmitError :=
  match c.pc with
  | .globalRate _ => (s.m.mAdmission.checkGlobalRate inp.now).1
  | .modes _ => (s.m.mAdmission.checkModes c.job.priority).1
  | .priorityRate _ => (s.m.mAdmission.checkPriorityRate inp.now c.job.priority).1
  | .capacity saturated =>
      match AdmissionControl.capacityVerdict c.job.priority saturated with
      | .reject => some .clusterSaturated
      | .pass | .reserve => none
  | .reserving (some current) =>
      if s.m.mAdmission.mHoldingQueueCapacity ≤ current then some .holdingQueueFull else none
  | _ => none

/-- The verdict of the gate in this event, with the call that it is about. -/
def State.rejects (s : State F) (ev : Event) : Option (CallId × SubmitError) :=
  match ev.actor with
  | .submit i => ((s.calls[i]?).bind (gateVerdict ev.input s)).map fun e => (i, e)
  | _ => none

/-- Note the verdict of the gate. -/
def noteRejection (s : State F) (ev : Event) (rejected : List (CallId × SubmitError)) :
    List (CallId × SubmitError) :=
  match s.rejects ev with
  | some r => r :: rejected
  | none => rejected

/-- The balancer beside the ledger of the gate. -/
def auditedBalancer (cfg : BalancerConfig F) :
    Machine (State F × List (CallId × SubmitError)) Event :=
  (balancer cfg).observe [] noteRejection

/-! ## What one step counts

The counters and the ledger move in the same step. -/

/-- A step of a `submit` call counts a rejection exactly when the gate decides one, and the call
then leaves with it. -/
theorem submitStep_rejects {inp : Input} {i : CallId} {c : Call} (hlen : i < s.calls.length)
    (h : submitStep cfg inp s i c = some s') :
    s.m.mAdmission.Counts s'.m.mAdmission (gateVerdict inp s c) ∧
      ∀ e, gateVerdict inp s c = some e →
        ∃ c', s'.calls[i]? = some c' ∧ c'.pc = .backOut e := by
  have hset : ∀ c' : Call, (s.calls.set i c')[i]? = some c' := fun c' =>
    List.getElem?_set_self hlen
  have hquiet : ∀ {t : State F}, t.m.mAdmission.mRejections = s.m.mAdmission.mRejections →
      s.m.mAdmission.Counts t.m.mAdmission none ∧
        ∀ e, (none : Option SubmitError) = some e →
          ∃ c', t.calls[i]? = some c' ∧ c'.pc = .backOut e :=
    fun hsame => ⟨AdmissionControl.counts_none hsame, by rintro e ⟨⟩⟩
  cases hpc : c.pc <;> simp only [submitStep, gateVerdict, hpc, Option.some.injEq] at h ⊢
  case globalRate saturated =>
    subst h
    refine ⟨AdmissionControl.checkGlobalRate_counts _ _, fun e he => ⟨_, hset _, ?_⟩⟩
    rw [he]
    rfl
  case modes saturated =>
    subst h
    refine ⟨AdmissionControl.checkModes_counts _ _, fun e he => ⟨_, hset _, ?_⟩⟩
    rw [he]
    rfl
  case priorityRate saturated =>
    subst h
    refine ⟨AdmissionControl.checkPriorityRate_counts _ _ _, fun e he => ⟨_, hset _, ?_⟩⟩
    rw [he]
    rfl
  case capacity saturated =>
    -- pass, reserve, reject
    split at h <;> cases h
    · next hv =>
        rw [hv]
        exact hquiet rfl
    · next hv =>
        rw [hv]
        exact hquiet rfl
    · next hv =>
        rw [hv]
        refine ⟨AdmissionControl.countRejection_counts rfl _, ?_⟩
        rintro e ⟨⟩
        exact ⟨_, hset _, rfl⟩
  case reserving current =>
    cases current with
    | none =>
        cases h
        exact hquiet rfl
    | some current =>
        dsimp only at h ⊢
        split at h
        · next hfull =>
            cases h
            rw [if_pos hfull]
            refine ⟨AdmissionControl.countRejection_counts rfl _, ?_⟩
            rintro e ⟨⟩
            exact ⟨_, hset _, rfl⟩
        · next hroom =>
            -- the slot is taken, or another thread was faster and the loop goes on
            rw [if_neg hroom]
            split at h <;> cases h <;> exact hquiet rfl
  case register r =>
    subst h
    apply hquiet
    show (registerStep cfg inp s r).1.m.mAdmission.mRejections = _
    rw [(registerStep_move cfg inp s r).sameOutside.admission]
  case returned => cases h
  case entered | turnedAway | gate | holdId | releaseSlot | countHeld | assignId
      | countDispatched | backOut =>
    subst h
    exact hquiet rfl
  case enqueue | select | nodeSubmit =>
    split at h
    all_goals first
      | (cases h; exact hquiet rfl)
      | (split at h <;> cases h <;> exact hquiet rfl)

/-- No other step counts a rejection. -/
theorem Move.rejections (h : Move cfg ev s s') (hactor : ∀ i, ev.actor ≠ .submit i) :
    s'.m.mAdmission.mRejections = s.m.mAdmission.mRejections := by
  cases h with
  | submit i c hc hm hev => exact absurd hev (hactor i)
  | node k d hd hm =>
      cases hm with
      | finalize f hside hf =>
          rw [modifyDispatch_sameOutside hf.sameOutside _ _ |>.admission]
      | _ => rfl
  | cancel c c' t cancels aging hm hrep =>
      cases hm with
      | finalize f hpc hf =>
          show t.m.mAdmission.mRejections = _
          rw [hf.sameOutside.admission]
      | _ => rfl
  | drain hm =>
      cases hm with
      | @dropping f t f' hpc hf =>
          show t.m.mAdmission.mRejections = _
          rw [hf.sameOutside.admission]
      | @register r t r' hpc hr =>
          show t.m.mAdmission.mRejections = _
          rw [hr.sameOutside.admission]
      | _ => rfl
  | aging hm => cases hm <;> rfl
  | switch k pc hactor hpc hm => cases hm <;> rfl
  | _ => rfl

/-! ## What the ledger says of the counters

One entry for each rejection, with the call it is about. -/

/-- The call has decided to leave with this error, or has left. -/
def SubmitPc.LeavesWith (pc : SubmitPc) (e : SubmitError) : Prop :=
  pc = .backOut e ∨ pc = .returned (.error e)

/-- A call that is leaving with an error goes on leaving with it. -/
theorem Move.leavesWith (h : Move cfg ev s s') {i : CallId} {e : SubmitError}
    (hi : ∃ c, s.calls[i]? = some c ∧ c.pc.LeavesWith e) :
    ∃ c, s'.calls[i]? = some c ∧ c.pc.LeavesWith e := by
  obtain ⟨c, hc, hleaves⟩ := hi
  have hlen := (List.getElem?_eq_some_iff.mp hc).1
  rcases h.call_cases hc with hsame | ⟨-, hm⟩
  · exact ⟨c, hsame, hleaves⟩
  · -- the one step such a call can take returns the error
    cases hm with
    | backOut error hpc =>
        rcases hleaves with hback | hret
        · rw [hback] at hpc
          obtain rfl := Option.some.inj hpc
          exact ⟨_, List.getElem?_set_self hlen, Or.inr rfl⟩
        · rw [hret] at hpc
          cases hpc
    | reject _ _ hpc | advance _ _ hpc =>
        rcases hleaves with hback | hret
        · rw [hback] at hpc
          cases hpc
        · rw [hret] at hpc
          cases hpc
    | shut hpc | opened hpc | reserve hpc | holdId hpc | enqueued _ _ _ hpc | notEnqueued _ _ hpc
    | releaseSlot hpc | countHeld _ hpc | unselected _ hpc | selected _ hpc | assignId _ hpc
    | refused _ _ hpc | accepted _ _ _ hpc | countDispatched _ hpc | register _ hpc =>
        rw [hpc] at hleaves
        rcases hleaves with heq | heq <;> cases heq

/-- The counters of a state against the ledger of its run. -/
structure AuditInv (s : State F) (rejected : List (CallId × SubmitError)) : Prop where
  rejections : ∀ e, s.m.mAdmission.mRejections e = rejected.countP fun r => decide (r.2 = e)
  leaving : ∀ r ∈ rejected, ∃ c, s.calls[r.1]? = some c ∧ c.pc.LeavesWith r.2
  once : (rejected.map Prod.fst).Nodup
  submitted : s.m.mTotalSubmitted = countedCalls s.calls

/-- Nothing is counted and nothing is listed. -/
theorem AuditInv.create (cfg : BalancerConfig F) : AuditInv (State.create cfg) [] where
  rejections _ := rfl
  leaving _ h := by cases h
  once := List.nodup_nil
  submitted := rfl

/-- A call on which the gate decides has not been rejected yet. -/
theorem gateVerdict_leavesWith {inp : Input} {c : Call} {e e' : SubmitError}
    (h : gateVerdict inp s c = some e) : ¬c.pc.LeavesWith e' := by
  rintro (hpc | hpc) <;> rw [gateVerdict, hpc] at h <;> cases h

/-- The verdict of a step of `submit`. -/
theorem noteRejection_submit {rejected : List (CallId × SubmitError)} {i : CallId} {c : Call}
    (hactor : ev.actor = .submit i) (hc : s.calls[i]? = some c) :
    noteRejection s ev rejected =
      (gateVerdict ev.input s c).elim rejected fun e => (i, e) :: rejected := by
  unfold noteRejection State.rejects
  rw [hactor]
  dsimp only
  rw [hc, Option.bind_some]
  cases gateVerdict ev.input s c <;> rfl

/-- Other threads reject nothing. -/
theorem noteRejection_other {rejected : List (CallId × SubmitError)}
    (hactor : ∀ i, ev.actor ≠ .submit i) : noteRejection s ev rejected = rejected := by
  unfold noteRejection State.rejects
  cases hev : ev.actor <;> first | rfl | exact absurd hev (hactor _)

/-- A listed call leaves with an error. -/
theorem AuditInv.listed {rejected : List (CallId × SubmitError)} (h : AuditInv s rejected)
    {i : CallId} {c : Call} (hc : s.calls[i]? = some c) (hmem : i ∈ rejected.map Prod.fst) :
    ∃ e, c.pc.LeavesWith e := by
  obtain ⟨r, hr, rfl⟩ := List.mem_map.mp hmem
  obtain ⟨c', hc', hleaves⟩ := h.leaving r hr
  obtain rfl := Option.some.inj (hc.symm.trans hc')
  exact ⟨r.2, hleaves⟩

/-- A call on which the gate decides is not in the ledger yet. -/
theorem AuditInv.unlisted {rejected : List (CallId × SubmitError)} (h : AuditInv s rejected)
    {inp : Input} {i : CallId} {c : Call} {e : SubmitError} (hc : s.calls[i]? = some c)
    (hverdict : gateVerdict inp s c = some e) : i ∉ rejected.map Prod.fst := by
  intro hmem
  obtain ⟨e', hleaves⟩ := h.listed hc hmem
  exact gateVerdict_leavesWith hverdict hleaves

/-- One step of the balancer and its ledger. -/
theorem AuditInv.next {rejected : List (CallId × SubmitError)} (h : AuditInv s rejected)
    (hstep : step cfg s ev = some s') : AuditInv s' (noteRejection s ev rejected) := by
  have hmove := step_move hstep
  have hsubmitted : s'.m.mTotalSubmitted = countedCalls s'.calls := by
    have htraded := hmove.counted
    have hbefore := h.submitted
    omega
  by_cases hactor : ∃ i, ev.actor = .submit i
  · obtain ⟨i, hactor⟩ := hactor
    rw [step, hactor] at hstep
    obtain ⟨c, hc, hsubmit⟩ := Option.bind_eq_some_iff.mp hstep
    have hlen := (List.getElem?_eq_some_iff.mp hc).1
    obtain ⟨hcounts, hback⟩ := submitStep_rejects hlen hsubmit
    rw [noteRejection_submit hactor hc]
    cases hverdict : gateVerdict ev.input s c with
    | none =>
        -- the gate has nothing against the call, and counts nothing
        rw [hverdict] at hcounts
        refine ⟨fun e => ?_, fun r hr => hmove.leavesWith (h.leaving r hr), h.once, hsubmitted⟩
        rw [hcounts e, if_neg (by rintro ⟨⟩), Nat.add_zero]
        exact h.rejections e
    | some e =>
        -- one more entry for one more count
        rw [hverdict] at hcounts
        rw [Option.elim_some]
        refine ⟨fun e' => ?_, fun r hr => ?_, ?_, hsubmitted⟩
        · rw [hcounts e', h.rejections e', List.countP_cons]
          by_cases he : e = e'
          · simp [he]
          · simp [he]
        · rcases List.mem_cons.mp hr with rfl | hr
          · obtain ⟨c', hc', hpc⟩ := hback e hverdict
            exact ⟨c', hc', Or.inl hpc⟩
          · exact hmove.leavesWith (h.leaving r hr)
        · rw [List.map_cons, List.nodup_cons]
          exact ⟨h.unlisted hc hverdict, h.once⟩
  · have hother : ∀ i, ev.actor ≠ .submit i := fun i hi => hactor ⟨i, hi⟩
    rw [noteRejection_other hother]
    refine ⟨fun e => ?_, fun r hr => hmove.leavesWith (h.leaving r hr), h.once, hsubmitted⟩
    rw [hmove.rejections hother]
    exact h.rejections e

/-- In every reachable state. -/
theorem auditInv_reach {x : State F × List (CallId × SubmitError)}
    (hx : (auditedBalancer cfg).Reach Machine.anyEvent x) : AuditInv x.1 x.2 := by
  have hcreate : AuditInv (balancer cfg).init ([] : List (CallId × SubmitError)) := .create cfg
  have hx : ((balancer cfg).observe [] noteRejection).Reach
      (fun y e => Machine.anyEvent y.1 e) x := hx
  apply Machine.Reach.observed hcreate _ hx
  intro s s' ev rejected _ hinv _ hstep
  exact hinv.next hstep

/-! ## What the metrics report

`totalRejected` is the sum over the error codes. -/

/-- The call has returned. -/
def SubmitPc.over : SubmitPc → Bool
  | .returned _ => true
  | _ => false

/-- The call at this position has returned an error that the gate has not decided. -/
def erredElsewhere (s : State F) (rejected : List (CallId × SubmitError)) (i : CallId) : Bool :=
  ((s.calls[i]?).any fun c => c.pc.rejected) && !(rejected.map Prod.fst).contains i

/-- The calls that returned an error which the gate has not decided: by the draining gate, the
deadline check, a failed `enqueue`, the policy, an unknown node or a node's refusal. -/
def errorsElsewhere (s : State F) (rejected : List (CallId × SubmitError)) : Nat :=
  (List.range s.calls.length).countP (erredElsewhere s rejected)

/-- As the balancer reports it. -/
theorem totalRejected_eq {counts : SubmitError → Nat} {rejected : List (CallId × SubmitError)}
    (h : ∀ e, counts e = rejected.countP fun r => decide (r.2 = e)) :
    SubmitError.all.foldl (fun sum e => sum + counts e) 0 = rejected.length := by
  simp only [SubmitError.all, List.foldl_cons, List.foldl_nil, h]
  clear h
  induction rejected with
  | nil => rfl
  | cons r rejected ih =>
      obtain ⟨i, e⟩ := r
      simp only [List.countP_cons, List.length_cons]
      cases e <;> simp <;> omega

/-- A call that is over has returned something. -/
theorem exists_of_over {pc : SubmitPc} (h : pc.over = true) : ∃ result, pc = .returned result := by
  unfold SubmitPc.over at h
  split at h
  · exact ⟨_, rfl⟩
  · cases h

/-- A call that has returned is counted as submitted, listed, or has erred elsewhere. -/
theorem AuditInv.attempt {rejected : List (CallId × SubmitError)} (h : AuditInv s rejected)
    {i : CallId} {c : Call} (hc : s.calls[i]? = some c) (hover : c.pc.over = true) :
    c.pc.counted.toNat + (rejected.map Prod.fst).countP (fun j => j == i) +
      (erredElsewhere s rejected i).toNat = 1 := by
  have hcount : (rejected.map Prod.fst).countP (fun j => j == i) =
      if i ∈ rejected.map Prod.fst then 1 else 0 := h.once.count
  obtain ⟨result, hpc⟩ := exists_of_over hover
  rw [hcount]
  unfold erredElsewhere
  rw [hc]
  cases result with
  | ok handle =>
      have hnot : i ∉ rejected.map Prod.fst := by
        intro hmem
        obtain ⟨e, hleaves⟩ := h.listed hc hmem
        rw [hpc] at hleaves
        rcases hleaves with heq | heq <;> cases heq
      simp [hpc, hnot, SubmitPc.counted, SubmitPc.rejected]
  | error e =>
      by_cases hmem : i ∈ rejected.map Prod.fst
      · simp [hpc, hmem, SubmitPc.counted, SubmitPc.rejected]
      · simp [hpc, hmem, SubmitPc.counted, SubmitPc.rejected]

/-- Once no call is in progress, every call is counted as submitted, listed, or neither because it
erred elsewhere. -/
theorem AuditInv.attempts {rejected : List (CallId × SubmitError)} (h : AuditInv s rejected)
    (hover : ∀ c ∈ s.calls, c.pc.over = true) :
    s.calls.length = s.m.mTotalSubmitted + rejected.length + errorsElsewhere s rejected := by
  have hone : ∀ i ∈ List.range s.calls.length,
      (s.calls[i]?).elim 0 (fun c => c.pc.counted.toNat) +
        (rejected.map Prod.fst).countP (fun j => j == i) +
          (erredElsewhere s rejected i).toNat = 1 := by
    intro i hi
    obtain ⟨c, hc⟩ : ∃ c, s.calls[i]? = some c :=
      ⟨_, List.getElem?_eq_getElem (List.mem_range.mp hi)⟩
    rw [hc, Option.elim_some]
    exact h.attempt hc (hover c (List.mem_of_getElem? hc))
  have hsum : Table.total (fun i => (s.calls[i]?).elim 0 (fun c => c.pc.counted.toNat) +
        (rejected.map Prod.fst).countP (fun j => j == i) +
          (erredElsewhere s rejected i).toNat) (List.range s.calls.length) = s.calls.length := by
    unfold Table.total
    rw [List.map_congr_left hone]
    simp
  -- every listed call is a position of the table
  have hlisted : Table.total (fun i => (rejected.map Prod.fst).countP (fun j => j == i))
      (List.range s.calls.length) = rejected.length := by
    have hkeys := Table.total_countP_key id (rejected.map Prod.fst) (n := s.calls.length)
      fun i hi => by
        obtain ⟨r, hr, rfl⟩ := List.mem_map.mp hi
        obtain ⟨c, hc, -⟩ := h.leaving r hr
        exact (List.getElem?_eq_some_iff.mp hc).1
    rw [List.length_map] at hkeys
    exact hkeys
  rw [Table.total_add, Table.total_add, Table.total_range, hlisted,
    Table.total_toNat (erredElsewhere s rejected)] at hsum
  rw [h.submitted]
  exact hsum.symm

/-- **Rejections of the gate, and only those, are counted.**  In every run the ledger of the gate
lists a call at most once, under the error it leaves with; `rejectionsByCode` counts the listed calls
by error and `totalRejected` counts them all.  Once no call is in progress, the attempts are the
submitted jobs, the rejected ones and the calls that erred elsewhere. -/
theorem gate_rejections_counted {x : State F × List (CallId × SubmitError)}
    (hx : (auditedBalancer cfg).Reach Machine.anyEvent x) (w : ThroughputWindow) (now : TimePoint)
    (nodeMetrics : List LoadMetrics) :
    let cm := (x.1.m.buildClusterMetrics w now nodeMetrics).1
    (x.2.map Prod.fst).Nodup ∧
    (∀ r ∈ x.2, ∃ c, x.1.calls[r.1]? = some c ∧ c.pc.LeavesWith r.2) ∧
    (∀ e, cm.rejectionsByCode e = x.2.countP fun r => decide (r.2 = e)) ∧
    cm.totalRejected = x.2.length ∧
    ((∀ c ∈ x.1.calls, c.pc.over = true) →
      x.1.calls.length =
        cm.totalSubmitted + cm.totalRejected + errorsElsewhere x.1 x.2) := by
  intro cm
  have hinv := auditInv_reach hx
  have htotal : cm.totalRejected = x.2.length := totalRejected_eq hinv.rejections
  refine ⟨hinv.once, hinv.leaving, hinv.rejections, htotal, fun hover => ?_⟩
  rw [htotal]
  exact hinv.attempts hover

/-- A job whose deadline has passed: the call takes four steps and is listed nowhere. -/
def lateJob : Job := { deadline := some 0 }

/-- A late job, and then a bulk job that the gate turns away while it sheds bulk. -/
def shedScript : List Event :=
  submitScript 0 lateJob 3 {} ++ { actor := .setShedBulk true } ::
    submitScript 1 { priority := .bulk } 5 {}

theorem gate_rejections_counted_shed :
    ∃ x, (auditedBalancer oneNode).Reach Machine.anyEvent x ∧
      x.2 = [(1, .priorityRejected)] ∧ errorsElsewhere x.1 x.2 = 1 ∧
      (let cm := (x.1.m.buildClusterMetrics { mThroughputSampleTime := 0 } 0 []).1
      cm.rejectionsByCode .priorityRejected = 1 ∧ cm.totalRejected = 1 ∧
      x.1.calls.length =
        cm.totalSubmitted + cm.totalRejected + errorsElsewhere x.1 x.2) := by
  obtain ⟨x, hx, hp⟩ := Machine.exists_reach (auditedBalancer oneNode) Machine.anyEvent shedScript
    (fun x => (x.1.calls.all fun c => c.pc.over) &&
      decide (x.2 = [(1, .priorityRejected)] ∧ errorsElsewhere x.1 x.2 = 1)) (by decide +kernel)
  rw [Bool.and_eq_true, decide_eq_true_eq] at hp
  obtain ⟨hover, hledger, herred⟩ := hp
  have hcounted := gate_rejections_counted hx { mThroughputSampleTime := 0 } 0 []
  obtain ⟨-, -, hcodes, htotal, hattempts⟩ := hcounted
  refine ⟨x, hx, hledger, herred, ?_, ?_, hattempts (List.all_eq_true.mp hover)⟩
  · rw [hcodes, hledger]
    rfl
  · rw [htotal, hledger]
    rfl

/-- The error the call has returned. -/
def SubmitPc.error? : SubmitPc → Option SubmitError
  | .returned (.error e) => some e
  | _ => none

/-- **Errors outside the gate are counted nowhere.**  The one call of this run has returned
`DeadlineUnachievable`, and the metrics know of no rejection. -/
theorem late_job_uncounted :
    ∃ s : State Rat, (balancer oneNode).Reach Machine.anyEvent s ∧
      (let cm := (s.m.buildClusterMetrics { mThroughputSampleTime := 0 } 0 []).1
      (s.calls.all fun c => c.pc.over) = true ∧
      (s.calls.countP fun c => c.pc.error? == some .deadlineUnachievable) = 1 ∧
      cm.rejectionsByCode .deadlineUnachievable = 0 ∧ cm.totalRejected = 0 ∧
      s.calls.length ≠ cm.totalSubmitted + cm.totalRejected) := by
  obtain ⟨s, hs, hp⟩ := Machine.exists_reach (balancer oneNode) Machine.anyEvent
    (submitScript 0 lateJob 3 {})
    (fun s =>
      let cm := (s.m.buildClusterMetrics { mThroughputSampleTime := 0 } 0 []).1
      decide ((s.calls.all fun c => c.pc.over) = true ∧
        (s.calls.countP fun c => c.pc.error? == some .deadlineUnachievable) = 1 ∧
        cm.rejectionsByCode .deadlineUnachievable = 0 ∧ cm.totalRejected = 0 ∧
        s.calls.length ≠ cm.totalSubmitted + cm.totalRejected)) (by decide +kernel)
  exact ⟨s, hs, of_decide_eq_true hp⟩

end FatpBalancer
