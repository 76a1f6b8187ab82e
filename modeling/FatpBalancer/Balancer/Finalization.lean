/-
# Finalisations under way

What a running `finalizeJobLifecycle` knows of its job: the dispatch it left and what the node said
of it, or that the job left the queue without ever being dispatched.  A job has one dispatch at
most, and leaves once.

* The first part reads the accounting of the places the other way round: two dispatches of one job
  are the same dispatch, a job that left while it was held has none, and a job in some thread's
  hands has not been finalised.
* `Finalizes` is then the invariant of a running finalisation, with a case for a dispatched job,
  whose dispatch has left its node and keeps what it has heard, and a case for a job dropped or
  cancelled out of the queue.

Together they say what the cost model is taught: the job that the node handed back, once, and only
when it succeeded.
-/
import FatpBalancer.Balancer.Lifecycle
import FatpBalancer.Balancer.Registration

universe u

namespace FatpBalancer

open Machine

variable {F : Type u} [FloatOps F] {cfg : BalancerConfig F} {inp : Input} {ev : Event}
  {s s' : State F}

/-! ## One dispatch for each job

The places of a job add up to one, so every two of them exclude each other. -/

/-- A dispatch is on its node or has left it. -/
theorem Dispatch.onNode_or_left (d : Dispatch) (i : CallId) :
    owns i d.onNode + owns i d.left = owns i (some d.call) := by
  unfold Dispatch.onNode Dispatch.left
  cases d.side <;> simp

/-- Each dispatch of a job takes up one of the job's places. -/
theorem dispatches_le_places (l : List Dispatch) (i : CallId) :
    Table.total (fun d => owns i (some d.call)) l = onNodes l i + leftNodes l i := by
  rw [onNodes, leftNodes, ← Table.total_add]
  simp only [Dispatch.onNode_or_left]

/-- A dispatch is a place. -/
theorem one_le_places {l : List Dispatch} {k : Nat} {d : Dispatch} (hd : l[k]? = some d) :
    1 ≤ onNodes l d.call + leftNodes l d.call := by
  have hone : owns d.call (some d.call) ≤
      Table.total (fun d₁ : Dispatch => owns d.call (some d₁.call)) l :=
    Table.le_total (w := fun d₁ : Dispatch => owns d.call (some d₁.call)) hd
  rwa [dispatches_le_places, owns_self] at hone

/-- An entry of the queue is a place. -/
theorem one_le_heldJobs {entries : List HeldEntry} {e : HeldEntry} (he : e ∈ entries) :
    1 ≤ heldJobs entries e.onDone.call := by
  obtain ⟨k, hk⟩ := List.getElem?_of_mem he
  have hone : owns e.onDone.call (some e.onDone.call) ≤ heldJobs entries e.onDone.call :=
    Table.le_total (w := fun x : HeldEntry => owns e.onDone.call (some x.onDone.call)) hk
  rwa [owns_self] at hone

/-- A job is dispatched once. -/
theorem AccountingInv.dispatch_unique (h : AccountingInv s) {j k : Nat} {d d' : Dispatch}
    (hj : s.dispatches[j]? = some d) (hk : s.dispatches[k]? = some d') (hcall : d.call = d'.call) :
    j = k := by
  by_contra hne
  have hle := h.ended_le d.call
  have htwo : owns d.call (some d.call) + owns d.call (some d'.call) ≤
      Table.total (fun d₁ : Dispatch => owns d.call (some d₁.call)) s.dispatches :=
    Table.add_le_total (w := fun d₁ : Dispatch => owns d.call (some d₁.call)) hj hk hne
  rw [dispatches_le_places, ← hcall, owns_self] at htwo
  unfold waiting ended at hle
  omega

/-- The job of call `i` left the system while it was held. -/
def leftHeld (s : State F) (i : CallId) : Prop := i ∈ s.dropped ∨ i ∈ s.removed

/-- A job that left while it was held has no dispatch. -/
theorem AccountingInv.not_dispatched (h : AccountingInv s) {i : CallId} (hi : leftHeld s i) {k : Nat}
    {d : Dispatch}
    (hd : s.dispatches[k]? = some d) : d.call ≠ i := by
  rintro rfl
  have hle := h.ended_le d.call
  have hone := one_le_places hd
  unfold waiting ended at hle
  rcases hi with hi | hi
  · have := List.count_pos_iff.mpr hi
    omega
  · have := List.count_pos_iff.mpr hi
    omega

/-- A job that is held or on its node has not ended. -/
theorem AccountingInv.not_ended (h : AccountingInv s) {i : CallId} (hi : 0 < waiting s i) :
    ended s i = 0 ∧ finalizedCount s i = 0 := by
  have hle := h.ended_le i
  have := h.settled i
  omega

/-- A job on its node has not been finalised. -/
theorem AccountingInv.live_unfinalized (h : AccountingInv s) {k : Nat} {d : Dispatch}
    (hd : s.dispatches[k]? = some d) (hon : d.onNode = some d.call) :
    finalizedCount s d.call = 0 := by
  have hone : owns d.call d.onNode ≤ onNodes s.dispatches d.call :=
    Table.le_total (w := fun d₁ : Dispatch => owns d.call d₁.onNode) hd
  rw [hon, owns_self] at hone
  refine (h.not_ended ?_).2
  unfold waiting
  omega

/-- A dispatch whose job has been finalised has left its node. -/
theorem AccountingInv.left_of_finalized (h : AccountingInv s) {k : Nat} {d : Dispatch}
    (hd : s.dispatches[k]? = some d) (hpos : 0 < finalizedCount s d.call) :
    d.left = some d.call := by
  by_contra hne
  have hon : d.onNode = some d.call := by
    unfold Dispatch.left at hne
    unfold Dispatch.onNode
    split at hne <;> simp_all
  have := h.live_unfinalized hd hon
  omega

/-- The job a registering `submit` call finalises is the one of its registration. -/
theorem SubmitPc.handles_of_register {pc : SubmitPc} {r : Register} (h : pc.register? = some r) :
    pc.handles = r.handles := by
  cases pc <;> simp_all [SubmitPc.register?, SubmitPc.handles]

/-- The job the registering drain thread finalises is the one of its registration. -/
theorem DrainPc.handles_of_register {pc : DrainPc} {r : Register} (h : pc.register? = some r) :
    pc.handles = r.handles := by
  cases pc <;> simp_all [DrainPc.register?, DrainPc.handles]

/-- A job that is being finalised is not finalised yet. -/
theorem AccountingInv.finalizing_unfinalized (h : AccountingInv s) {f : Finalize}
    (hf : Finalizing s f) : finalizedCount s f.call = 0 := by
  have hle := h.ended_le f.call
  have hsettled := h.settled f.call
  -- `settled`: a job that a thread is handling is counted there and not as finalised
  suffices 0 < handling s f.call by omega
  unfold handling
  cases hf with
  | register who r hr hstage =>
      have hhandles : r.handles = some f.call := by rw [Register.handles, hstage]
      cases who with
      | none =>
          have : owns f.call s.drain.handles = 1 := by
            rw [DrainPc.handles_of_register hr, hhandles, owns_self]
          omega
      | some i =>
          obtain ⟨c, hc, hpc⟩ := Option.bind_eq_some_iff.mp hr
          have : owns f.call c.pc.handles ≤ callsHandle s.calls f.call :=
            Table.le_total (w := fun c : Call => owns f.call c.pc.handles) hc
          rw [SubmitPc.handles_of_register hpc, hhandles, owns_self] at this
          omega
  | node k d hd hside =>
      have : owns f.call d.handles + owns f.call d.early ≤ nodesHandle s.dispatches f.call :=
        Table.le_total (w := fun d : Dispatch => owns f.call d.handles + owns f.call d.early) hd
      rw [Dispatch.handles, hside, owns_self] at this
      omega
  | cancel c hc hpc =>
      obtain ⟨k, hk⟩ := List.getElem?_of_mem hc
      have : owns f.call c.pc.handles ≤ cancelsHandle s.allCancels f.call :=
        Table.le_total (w := fun c : CancelCall => owns f.call c.pc.handles) hk
      rw [hpc, CancelPc.handles, owns_self] at this
      omega
  | dropping hpc =>
      have : owns f.call s.drain.handles = 1 := by rw [hpc, DrainPc.handles, owns_self]
      omega

/-! ## What a finalisation knows

A finalisation is opened with the job, the result and the handles of its caller and changes none of
them, so what is true when it opens has only to be kept: by its own steps, and by the steps of
everyone else. -/

/-- A finalisation that ends this dispatch. -/
structure FinalizesDispatch (f : Finalize) (d : Dispatch) : Prop where
  call : d.call = f.call
  handle : f.routedHandle = some d.handle
  left : d.left = some d.call
  succeeded : f.succeeded = true → ∃ completed, d.report = some (completed, true) ∧
    f.finishedJob = mergeCompleted d.capturedJob completed
  failed : f.succeeded = false → ∀ completed, d.report ≠ some (completed, true)
  published : d.side ≠ .cancelled →
    d.regState.published = true ∧ f.finishedJob.id = d.capturedJob.id

/-- What a running finalisation knows of its job. -/
structure Finalizes (s : State F) (f : Finalize) : Prop where
  dispatched : ∀ k, f.dispatch = some k →
    ∃ d, s.dispatches[k]? = some d ∧ FinalizesDispatch f d
  held : f.dispatch = none →
    f.succeeded = false ∧ f.routedHandle = none ∧ leftHeld s f.call
  learned : f.succeeded = true → f.stage ≠ .learn → (f.dispatch, f.finishedJob) ∈ s.updates

/-- Every finalisation under way knows its job. -/
structure FinalizingInv (s : State F) : Prop where
  finalizes : ∀ {f : Finalize}, Finalizing s f → Finalizes s f
  dropping : ∀ {entry : HeldEntry}, s.drain = .dropRelease entry → leftHeld s entry.onDone.call
  removing : ∀ {c : CancelCall} {entry : HeldEntry}, c ∈ s.allCancels → c.pc = .releaseSlot entry →
    leftHeld s entry.onDone.call

/-- A dispatch that has left its node keeps what it has heard. -/
structure Dispatch.Past (d d' : Dispatch) : Prop where
  left : d'.left = some d'.call
  report : d'.report = d.report
  published : d.regState.published = true → d'.regState.published = true
  cancelled : d.side = .cancelled → d'.side = .cancelled

/-- A dispatch that is past stays past, whatever else happens to it. -/
theorem DispatchMove.past {k : Nat} {d d' : Dispatch} (h : DispatchMove k d d')
    (hleft : d.left = some d.call) : d.Past d' := by
  cases h with
  | flags d' hcore =>
      have hsame := Dispatch.sameCore hcore
      refine ⟨?_, hsame.report, fun hp => ?_, fun hc => ?_⟩
      · rw [Dispatch.left, hsame.side, hsame.call]
        exact hleft
      · rw [hsame.regState, hp]
      · rw [hsame.side, hc]
  | finish completed succeeded hside | early completed succeeded hside
  | enter completed succeeded hside | cancel hside =>
      rw [Dispatch.left, hside] at hleft
      cases hleft
  | finalize f f' d' hside hcore =>
      have hsame := Dispatch.sameCore hcore
      refine ⟨by cases f' <;> rfl, hsame.report, fun hp => ?_, fun hc => ?_⟩
      · rw [← hsame.regState] at hp
        exact hp
      · rw [hside] at hc
        cases hc
  | publish handle => exact ⟨hleft, rfl, fun _ => rfl, id⟩

/-- The dispatch of a running finalisation is touched by no other thread. -/
theorem FinalizesDispatch.next {f : Finalize} {k : Nat} {d d' : Dispatch}
    (h : FinalizesDispatch f d) (hm : DispatchMove k d d') : FinalizesDispatch f d' := by
  have hpast := hm.past h.left
  obtain ⟨hcall, hjob, hhandle, -⟩ := hm.same
  refine ⟨hcall.trans h.call, by rw [hhandle, h.handle], hpast.left, fun hs => ?_, fun hf => ?_,
    fun hc => ?_⟩
  · rw [hpast.report, hjob]
    exact h.succeeded hs
  · rw [hpast.report]
    exact h.failed hf
  · obtain ⟨hp, hid⟩ := h.published fun hside => hc (hpast.cancelled hside)
    exact ⟨hpast.published hp, hid.trans (congrArg Job.id hjob.symm)⟩

/-- The histories of dropped and removed jobs only grow. -/
theorem Move.leftHeld (h : Move cfg ev s s') {i : CallId} (hi : leftHeld s i) : leftHeld s' i := by
  cases h with
  | submit j c hc hm =>
      cases hm with
      | register r hpc hr =>
          exact hi.imp (hr.sameOutside.dropped ▸ ·) (hr.sameOutside.removed ▸ ·)
      | _ => exact hi
  | node k d hd hm =>
      cases hm with
      | finalize f hside hf =>
          exact hi.imp (hf.sameOutside.dropped ▸ ·) (hf.sameOutside.removed ▸ ·)
      | _ => exact hi
  | cancel c c' t cancels aging hm hrep =>
      cases hm with
      | removed => exact hi.imp_right (List.mem_cons_of_mem _)
      | finalize f hpc hf =>
          exact hi.imp (hf.sameOutside.dropped ▸ ·) (hf.sameOutside.removed ▸ ·)
      | _ => exact hi
  | drain hm =>
      cases hm with
      | drop => exact hi.imp_left (List.mem_cons_of_mem _)
      | dropping f hpc hf =>
          exact hi.imp (hf.sameOutside.dropped ▸ ·) (hf.sameOutside.removed ▸ ·)
      | register r hpc hr =>
          exact hi.imp (hr.sameOutside.dropped ▸ ·) (hr.sameOutside.removed ▸ ·)
      | _ => exact hi
  | aging hm => cases hm <;> exact hi
  | switch k pc hactor hpc hm => cases hm <;> exact hi
  | _ => exact hi

/-- What the cost model learns in one step of a finalisation. -/
theorem FinalizeMove.learns {f : Finalize} {f' : Option Finalize} (h : FinalizeMove s f s' f') :
    (s'.updates = s.updates ∧ s'.m.mCostModel = s.m.mCostModel ∧
      (f.stage = .learn → f.succeeded = false)) ∨
    f.succeeded = true ∧ s'.updates = (f.dispatch, f.finishedJob) :: s.updates ∧
      s'.m.mCostModel = s.m.mCostModel.update f.finishedJob := by
  have hdispatch : ∀ {t : State F} {g : Dispatch → Dispatch} {k : Option Nat},
      (modifyDispatch t k g).updates = t.updates ∧ (modifyDispatch t k g).m = t.m := by
    rintro t g (_ | k) <;> exact ⟨rfl, rfl⟩
  have hother : ∀ {stage}, f.stage = stage → stage ≠ .learn → f.stage = .learn →
      f.succeeded = false := fun hstage hne h => absurd (hstage.symm.trans h) hne
  cases h with
  | learn hstage hok => exact .inr ⟨hok, rfl, rfl⟩
  | skip hstage hfail => exact .inl ⟨rfl, rfl, fun _ => hfail⟩
  | count hstage | release hstage => exact .inl ⟨rfl, rfl, hother hstage (by decide)⟩
  | held hstage => exact .inl ⟨rfl, rfl, hother hstage (by decide)⟩
  | untrack hstage =>
      exact .inl ⟨hdispatch.1, by rw [hdispatch.2], hother hstage (by decide)⟩
  | unroute handle hstage =>
      refine .inl ⟨hdispatch.1, ?_, hother hstage (by decide)⟩
      rw [hdispatch.2, eraseRoutingState]
      split <;> rfl

/-- Registration teaches the model only through the finalisation at its end. -/
theorem RegisterMove.learns_nothing {r : Register} {r' : Option Register}
    (h : RegisterMove cfg inp s r s' r') (hstage : ∀ f, r.stage ≠ .finalize f) :
    s'.updates = s.updates ∧ s'.m.mCostModel = s.m.mCostModel ∧ s'.finalized = s.finalized := by
  cases h with
  | finalize f hf => exact absurd hf (hstage f)
  | _ => exact ⟨rfl, rfl, rfl⟩

/-- The cost model learns from finalisations of succeeded jobs and from nothing else. -/
theorem Move.learns (h : Move cfg ev s s') :
    (s'.updates = s.updates ∧
      ∃ enabled, s'.m.mCostModel = s.m.mCostModel.setDegradationEnabled enabled) ∨
    ∃ f, Finalizing s f ∧ f.succeeded = true ∧
      s'.updates = (f.dispatch, f.finishedJob) :: s.updates ∧
      s'.m.mCostModel = s.m.mCostModel.update f.finishedJob := by
  cases h.kind with
  | finalize f t f' calls dispatches cancels aging drain hf hm hmarks hs' =>
      subst hs'
      rcases hm.learns with ⟨hu, hc, -⟩ | ⟨hok, hu, hc⟩
      · exact .inl ⟨hu, s.m.mCostModel.mDegradationEnabled, hc⟩
      · exact .inr ⟨f, hf, hok, hu, hc⟩
  | register who r t r' calls drain hr hr' hm hstage hs' =>
      subst hs'
      obtain ⟨hu, hc, -⟩ := hm.learns_nothing hstage
      exact .inl ⟨hu, s.m.mCostModel.mDegradationEnabled, hc⟩
  | quiet hq => exact .inl ⟨hq.updates, hq.costModel⟩

/-- What the model has learned is never taken back. -/
theorem Move.updates_mono (h : Move cfg ev s s') {u : Option Nat × Job} (hu : u ∈ s.updates) :
    u ∈ s'.updates := by
  rcases h.learns with ⟨heq, -⟩ | ⟨f, -, -, heq, -⟩
  · rwa [heq]
  · rw [heq]
    exact List.mem_cons_of_mem _ hu

/-- A finalisation that the step does not concern knows what it knew. -/
theorem Finalizes.next {f : Finalize} (h : Finalizes s f) (hm : Move cfg ev s s') :
    Finalizes s' f where
  dispatched k hk := by
    obtain ⟨d, hd, hf⟩ := h.dispatched k hk
    obtain ⟨d', hd', hmove⟩ := hm.dispatch_next hd
    exact ⟨d', hd', hf.next hmove⟩
  held hnone := by
    obtain ⟨hfail, hhandle, hended⟩ := h.held hnone
    exact ⟨hfail, hhandle, hm.leftHeld hended⟩
  learned hs hstage := hm.updates_mono (h.learned hs hstage)

/-- A finalisation takes what it knows along. -/
theorem Finalizes.stepped {f f' : Finalize} (h : Finalizes s f) (hm : Move cfg ev s s')
    {t : State F} (hf : FinalizeMove s f t (some f')) (ht : s'.updates = t.updates) :
    Finalizes s' f' := by
  have hnext := h.next hm
  have hf' := hf.next
  rw [hf']
  refine ⟨fun k hk => ?_, hnext.held, fun hs _ => ?_⟩
  · obtain ⟨d, hd, hfd⟩ := hnext.dispatched k hk
    exact ⟨d, hd, hfd.call, hfd.handle, hfd.left, hfd.succeeded, hfd.failed, hfd.published⟩
  · rcases hf.learns with ⟨-, -, hfail⟩ | ⟨-, hu, -⟩
    · refine hnext.learned hs fun hstage => ?_
      rw [hfail hstage] at hs
      cases hs
    · rw [ht, hu]
      exact List.mem_cons_self

/-- What a finalisation knows when it begins. -/
theorem Opens.finalizes {f : Finalize} (h : Opens ev s s' f) (hm : Move cfg ev s s')
    (hi : FinalizingInv s) (hr : RegisteringInv s) (ha : AccountingInv s)
    (hreported : ∀ {k : Nat} {d : Dispatch}, s.dispatches[k]? = some d → d.Reported) :
    Finalizes s' f := by
  cases h with
  | enter k d completed succeeded f hd hside hpublished hf hd' =>
      subst hf
      refine ⟨fun j hj => ?_, by rintro ⟨⟩, fun _ hstage => absurd rfl hstage⟩
      obtain rfl := Option.some.inj hj
      have hrep := (hreported hd).finished completed succeeded hside
      refine ⟨_, hd', rfl, (hr.published hd).handle hpublished, rfl, fun hs => ?_, fun hs c => ?_,
        fun _ => ⟨hpublished, rfl⟩⟩
      · exact ⟨completed, by rw [hrep]; exact congrArg (fun b => some (completed, b)) hs, rfl⟩
      · have hs : succeeded = false := hs
        simp [hrep, hs]
  | early who r d job hrun hstage hd hearly hd' =>
      refine ⟨fun j hj => ?_, by rintro ⟨⟩, fun _ hstage => absurd rfl hstage⟩
      obtain rfl := Option.some.inj hj
      obtain ⟨d₀, hd₀⟩ := hr.registers hrun
      obtain rfl := Option.some.inj (hd₀.dispatch.symm.trans hd)
      obtain ⟨completed, hrep, rfl⟩ := (hreported hd).early job hearly
      -- its callback has been and gone
      have hside : d₀.side = .called :=
        (ha.consistent d₀ (List.mem_of_getElem? hd) (by simp [hearly])).1
      refine ⟨_, hd', rfl, congrArg some hd₀.handle.symm, ?_, fun hs => ?_, fun hs c => ?_,
        fun _ => ⟨rfl, rfl⟩⟩
      · simp [Dispatch.publish, Dispatch.left, hside]
      · have hs : d₀.regState.earlySucceeded = true := hs
        exact ⟨completed, by rw [Dispatch.publish, hrep, hs], rfl⟩
      · have hs : d₀.regState.earlySucceeded = false := hs
        simp [Dispatch.publish, hrep, hs]
  | hit c info k d hcall hpc hreply hd hhandle hlive hd' =>
      refine ⟨fun j hj => ?_, by rintro ⟨⟩, by rintro ⟨⟩⟩
      obtain rfl := Option.some.inj hj
      have hrep := (hreported hd).live hlive
      exact ⟨_, hd', rfl, congrArg some hhandle.symm, rfl, by rintro ⟨⟩, fun _ c => by simp [hrep],
        fun hne => absurd rfl hne⟩
  | dropped entry hpc =>
      exact ⟨by rintro _ ⟨⟩, fun _ => ⟨rfl, rfl, hm.leftHeld (hi.dropping hpc)⟩, by rintro ⟨⟩⟩
  | removed c entry hc hpc =>
      exact ⟨by rintro _ ⟨⟩, fun _ => ⟨rfl, rfl, hm.leftHeld (hi.removing hc hpc)⟩, by rintro ⟨⟩⟩

/-- A finalisation after a step was there before, has made a step, or has just been opened. -/
theorem FinalizingInv.next (h : FinalizingInv s) (hr : RegisteringInv s) (ha : AccountingInv s)
    (hreported : ∀ {k : Nat} {d : Dispatch}, s.dispatches[k]? = some d → d.Reported)
    (hm : Move cfg ev s s') : FinalizingInv s' := by
  refine ⟨fun {f} hf => ?_, fun {entry} hpc => ?_, fun {c' entry} hc' hpc' => ?_⟩
  · cases hm.finalizing hf with
    | kept hold => exact (h.finalizes hold).next hm
    | stepped f₀ t calls dispatches cancels aging drain hf₀ hfm hmarks =>
        exact (h.finalizes hf₀).stepped hm hfm rfl
    | opened ho => exact ho.finalizes hm h hr ha hreported
  · rcases hm.drain_cases with heq | hd
    · exact hm.leftHeld (h.dropping (heq ▸ hpc))
    · cases hd with
      -- the drop itself records that the job has left
      | drop entry' hpc' =>
          cases hpc
          exact .inl List.mem_cons_self
      | @dropping f t f' hpc' hf => cases f' <;> cases hpc
      | @register r t r' hpc' hr => cases r' <;> cases hpc
      | _ => cases hpc
  · rcases hm.allCancels_cases hc' with
      hold | ⟨hstart, -, -⟩ | ⟨c, t, cancels, aging, hc, -, hcm, rfl⟩
    · exact hm.leftHeld (h.removing hold hpc')
    · rw [hstart] at hpc'
      cases hpc'
    · cases hcm with
      | removed entry' queue hpc =>
          cases hpc'
          exact .inr List.mem_cons_self
      | @finalize f t o hpc hf => cases o <;> cases hpc'
      | _ => cases hpc'

/-- In every reachable state, under any assumption on the steps. -/
theorem finalizingInv_reach (hs : (balancer cfg).Reach anyEvent s) : FinalizingInv s := by
  refine hs.invariant ⟨fun {f} hf => ?_, nofun, nofun⟩ fun _ hr h _ hstep =>
    h.next (registeringInv_reach hr) (accountingInv_reach hr) (dispatch_reported hr)
      (step_move hstep)
  cases hf with
  | register who r hr => cases who <;> cases hr
  | node k d hd => cases hd
  | cancel c hc => cases hc
  | dropping hpc => cases hpc

/-- Every step that finalises a job is the last one of its finalisation. -/
theorem Move.finalizes (h : Move cfg ev s s') :
    s'.finalized = s.finalized ∨
      ∃ f, Finalizing s f ∧ f.stage = .release ∧
        s'.finalized = (f.call, s.m.mPolicy) :: s.finalized := by
  cases h.kind with
  | finalize f t f' calls dispatches cancels aging drain hf hm hmarks hs' =>
      subst hs'
      cases hm with
      | release hstage => exact .inr ⟨f, hf, hstage, rfl⟩
      | learn | skip | count | held => exact .inl rfl
      | untrack => exact .inl (by cases f.dispatch <;> rfl)
      | unroute => exact .inl (by cases f.dispatch <;> rfl)
  | register who r t r' calls drain hr hr' hm hstage hs' =>
      subst hs'
      exact .inl (hm.learns_nothing hstage).2.2
  | quiet hq => exact .inl hq.finalized

/-- The dispatch of a job that is being finalised is the one the finalisation is about. -/
theorem Finalizes.dispatch_eq {f : Finalize} (h : Finalizes s f) (ha : AccountingInv s) {k : Nat}
    {d : Dispatch} (hd : s.dispatches[k]? = some d) (hcall : d.call = f.call) :
    f.dispatch = some k ∧ FinalizesDispatch f d := by
  cases hk : f.dispatch with
  | none => exact absurd hcall (ha.not_dispatched (h.held hk).2.2 hd)
  | some j =>
      obtain ⟨d', hd', hf⟩ := h.dispatched j hk
      obtain rfl := ha.dispatch_unique hd' hd (hf.call.trans hcall.symm)
      obtain rfl := Option.some.inj (hd.symm.trans hd')
      exact ⟨rfl, hf⟩

end FatpBalancer
