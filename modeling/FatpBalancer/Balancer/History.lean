/-
# The life of one dispatch, and of one held entry

What a step can do to the record of one job: to its dispatch, to its entry in the holding queue or
in the drain thread's hands, and to the row of its `submit` call.  An invariant that speaks of single
records is proved over these few moves.

`DispatchMove` is the life of a dispatch: on its node, finished with a callback to come, in its
callback, or cancelled.  `dispatch_invariant` is the induction rule made of it: what a fresh
dispatch has and each move keeps, every dispatch has in every reachable state.

For held entries `QueueMove` says which operation of the queue a step performs, and `SameEntry` that
the entry in the loop's hands is the one that was taken out, up to its retries and its submission
time.  For calls there is one lemma each for the row a step writes, for the row it was made from,
and for the row of a call that has just been entered.
-/
import FatpBalancer.Balancer.Moves

universe u

namespace FatpBalancer

open Machine

variable {F : Type u} [FloatOps F] {cfg : BalancerConfig F} {inp : Input} {ev : Event}
  {s s' : State F}

/-- A dispatch as `acceptDispatch` makes it. -/
structure Dispatch.Fresh (d : Dispatch) : Prop where
  side : d.side = .live
  regState : d.regState = {}
  routed : d.routed = false
  settled : d.settled = false
  untracked : d.untracked = false
  report : d.report = none

/-- The moves of the dispatch at position `k`. -/
inductive DispatchMove (k : Nat) (d : Dispatch) : Dispatch → Prop
  /-- nothing but the history flags of registration and finalisation -/
  | flags (d' : Dispatch) (hcore : d'.core = d.core) : DispatchMove k d d'
  | finish (completed : Job) (succeeded : Bool) (hside : d.side = .live) :
      DispatchMove k d
        { d with side := .finished completed succeeded, report := some (completed, succeeded) }
  | early (completed : Job) (succeeded : Bool) (hside : d.side = .finished completed succeeded)
      (hpublished : d.regState.published = false) :
      DispatchMove k d
        { d with
          side := .called
          regState := { d.regState with
            earlyCompletedJob := some (mergeCompleted d.capturedJob completed)
            earlySucceeded := succeeded } }
  | enter (completed : Job) (succeeded : Bool) (hside : d.side = .finished completed succeeded)
      (hpublished : d.regState.published = true) :
      DispatchMove k d
        { d with
          side := .calling
            { finishedJob := mergeCompleted d.capturedJob completed
              routedHandle := d.regState.handle
              succeeded
              call := d.call
              dispatch := some k } }
  | finalize (f : Finalize) (f' : Option Finalize) (d' : Dispatch) (hside : d.side = .calling f)
      (hcore : d'.core = d.core) (hnext : ∀ g, f' = some g → g = { f with stage := g.stage }) :
      DispatchMove k d { d' with side := f'.elim .called .calling }
  | cancel (hside : d.side = .live) : DispatchMove k d { d with side := .cancelled }
  | publish (handle : JobHandle) : DispatchMove k d (d.publish handle)

/-- Two dispatches that differ at most in their history flags. -/
structure Dispatch.SameCore (d d' : Dispatch) : Prop where
  nodeId : d'.nodeId = d.nodeId
  handle : d'.handle = d.handle
  capturedJob : d'.capturedJob = d.capturedJob
  regState : d'.regState = d.regState
  side : d'.side = d.side
  call : d'.call = d.call
  report : d'.report = d.report

/-- A dispatch differs from itself in nothing. -/
theorem Dispatch.sameCore {d d' : Dispatch} (h : d'.core = d.core) : d.SameCore d' := by
  simp only [Dispatch.core, Dispatch.mk.injEq] at h
  obtain ⟨hnode, hhandle, hjob, hreg, hside, hcall, -, -, -, hreport⟩ := h
  exact ⟨hnode, hhandle, hjob, hreg, hside, hcall, hreport⟩

/-- The identity of a dispatch never changes. -/
theorem DispatchMove.same {k : Nat} {d d' : Dispatch} (h : DispatchMove k d d') :
    d'.call = d.call ∧ d'.capturedJob = d.capturedJob ∧ d'.handle = d.handle ∧
      d'.nodeId = d.nodeId := by
  cases h with
  | flags d' hcore =>
      have hsame := Dispatch.sameCore hcore
      exact ⟨hsame.call, hsame.capturedJob, hsame.handle, hsame.nodeId⟩
  | finalize f f' d' hside hcore =>
      have hsame := Dispatch.sameCore hcore
      exact ⟨hsame.call, hsame.capturedJob, hsame.handle, hsame.nodeId⟩
  | _ => exact ⟨rfl, rfl, rfl, rfl⟩

/-- What a step does to the table of dispatches: each row makes a move, and a fresh row may come
at the end. -/
def DispatchesMove (l l' : List Dispatch) : Prop :=
  (∀ (k : Nat) (d' : Dispatch), l'[k]? = some d' →
    (∃ d, l[k]? = some d ∧ DispatchMove k d d') ∨ l[k]? = none ∧ d'.Fresh) ∧
  l.length ≤ l'.length ∧ l'.length ≤ l.length + 1

/-- Equal cores, equal rows up to the flags. -/
theorem DispatchesMove.of_core {l l' : List Dispatch}
    (h : l'.map Dispatch.core = l.map Dispatch.core) : DispatchesMove l l' := by
  refine ⟨fun k d' hd' => ?_, ?_⟩
  · obtain ⟨d, hd, hcore⟩ := getElem?_core h.symm hd'
    exact .inl ⟨d, hd, .flags d' hcore.symm⟩
  · have := congrArg List.length h
    simp only [List.length_map] at this
    omega

/-- A table that is not touched. -/
theorem DispatchesMove.refl (l : List Dispatch) : DispatchesMove l l := .of_core rfl

/-- A fresh row at the end. -/
theorem DispatchesMove.append {l : List Dispatch} {d : Dispatch} (hd : d.Fresh) :
    DispatchesMove l (l ++ [d]) := by
  refine ⟨fun k d' hd' => ?_, by simp⟩
  rw [List.getElem?_append] at hd'
  split at hd'
  · exact .inl ⟨d', hd', .flags d' rfl⟩
  · next hk =>
      refine .inr ⟨List.getElem?_eq_none (by omega), ?_⟩
      cases hj : k - l.length with
      | zero =>
          obtain rfl : d = d' := by simpa [hj] using hd'
          exact hd
      | succ j => simp [hj] at hd'

/-- One row that makes a move. -/
theorem DispatchesMove.set {l : List Dispatch} {k : Nat} {d d' : Dispatch} (hd : l[k]? = some d)
    (h : DispatchMove k d d') : DispatchesMove l (l.set k d') := by
  refine ⟨fun j x hx => ?_, by simp⟩
  rcases Table.getElem?_set_cases hx with ⟨rfl, rfl⟩ | ⟨-, hx⟩
  · exact .inl ⟨d, hd, h⟩
  · exact .inl ⟨x, hx, .flags x rfl⟩

/-- Registration sets flags, and publishes its dispatch. -/
theorem RegisterMove.dispatches {r : Register} {r' : Option Register}
    (h : RegisterMove cfg inp s r s' r') : DispatchesMove s.dispatches s'.dispatches := by
  cases h with
  | insert | agingOff | track => exact .of_core (modifyDispatch_core fun _ => rfl)
  | agingOn | noDispatch => exact .refl _
  | publish d hstage hd | publishEarly d job hstage hd => exact .set hd (.publish _)
  | finalize f hstage hf => exact .of_core hf.dispatches_core

/-- The steps of a dispatch's own node. -/
theorem NodeMove.dispatches {k : Nat} {d : Dispatch} (hd : s.dispatches[k]? = some d)
    (h : NodeMove inp s k d s') : DispatchesMove s.dispatches s'.dispatches := by
  cases h with
  | finish hside => exact .set hd (.finish _ _ hside)
  | early completed succeeded hside hpublished => exact .set hd (.early _ _ hside hpublished)
  | enter completed succeeded hside hpublished => exact .set hd (.enter _ _ hside hpublished)
  | @finalize f t f' hside hf =>
      obtain ⟨d', hd', hcore⟩ := getElem?_core hf.dispatches_core hd
      have hlength := congrArg List.length hf.dispatches_core
      simp only [modifyDispatch, Table.modify_eq_set hd']
      simp only [List.length_map] at hlength
      refine ⟨fun j x hx => ?_, by simp only [List.length_set]; omega⟩
      rcases Table.getElem?_set_cases hx with ⟨rfl, rfl⟩ | ⟨-, hx⟩
      · exact .inl ⟨d, hd, .finalize f f' d' hside hcore fun g hg => by subst hg; exact hf.next⟩
      · exact (DispatchesMove.of_core hf.dispatches_core).1 j x hx

/-- A step moves every dispatch, and may add a fresh one. -/
theorem Move.dispatches (h : Move cfg ev s s') : DispatchesMove s.dispatches s'.dispatches := by
  cases h with
  | submit i c hc hm =>
      cases hm with
      | accepted => exact .append ⟨rfl, rfl, rfl, rfl, rfl, rfl⟩
      | register r hpc hr => exact hr.dispatches
      | _ => exact .refl _
  | node k d hd hm => exact hm.dispatches hd
  | cancel c c' t cancels aging hm hrep =>
      cases hm with
      | hit info k d hpc hd hnode hhandle hlive =>
          simp only [modifyDispatch, Table.modify_eq_set hd]
          exact .set hd (.cancel hlive)
      | finalize f hpc hf => exact .of_core hf.dispatches_core
      | _ => exact .refl _
  | drain hm =>
      cases hm with
      | accepted => exact .append ⟨rfl, rfl, rfl, rfl, rfl, rfl⟩
      | dropping f hpc hf => exact .of_core hf.dispatches_core
      | register r hpc hr => exact hr.dispatches
      | _ => exact .refl _
  | aging hm => cases hm <;> exact .refl _
  | switch k pc hactor hpc hm => cases hm <;> exact .refl _
  | _ => exact .refl _

/-- A dispatch stays where it is and makes a move. -/
theorem Move.dispatch_next (h : Move cfg ev s s') {k : Nat} {d : Dispatch}
    (hd : s.dispatches[k]? = some d) : ∃ d', s'.dispatches[k]? = some d' ∧ DispatchMove k d d' := by
  obtain ⟨hmove, hlength, -⟩ := h.dispatches
  have hk : k < s'.dispatches.length := (List.getElem?_eq_some_iff.mp hd).1.trans_le hlength
  refine ⟨_, List.getElem?_eq_getElem hk, ?_⟩
  rcases hmove k _ (List.getElem?_eq_getElem hk) with ⟨d₀, hd₀, hm⟩ | ⟨hnone, -⟩
  · rwa [Option.some.inj (hd.symm.trans hd₀)]
  · rw [hd] at hnone
    cases hnone

/-- **The invariant rule for single dispatches.** -/
theorem dispatch_invariant {P : Nat → Dispatch → Prop} (hfresh : ∀ k d, d.Fresh → P k d)
    (hstep : ∀ k d d', DispatchMove k d d' → P k d → P k d') {ok : State F → Event → Prop}
    (hs : (balancer cfg).Reach ok s) {k : Nat} {d : Dispatch} (hd : s.dispatches[k]? = some d) :
    P k d := by
  revert k d
  refine hs.invariant (I := fun s => ∀ {k d}, s.dispatches[k]? = some d → P k d) ?_ ?_
  · intro k d hd
    cases hd
  · intro s s' e _ ih _ h k d' hd'
    rcases (step_move h).dispatches.1 k d' hd' with ⟨d, hd, hm⟩ | ⟨-, hd'⟩
    · exact hstep k d d' hm (ih hd)
    · exact hfresh k d' hd'

/-! ## Where a fresh dispatch comes from

A node accepts a job in one step, in the hands of a `submit` call or of the drain thread, and mints
the handle in it. -/

/-- The fields `acceptDispatch` fills. -/
structure Dispatch.Accepted (d : Dispatch) (nodeId : NodeId) (job : Job) (call : CallId) :
    Prop where
  nodeId : d.nodeId = nodeId
  capturedJob : d.capturedJob = job
  call : d.call = call

/-- The new row is the last one. -/
theorem getElem?_append_fresh {l : List Dispatch} {k : Nat} {d d' : Dispatch}
    (hnone : l[k]? = none) (hd' : (l ++ [d])[k]? = some d') : d' = d := by
  rcases Table.getElem?_append_cases hd' with hold | rfl
  · rw [hnone] at hold
    cases hold
  · rfl

/-- A row that was not there before makes the table longer. -/
theorem length_lt_of_fresh {l l' : List Dispatch} {k : Nat} {d' : Dispatch}
    (hnone : l[k]? = none) (hd' : l'[k]? = some d') : l.length < l'.length := by
  have := List.getElem?_eq_none_iff.mp hnone
  have := (List.getElem?_eq_some_iff.mp hd').1
  omega

/-- Finalisation opens no dispatch. -/
theorem FinalizeMove.length_dispatches {f : Finalize} {f' : Option Finalize}
    (h : FinalizeMove s f s' f') : s'.dispatches.length = s.dispatches.length := by
  have := congrArg List.length h.dispatches_core
  simpa using this

/-- Nor does registration. -/
theorem RegisterMove.length_dispatches {r : Register} {r' : Option Register}
    (h : RegisterMove cfg inp s r s' r') : s'.dispatches.length = s.dispatches.length := by
  cases h with
  | finalize f hstage hf => exact hf.length_dispatches
  | insert | agingOff | track => simp [modifyDispatch]
  | agingOn | noDispatch => rfl
  | publish | publishEarly => simp

/-- The job this step hands to a node, with the handle the node mints for it. -/
def State.nodeMints (s : State F) (ev : Event) : Option (CallId × JobHandle) :=
  match ev.actor with
  | .submit i =>
      (s.calls[i]?).bind fun c =>
        match c.pc with
        | .nodeSubmit _ _ => ev.input.accepted.map fun handle => (i, handle)
        | _ => none
  | .drain =>
      match s.drain with
      | .nodeSubmit _ entry => ev.input.accepted.map fun handle => (entry.onDone.call, handle)
      | _ => none
  | _ => none

/-- A fresh dispatch is the job a `submit` call or the drain thread has just handed to a node. -/
theorem Move.fresh (h : Move cfg ev s s') {k : Nat} {d' : Dispatch}
    (hnone : s.dispatches[k]? = none) (hd' : s'.dispatches[k]? = some d') :
    s.nodeMints ev = some (d'.call, d'.handle) ∧
      ((∃ i c job, s.calls[i]? = some c ∧ c.pc = .nodeSubmit d'.nodeId job ∧
        d'.Accepted d'.nodeId job i) ∨
      ∃ entry, s.drain = .nodeSubmit d'.nodeId entry ∧
        d'.Accepted d'.nodeId entry.job entry.onDone.call) := by
  have hlt := length_lt_of_fresh hnone hd'
  cases h with
  | submit i c hc hm hactor =>
      cases hm with
      | accepted nodeId job handle hpc hin hfree =>
          obtain rfl := getElem?_append_fresh hnone hd'
          refine ⟨?_, .inl ⟨i, c, job, hc, hpc, rfl, rfl, rfl⟩⟩
          simp only [State.nodeMints, hactor, hc, Option.bind_some, hpc, hin, Option.map_some]
      | register r hpc hr => exact absurd hr.length_dispatches hlt.ne'
      | _ => exact absurd rfl hlt.ne
  -- all other steps overwrite dispatches in place
  | node k d hd hm =>
      cases hm with
      | finalize f hside hf =>
          exact absurd (by simp [modifyDispatch, hf.length_dispatches]) hlt.ne
      | _ => exact absurd (by simp) hlt.ne
  | cancel c c' t cancels aging hm hrep =>
      cases hm with
      | hit => exact absurd (by simp [modifyDispatch]) hlt.ne
      | finalize f hpc hf => exact absurd hf.length_dispatches hlt.ne'
      | _ => exact absurd rfl hlt.ne
  | drain hm hactor =>
      cases hm with
      | accepted nodeId entry handle hpc hin hfree =>
          obtain rfl := getElem?_append_fresh hnone hd'
          refine ⟨?_, .inr ⟨entry, hpc, rfl, rfl, rfl⟩⟩
          simp only [State.nodeMints, hactor, hpc, hin, Option.map_some]
      | dropping f hpc hf => exact absurd hf.length_dispatches hlt.ne'
      | register r hpc hr => exact absurd hr.length_dispatches hlt.ne'
      | _ => exact absurd rfl hlt.ne
  | aging hm => cases hm <;> exact absurd rfl hlt.ne
  | switch k pc hactor hpc hm => cases hm <;> exact absurd rfl hlt.ne
  | _ => exact absurd rfl hlt.ne

/-! ## Held entries

An entry is stored by a call, taken out by the drain thread or by a `cancel`, and put back by the
drain thread. -/

/-- The held entry in the drain thread's hands. -/
def DrainPc.entry? : DrainPc → Option HeldEntry
  | .entry e | .select e | .nodeSubmit _ e | .requeue e => some e
  | _ => none

/-- The entry for which a dispatch is being attempted. -/
def DrainPc.attempting : DrainPc → Option HeldEntry
  | .select e | .nodeSubmit _ e => some e
  | _ => none

/-- An entry whose drain thread has only counted a retry or stamped a submission time. -/
structure SameEntry (e e' : HeldEntry) : Prop where
  onDone : e'.onDone = e.onDone
  holdHandle : e'.holdHandle = e.holdHandle
  seq : e'.seq = e.seq
  job : ∃ submitted holdRetries,
    e'.job = { e.job with submitted := submitted, holdRetries := holdRetries }

/-- An entry is its own. -/
theorem SameEntry.refl (e : HeldEntry) : SameEntry e e := ⟨rfl, rfl, rfl, _, _, rfl⟩

/-- What one step does to the holding queue: nothing, or one operation of it. -/
inductive QueueMove (s s' : State F) : Prop
  | kept (hqueue : s'.m.mHoldingQueue = s.m.mHoldingQueue)
  | enqueued (i : CallId) (c : Call) (job : Job) (handle : JobHandle) (hc : s.calls[i]? = some c)
      (hpc : c.pc = .enqueue job)
      (hq : s.m.mHoldingQueue.enqueue job { capturedJob := job, call := i } =
        .ok (handle, s'.m.mHoldingQueue))
      (hc' : s'.calls[i]? = some { c with pc := .countHeld handle })
  | removed (handle : JobHandle) (entry : HeldEntry)
      (hq : s.m.mHoldingQueue.remove handle = some (entry, s'.m.mHoldingQueue))
  | taken (entry : HeldEntry) (hpc : s.drain = .looping)
      (hq : s.m.mHoldingQueue.tryDequeue = some (entry, s'.m.mHoldingQueue))
  | requeued (entry : HeldEntry) (handle : JobHandle) (hpc : s.drain = .requeue entry)
      (hq : s.m.mHoldingQueue.requeue entry = .ok (handle, s'.m.mHoldingQueue))

/-- Which operation of the queue a step performs, if any. -/
theorem Move.queue (h : Move cfg ev s s') : QueueMove s s' := by
  cases h with
  | submit i c hc hm =>
      cases hm with
      | enqueued job handle queue hpc hq =>
          have hi : i < s.calls.length := (List.getElem?_eq_some_iff.mp hc).1
          exact .enqueued i c job handle hc hpc hq (List.getElem?_set_self hi)
      | register r hpc hr => exact .kept hr.sameOutside.queue
      | _ => exact .kept rfl
  | node k d hd hm =>
      cases hm with
      | finalize f hside hf => exact .kept hf.sameOutside.queue
      | _ => exact .kept rfl
  | cancel c c' t cancels aging hm hrep =>
      cases hm with
      | removed entry queue hpc hbit hq => exact .removed c.handle entry hq
      | finalize f hpc hf => exact .kept hf.sameOutside.queue
      | _ => exact .kept rfl
  | drain hm =>
      cases hm with
      | take entry queue hpc hq => exact .taken entry hpc hq
      | requeued entry handle queue hpc hq => exact .requeued entry handle hpc hq
      | dropping f hpc hf => exact .kept hf.sameOutside.queue
      | register r hpc hr => exact .kept hr.sameOutside.queue
      | _ => exact .kept rfl
  | aging hm => cases hm <;> exact .kept rfl
  | switch k pc hactor hpc hm => cases hm <;> exact .kept rfl
  | _ => exact .kept rfl

/-- A stored entry was stored before, or has just been enqueued, or put back. -/
theorem Move.entries_cases (h : Move cfg ev s s') {e : HeldEntry}
    (he : e ∈ s'.m.mHoldingQueue.entries) :
    e ∈ s.m.mHoldingQueue.entries ∨
      (∃ i c job, s.calls[i]? = some c ∧ c.pc = .enqueue job ∧
        e = s.m.mHoldingQueue.newEntry job { capturedJob := job, call := i } ∧
        s'.calls[i]? = some { c with pc := .countHeld e.holdHandle }) ∨
      s.drain = .requeue e := by
  cases h.queue with
  | kept hqueue => exact .inl (hqueue ▸ he)
  | enqueued i c job handle hc hpc hq hc' =>
      obtain ⟨hstored, rfl, -⟩ := HoldingQueue.enqueue_stored hq
      rcases List.mem_cons.mp (hstored.entries.mem_iff.mp he) with rfl | he
      · exact .inr (.inl ⟨i, c, job, hc, hpc, rfl, hc'⟩)
      · exact .inl he
  | removed handle entry hq =>
      exact .inl ((HoldingQueue.remove_taken hq).1.entries.mem_iff.mpr (List.mem_cons_of_mem _ he))
  | taken entry hpc hq =>
      exact .inl ((HoldingQueue.tryDequeue_taken hq).entries.mem_iff.mpr
        (List.mem_cons_of_mem _ he))
  | requeued entry handle hpc hq =>
      have hstored := (HoldingQueue.requeue_stored hq).1
      rcases List.mem_cons.mp (hstored.entries.mem_iff.mp he) with rfl | he
      · exact .inr (.inr hpc)
      · exact .inl he

/-- The entry in the drain thread's hands was there before, or comes from the queue. -/
theorem Move.drain_entry (h : Move cfg ev s s') {e : HeldEntry} (he : s'.drain.entry? = some e) :
    (∃ e₀, s.drain.entry? = some e₀ ∧ SameEntry e₀ e) ∨
      s.drain = .looping ∧ e ∈ s.m.mHoldingQueue.entries := by
  rcases h.drain_cases with heq | hm
  · exact .inl ⟨e, heq ▸ he, .refl e⟩
  · cases hm with
    | take entry queue hpc hq =>
        obtain rfl : entry = e := Option.some.inj he
        exact .inr ⟨hpc, (HoldingQueue.tryDequeue_taken hq).entries.mem_iff.mpr
          List.mem_cons_self⟩
    | saturated entry hpc | offer entry hpc =>
        obtain rfl : entry = e := Option.some.inj he
        exact .inl ⟨entry, by rw [hpc]; rfl, .refl entry⟩
    | unselected entry hpc | refused nodeId entry hpc =>
        obtain rfl : retryEntry entry = e := Option.some.inj he
        exact .inl ⟨entry, by rw [hpc]; rfl, rfl, rfl, rfl, _, _, rfl⟩
    | selected entry nodeId hpc =>
        obtain rfl : { entry with job.submitted := ev.input.now } = e := Option.some.inj he
        exact .inl ⟨entry, by rw [hpc]; rfl, rfl, rfl, rfl, _, _, rfl⟩
    | @dropping f t f' hpc hf => cases f' <;> cases he
    | @register r t r' hpc hr => cases r' <;> cases he
    | _ => cases he

/-! ## Submit calls

The row of a call is written by its own steps only. -/

/-- The handle under which a held job is known to its submitter. -/
def SubmitPc.heldHandle? : SubmitPc → Option JobHandle
  | .countHeld handle | .returned (.ok handle) => some handle
  | _ => none

/-- A `submit` step replaces the row of its call. -/
theorem SubmitMove.call {i : CallId} {c : Call} (h : SubmitMove cfg inp s i c s') :
    ∃ c', s'.calls = s.calls.set i c' ∧ c'.job = c.job ∧
      ∀ handle, c.pc.heldHandle? = some handle → c'.pc.heldHandle? = some handle := by
  cases h with
  | countHeld handle hpc => exact ⟨_, rfl, rfl, fun x hx => by rw [hpc] at hx; exact hx⟩
  | @register r t r' hpc hr =>
      refine ⟨{ c with pc := r'.elim (.returned (.ok r.handle)) .register }, ?_, rfl, ?_⟩
      · rw [State.submitAt, hr.sameOutside.calls]
      · intro x hx
        rw [hpc] at hx
        cases hx
  | reject ac error hpc | advance ac pc hpc =>
      refine ⟨_, rfl, rfl, fun x hx => ?_⟩
      cases hc : c.pc <;> simp_all [SubmitPc.heldHandle?, SubmitPc.gated]
  | backOut error hpc =>
      refine ⟨_, rfl, rfl, fun x hx => ?_⟩
      cases hc : c.pc <;> simp_all [SubmitPc.heldHandle?, SubmitPc.leaving]
  | shut hpc | opened hpc | reserve hpc | holdId hpc | enqueued job handle queue hpc
  | notEnqueued job error hpc | releaseSlot hpc | unselected error hpc | selected nodeId hpc
  | assignId nodeId hpc | refused nodeId job hpc | accepted nodeId job handle hpc
  | countDispatched r hpc =>
      refine ⟨_, rfl, rfl, fun x hx => ?_⟩
      rw [hpc] at hx
      cases hx

/-- A step leaves the calls alone, begins one, or is one of a call. -/
theorem Move.calls_cases (h : Move cfg ev s s') :
    s'.calls = s.calls ∨ (∃ job, s'.calls = s.calls ++ [{ job := job }]) ∨
      ∃ i c, s.calls[i]? = some c ∧ ev.actor = .submit i ∧ SubmitMove cfg ev.input s i c s' := by
  cases h with
  | submitCall job => exact .inr (.inl ⟨job, rfl⟩)
  | submit i c hc hm hactor => exact .inr (.inr ⟨i, c, hc, hactor, hm⟩)
  | node k d hd hm => exact .inl hm.threads.1
  | cancel c c' t cancels aging hm hrep => exact .inl hm.threads.1
  | drain hm => exact .inl hm.threads.1
  | aging hm => cases hm <;> exact .inl rfl
  | switch k pc hactor hpc hm => cases hm <;> exact .inl rfl
  | _ => exact .inl rfl

/-- The step has taken the call `c` on to `c'`. -/
theorem call_of_set {i : CallId} {c c' b : Call} (hc : s.calls[i]? = some c)
    (hc' : s'.calls[i]? = some c') (hcalls : s'.calls = s.calls.set i b) : c' = b := by
  have hi : i < s.calls.length := (List.getElem?_eq_some_iff.mp hc).1
  rw [hcalls, List.getElem?_set_self hi] at hc'
  exact (Option.some.inj hc').symm

/-- A call stays as it is, or takes its own next step. -/
theorem Move.call_cases (h : Move cfg ev s s') {i : CallId} {c : Call}
    (hc : s.calls[i]? = some c) :
    s'.calls[i]? = some c ∨ ev.actor = .submit i ∧ SubmitMove cfg ev.input s i c s' := by
  have hi : i < s.calls.length := (List.getElem?_eq_some_iff.mp hc).1
  rcases h.calls_cases with hcalls | ⟨job, hcalls⟩ | ⟨j, b, hb, hactor, hm⟩
  · exact .inl (hcalls ▸ hc)
  · left
    rw [hcalls, List.getElem?_append_left hi, hc]
  · by_cases hij : i = j
    · subst hij
      obtain rfl := Option.some.inj (hb.symm.trans hc)
      exact .inr ⟨hactor, hm⟩
    · obtain ⟨c', hcalls, -⟩ := hm.calls
      left
      rw [hcalls, List.getElem?_set_ne (Ne.symm hij), hc]

/-- A call has just begun, is as it was, or has taken a step of its own. -/
theorem Move.call_back (h : Move cfg ev s s') {i : CallId} {c' : Call}
    (hc' : s'.calls[i]? = some c') : c'.pc = .entered ∨ ∃ c, s.calls[i]? = some c ∧
      (c' = c ∨ ev.actor = .submit i ∧ SubmitMove cfg ev.input s i c s') := by
  rcases h.calls_cases with hcalls | ⟨job, hcalls⟩ | ⟨j, b, hb, hactor, hm⟩
  · exact .inr ⟨c', hcalls ▸ hc', .inl rfl⟩
  · rw [hcalls] at hc'
    rcases Table.getElem?_append_cases hc' with hold | rfl
    · exact .inr ⟨c', hold, .inl rfl⟩
    · exact .inl rfl
  · obtain ⟨b', hcalls, -⟩ := hm.calls
    rw [hcalls] at hc'
    rcases Table.getElem?_set_cases hc' with ⟨rfl, -⟩ | ⟨-, hold⟩
    · exact .inr ⟨b, hb, .inr ⟨hactor, hm⟩⟩
    · exact .inr ⟨c', hold, .inl rfl⟩

/-- A call that was not there before has just begun. -/
theorem Move.call_entered (h : Move cfg ev s s') {i : CallId} {c' : Call}
    (hnone : s.calls[i]? = none) (hc' : s'.calls[i]? = some c') : c'.pc = .entered := by
  rcases h.call_back hc' with hentered | ⟨c, hc, -⟩
  · exact hentered
  · rw [hnone] at hc
    cases hc

/-- A call keeps its row and its job, and a held job its handle. -/
theorem Move.call_next (h : Move cfg ev s s') {i : CallId} {c : Call}
    (hc : s.calls[i]? = some c) : ∃ c', s'.calls[i]? = some c' ∧ c'.job = c.job ∧
      ∀ handle, c.pc.heldHandle? = some handle → c'.pc.heldHandle? = some handle := by
  have hi : i < s.calls.length := (List.getElem?_eq_some_iff.mp hc).1
  rcases h.call_cases hc with hsame | ⟨-, hm⟩
  · exact ⟨c, hsame, rfl, fun _ h => h⟩
  · obtain ⟨c', hcalls, hjob, hheld⟩ := hm.call
    refine ⟨c', ?_, hjob, hheld⟩
    rw [hcalls]
    exact List.getElem?_set_self hi

end FatpBalancer
