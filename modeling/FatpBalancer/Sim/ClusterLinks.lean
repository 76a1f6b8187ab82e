/-
# The cluster: every dispatch is a task

The balancer's record of a dispatched job and the node's task of it tell the same story at every
moment: for each place the record can be at, there are points at which the task can be.  From this
it follows that the nodes keep the contract under which the balancer runs, so that no answer of
theirs is one that the balancer's machine rules out.

`Task.Shows` is the heart of it: a relation between the place of a dispatch and the program counter
of a task, loose where the two sides take separate steps and exact where one step moves both.
`Linked` asks it of all dispatches and all tasks, as a one-to-one correspondence with matching
handles and jobs.

The step lemmas go through the three kinds of step: the balancer's own, which touch no task; the
ones that ask a node, which move both sides at once; and a task's own, which report to the balancer
or are silent.  `ClusterMove` (in `Sim.Cluster`) is the case analysis they share.

The consequences are two projections, of a run of the cluster to a run of the balancer and to runs
of the nodes, and the absence of steps that one side would enable and the other refuse.
-/
import FatpBalancer.Balancer.Registration
import FatpBalancer.Balancer.Routing
import FatpBalancer.Sim.Cluster

universe u

namespace FatpBalancer

open Machine

variable {F : Type u} [FloatOps F] {cfg : BalancerConfig F} {mConfig : SimulatedNodeConfig}

/-! ## Handles the balancer knows

The balancer passes to `cancel` and `reprioritise` only handles that it has in its tables, and it
has them from the node itself. -/

section Balancer

variable {s s' : State F} {ev : Event}

/-- A node has accepted a job under this handle. -/
def Known (s : State F) (nodeId : NodeId) (handle : JobHandle) : Prop :=
  ∃ (k : Nat) (d : Dispatch), s.dispatches[k]? = some d ∧ d.nodeId = nodeId ∧ d.handle = handle

/-- Dispatches are never removed, so a known handle stays known. -/
theorem Known.next {nodeId : NodeId} {handle : JobHandle} (h : Known s nodeId handle)
    (hm : Move cfg ev s s') : Known s' nodeId handle := by
  obtain ⟨k, d, hd, hnode, hhandle⟩ := h
  obtain ⟨d', hd', hmove⟩ := hm.dispatch_next hd
  obtain ⟨-, -, hhandle', hnode'⟩ := hmove.same
  exact ⟨k, d', hd', hnode'.trans hnode, hhandle'.trans hhandle⟩

/-- The balancer asks a node only for handles that the node has given it. -/
structure KnownInv (s : State F) : Prop where
  routed : ∀ {handle info}, s.m.mHandleToJobInfo.lookup handle = some info →
    Known s info.nodeId handle
  asked : ∀ c ∈ s.allCancels, ∀ info, c.pc = .askNode info → Known s info.nodeId c.handle

/-- A thread that is about to ask has looked the handle up in the routing map. -/
theorem KnownInv.next (h : KnownInv s) (hr : RegisteringInv s) (hm : Move cfg ev s s') :
    KnownInv s' where
  routed {handle info} hlookup := by
    apply Known.next _ hm
    cases hm.routes with
    | kept hhandles => exact h.routed (hhandles ▸ hlookup)
    | insert who r hrun hstage hhandles =>
        rw [hhandles] at hlookup
        rcases lookup_insertRoutingState cfg s.m r handle with hsame | ⟨rfl, hnew⟩
        · exact h.routed (hsame ▸ hlookup)
        · obtain ⟨d, hd⟩ := hr.registers hrun
          rw [hnew] at hlookup
          obtain rfl := Option.some.inj hlookup
          exact ⟨r.dispatch, d, hd.dispatch, hd.nodeId, hd.handle⟩
    | erase f erased hf hstage hsome hhandles =>
        rw [hhandles] at hlookup
        by_cases heq : handle = erased
        · rw [heq, lookup_eraseRoutingState_self] at hlookup
          cases hlookup
        · exact h.routed (lookup_eraseRoutingState_ne s.m heq ▸ hlookup)
  asked c' hc' info hpc := by
    apply Known.next _ hm
    rcases hm.allCancels_cases hc' with
      hold | ⟨hstart, -⟩ | ⟨c, t, cancels, aging, hc, -, hcm, -⟩
    · exact h.asked c' hold info hpc
    · rw [hstart] at hpc
      cases hpc
    · cases hcm with
      | ask info' hstart hbit hlookup =>
          obtain rfl := CancelPc.askNode.inj hpc
          exact h.routed hlookup
      | @finalize f t o hfin hf => cases o <;> cases hpc
      | _ => cases hpc

/-- In every reachable state of the balancer. -/
theorem knownInv_reach {ok : State F → Event → Prop} (hs : (balancer cfg).Reach ok s) :
    KnownInv s := by
  refine hs.invariant ⟨?_, ?_⟩ fun _ hr h _ hstep => h.next (registeringInv_reach hr)
    (step_move hstep)
  · intro handle info hlookup
    cases hlookup
  · intro c hc
    cases hc

/-! ## The steps that ask a node

`submit` and `cancel` of a node are calls with an answer, which the balancer's machine takes as an
input.  What it does with each answer is read here once. -/

/-- The request a `submit` call makes while it offers its job. -/
theorem State.request_submit {a : Actor} {nodeId : NodeId} {job : Job}
    (h : s.request a = some (.submit nodeId job)) :
    (∃ i c, a = .submit i ∧ s.calls[i]? = some c ∧ c.pc = .nodeSubmit nodeId job) ∨
      ∃ entry, a = .drain ∧ s.drain = .nodeSubmit nodeId entry ∧ entry.job = job := by
  have hcancel : ∀ c : CancelCall, c.request ≠ some (.submit nodeId job) := by
    intro c hc
    rw [CancelCall.request] at hc
    split at hc <;> cases hc
  cases a <;> simp only [State.request, Option.bind_eq_some_iff] at h
  case submit i =>
    obtain ⟨c, hc, hpc⟩ := h
    split at hpc <;> cases hpc
    next hpc => exact .inl ⟨i, c, rfl, hc, hpc⟩
  case cancel k =>
    obtain ⟨c, -, hc⟩ := h
    exact absurd hc (hcancel c)
  case drain =>
    split at h <;> cases h
    next entry hpc => exact .inr ⟨entry, rfl, hpc, rfl⟩
  case aging =>
    split at h
    · exact absurd h (hcancel _)
    · cases h
  all_goals cases h

/-- A `cancel` call makes a request in one place only. -/
theorem CancelCall.request_eq {c : CancelCall} {nodeId : NodeId} {handle : JobHandle}
    (h : c.request = some (.cancel nodeId handle)) :
    ∃ info, c.pc = .askNode info ∧ info.nodeId = nodeId ∧ c.handle = handle := by
  rw [CancelCall.request] at h
  split at h <;> cases h
  next info hpc => exact ⟨info, hpc, rfl, rfl⟩

/-- The request a `cancel` call makes, of a user or of the aging thread. -/
theorem State.request_cancel {a : Actor} {nodeId : NodeId} {handle : JobHandle}
    (h : s.request a = some (.cancel nodeId handle)) :
    (∃ k c, a = .cancel k ∧ s.cancels[k]? = some c ∧ c.request = some (.cancel nodeId handle)) ∨
      ∃ c expired, a = .aging ∧ s.aging = .cancelling c expired ∧
        c.request = some (.cancel nodeId handle) := by
  cases a <;> simp only [State.request, Option.bind_eq_some_iff] at h
  case submit i =>
    obtain ⟨c, -, hpc⟩ := h
    split at hpc <;> cases hpc
  case cancel k =>
    obtain ⟨c, hc, hreq⟩ := h
    exact .inl ⟨k, c, rfl, hc, hreq⟩
  case drain => split at h <;> cases h
  case aging =>
    split at h
    · next c expired hpc => exact .inr ⟨c, expired, rfl, hpc, h⟩
    · cases h
  all_goals cases h

variable (cfg ev) in
/-- The node has refused the job. -/
theorem step_refused {nodeId : NodeId} {job : Job}
    (hreq : s.request ev.actor = some (.submit nodeId job)) (hin : ev.input.accepted = none) :
    ∃ s', step cfg s ev = some s' ∧ s'.dispatches = s.dispatches := by
  rcases State.request_submit hreq with ⟨i, c, hactor, hc, hpc⟩ | ⟨entry, hactor, hpc, -⟩
  · simp only [step, hactor, hc, Option.bind_some, submitStep, hpc, hin, Option.some.injEq]
    exact ⟨_, rfl, rfl⟩
  · simp only [step, hactor, drainStep, hpc, hin, Option.some.injEq]
    exact ⟨_, rfl, rfl⟩

variable (cfg ev) in
/-- The node has accepted the job. -/
theorem step_accepted {nodeId : NodeId} {job : Job} {handle : JobHandle}
    (hreq : s.request ev.actor = some (.submit nodeId job))
    (hin : ev.input.accepted = some handle) (hfree : handleFree s nodeId handle = true) :
    ∃ s' call, step cfg s ev = some s' ∧
      s'.dispatches = s.dispatches ++ [{ nodeId, handle, capturedJob := job, call }] := by
  rcases State.request_submit hreq with ⟨i, c, hactor, hc, hpc⟩ | ⟨entry, hactor, hpc, rfl⟩
  · simp only [step, hactor, hc, Option.bind_some, submitStep, hpc, hin, hfree, if_true,
      Option.some.injEq]
    exact ⟨_, i, rfl, rfl⟩
  · simp only [step, hactor, drainStep, hpc, hin, hfree, if_true, Option.some.injEq]
    exact ⟨_, entry.onDone.call, rfl, rfl⟩

variable (cfg ev) in
/-- A step of a `cancel` call is one of the thread that makes it. -/
theorem exists_step_cancel {nodeId : NodeId} {handle : JobHandle}
    (hreq : s.request ev.actor = some (.cancel nodeId handle)) :
    ∃ c info, c.pc = .askNode info ∧ info.nodeId = nodeId ∧ c.handle = handle ∧
      c ∈ s.allCancels ∧
      ∀ r, cancelStep cfg ev.input s c = some r →
        ∃ s', step cfg s ev = some s' ∧ s'.dispatches = r.1.dispatches := by
  rcases State.request_cancel hreq with ⟨k, c, hactor, hc, hask⟩ | ⟨c, expired, hactor, hpc, hask⟩
  · obtain ⟨info, hinfo, hnode, hhandle⟩ := CancelCall.request_eq hask
    refine ⟨c, info, hinfo, hnode, hhandle, ?_, ?_⟩
    · exact List.mem_append_right _ (List.mem_of_getElem? hc)
    · intro r hr
      simp only [step, hactor, hc, Option.bind_some, hr, Option.map_some]
      exact ⟨_, rfl, rfl⟩
  · obtain ⟨info, hinfo, hnode, hhandle⟩ := CancelCall.request_eq hask
    refine ⟨c, info, hinfo, hnode, hhandle, ?_, ?_⟩
    · rw [State.allCancels, hpc]
      exact List.mem_append_left _ (List.mem_singleton_self c)
    · intro r hr
      simp only [step, hactor, agingStep, hpc, hinfo, hr, Option.map_some]
      exact ⟨_, rfl, rfl⟩

variable (cfg ev) in
/-- The node has refused the cancel. -/
theorem step_uncancelled {nodeId : NodeId} {handle : JobHandle} {error : CancelError}
    (hreq : s.request ev.actor = some (.cancel nodeId handle))
    (hin : ev.input.cancelReply = .error error)
    (hfree : error = .notFound → handleFree s nodeId handle = true) :
    ∃ s', step cfg s ev = some s' ∧ s'.dispatches = s.dispatches := by
  obtain ⟨c, info, hinfo, rfl, rfl, -, hstep⟩ := exists_step_cancel cfg ev hreq
  apply hstep (s, { c with pc := .returned (.error error) })
  have hok : ¬(error = .notFound ∧ (!handleFree s info.nodeId c.handle) = true) := by
    rintro ⟨herror, hnot⟩
    rw [hfree herror] at hnot
    cases hnot
  simp only [cancelStep, hinfo, hin, if_neg hok]

variable (cfg ev) in
/-- The node has cancelled the job. -/
theorem step_cancelled {nodeId : NodeId} {handle : JobHandle} {k : Nat} {d : Dispatch}
    (hreq : s.request ev.actor = some (.cancel nodeId handle))
    (hin : ev.input.cancelReply = .ok k) (hd : s.dispatches[k]? = some d)
    (hnode : d.nodeId = nodeId) (hhandle : d.handle = handle) (hlive : d.side = .live) :
    ∃ s', step cfg s ev = some s' ∧
      s'.dispatches = s.dispatches.set k { d with side := .cancelled } := by
  obtain ⟨c, info, hinfo, rfl, rfl, -, hstep⟩ := exists_step_cancel cfg ev hreq
  obtain ⟨s', hs', hdispatches⟩ := hstep
    (modifyDispatch s (some k) fun d => { d with side := .cancelled },
      { c with
        hit := some d.call
        pc := .finalize
          { finishedJob := { id := info.jobId }
            routedHandle := some c.handle
            succeeded := false
            call := d.call
            dispatch := some k } })
    (by simp only [cancelStep, hinfo, hin, hd, hnode, hhandle, hlive, and_self, if_true])
  refine ⟨s', hs', hdispatches.trans ?_⟩
  simp only [modifyDispatch, Table.modify_eq_set hd]

/-! ## The other steps

A step that asks no node leaves the sides of the dispatches where they are, but for the callback's
own. -/

/-- Every dispatch is where it was. -/
def SameSides (s s' : State F) : Prop :=
  s'.dispatches.map Dispatch.side = s.dispatches.map Dispatch.side

/-- A thread that asks nothing of a node leaves every job where it is, unless it is the node. -/
theorem Move.sides_cases (h : Move cfg ev s s') :
    SameSides s s' ∨ (∃ request, s.request ev.actor = some request) ∨
      ∃ k d, ev.actor = .node k ∧ s.dispatches[k]? = some d ∧ NodeMove ev.input s k d s' := by
  cases h with
  | submit i c hc hm hactor =>
      cases hm with
      | accepted nodeId job handle hpc =>
          refine .inr (.inl ⟨.submit nodeId job, ?_⟩)
          simp only [hactor, State.request, hc, Option.bind_some, hpc]
      | register r hpc hr => exact .inl hr.sides
      | _ => exact .inl rfl
  | node k d hd hm hactor => exact .inr (.inr ⟨k, d, hactor, hd, hm⟩)
  | cancel c c' t cancels aging hm hrep hcall =>
      cases hm with
      | hit info k d hpc =>
          refine .inr (.inl ⟨.cancel info.nodeId c.handle, ?_⟩)
          have hask : c.request = some (.cancel info.nodeId c.handle) := by
            rw [CancelCall.request, hpc]
          unfold State.cancelOf at hcall
          split at hcall
          · next hactor => rw [hactor, State.request, hcall, Option.bind_some, hask]
          · next hactor =>
              rw [hactor, State.request]
              cases haging : s.aging <;> rw [haging] at hcall <;> cases hcall
              exact hask
          · cases hcall
      | finalize f hpc hf => exact .inl (sides_of_core hf.dispatches_core)
      | _ => exact .inl rfl
  | drain hm hactor =>
      cases hm with
      | accepted nodeId entry handle hpc =>
          refine .inr (.inl ⟨.submit nodeId entry.job, ?_⟩)
          simp only [hactor, State.request, hpc]
      | dropping f hpc hf => exact .inl (sides_of_core hf.dispatches_core)
      | register r hpc hr => exact .inl hr.sides
      | _ => exact .inl rfl
  | aging hm => cases hm <;> exact .inl rfl
  | switch k pc hactor hpc hm => cases hm <;> exact .inl rfl
  | _ => exact .inl rfl

end Balancer

/-! ## Dispatches and tasks

The dispatch's side says whether the job is on the node, finished or cancelled; the task's program
counter says more.  One side may be ahead of the other by exactly the steps that `Task.Shows`
allows. -/

/-- The points at which the task of a job is while its dispatch is at this place. -/
def Task.Shows (x : Task) : NodeSide → Prop
  | .live => x.isOpen = true ∧ x.cancels = 0
  | .finished completed succeeded => x.pc = .completed completed succeeded
  | .calling _ | .called => x.pc = .called
  | .cancelled => x.cancels = 1

namespace Cluster

variable {s s' : Cluster F}

/-- Task `t` of the node is the job of dispatch `k`. -/
structure Link (s : Cluster F) (k : Nat) (d : Dispatch) (t : Nat) (x : Task) : Prop where
  job : (s.jobs d.nodeId)[t]? = some k
  task : (s.nodes d.nodeId).tasks[t]? = some x
  handle : d.handle = x.smHandle.toJobHandle
  shows : x.Shows d.side

/-- Every dispatch has its task, and every task its dispatch. -/
structure Linked (s : Cluster F) : Prop where
  sound : ∀ id, (s.nodes id).Sound
  length : ∀ id, (s.jobs id).length = (s.nodes id).tasks.length
  dispatches : ∀ {k d}, s.balancer.dispatches[k]? = some d → ∃ t x, s.Link k d t x
  tasks : ∀ {id t k}, (s.jobs id)[t]? = some k →
    ∃ d x, s.balancer.dispatches[k]? = some d ∧ d.nodeId = id ∧ s.Link k d t x

/-- A job has one task. -/
theorem Linked.task_unique (h : s.Linked) {k : Nat} {d : Dispatch} {t t' : Nat} {x x' : Task}
    (hx : s.Link k d t x) (hx' : s.Link k d t' x') : t = t' := by
  by_contra hne
  apply (h.sound d.nodeId).handle_ne hx'.task hx.task hne
  rw [← SlotMapHandle.ofJobHandle_toJobHandle x.smHandle, ← hx.handle, hx'.handle,
    SlotMapHandle.ofJobHandle_toJobHandle]

/-- The dispatch a task is of, found from the task. -/
theorem Linked.of_task (h : s.Linked) {id : NodeId} {t : Nat} {x : Task}
    (hx : (s.nodes id).tasks[t]? = some x) :
    ∃ d, s.balancer.dispatches[s.dispatchOf id t]? = some d ∧ d.nodeId = id ∧
      s.Link (s.dispatchOf id t) d t x := by
  have hlt : t < (s.jobs id).length := by
    rw [h.length id]
    exact (List.getElem?_eq_some_iff.mp hx).1
  have hk : (s.jobs id)[t]? = some (s.dispatchOf id t) := by
    rw [dispatchOf, List.getElem?_eq_getElem hlt, Option.getD_some]
  obtain ⟨d, x', hd, rfl, hlink⟩ := h.tasks hk
  obtain rfl := Option.some.inj (hx.symm.trans hlink.task)
  exact ⟨d, hd, rfl, hlink⟩

/-- Two tasks with one handle on one node are one task. -/
theorem Linked.task_eq (h : s.Linked) {id : NodeId} {t t' : Nat} {x x' : Task}
    (hx : (s.nodes id).tasks[t]? = some x) (hx' : (s.nodes id).tasks[t']? = some x')
    (heq : x.smHandle = x'.smHandle) : t = t' := by
  by_contra hne
  exact (h.sound id).handle_ne hx' hx hne heq

/-- A task under a known handle, found by the handle. -/
theorem Linked.taskAt_eq (h : s.Linked) {nodeId : NodeId} {handle : JobHandle}
    (hknown : Known s.balancer nodeId handle) :
    ∃ k d x, s.balancer.dispatches[k]? = some d ∧ d.nodeId = nodeId ∧ d.handle = handle ∧
      s.Link k d (s.taskAt nodeId handle) x ∧ s.dispatchOf nodeId (s.taskAt nodeId handle) = k := by
  obtain ⟨k, d, hd, rfl, rfl⟩ := hknown
  obtain ⟨t, x, hlink⟩ := h.dispatches hd
  have hx : x.smHandle = .ofJobHandle d.handle := by
    rw [hlink.handle, SlotMapHandle.ofJobHandle_toJobHandle]
  have hex : ∃ y ∈ (s.nodes d.nodeId).tasks, decide (y.smHandle = .ofJobHandle d.handle) = true :=
    ⟨x, List.mem_of_getElem? hlink.task, by simpa using hx⟩
  have hlt := List.findIdx_lt_length_of_exists hex
  have hfound : (s.nodes d.nodeId).tasks[s.taskAt d.nodeId d.handle]? =
      some (s.nodes d.nodeId).tasks[s.taskAt d.nodeId d.handle] := List.getElem?_eq_getElem hlt
  have hhandle := of_decide_eq_true (List.findIdx_getElem (w := hlt))
  have ht : s.taskAt d.nodeId d.handle = t := h.task_eq hfound hlink.task (hhandle.trans hx.symm)
  refine ⟨k, d, x, hd, rfl, rfl, ht ▸ hlink, ?_⟩
  rw [ht, dispatchOf, hlink.job, Option.getD_some]

/-! ### What a step does to the links

Steps of the balancer that leave the sides alone keep every link; the acceptance of a job makes a
new one. -/

/-- The links go on one by one, when no dispatch and no task is new. -/
theorem Linked.kept (h : s.Linked) (hsound : ∀ id, (s'.nodes id).Sound)
    (hjobs : s'.jobs = s.jobs)
    (htasks : ∀ id, (s'.nodes id).tasks.length = (s.nodes id).tasks.length)
    (hlength : s'.balancer.dispatches.length = s.balancer.dispatches.length)
    (hlink : ∀ {k d t x}, s.balancer.dispatches[k]? = some d → s.Link k d t x →
      ∃ d' x', s'.balancer.dispatches[k]? = some d' ∧ d'.nodeId = d.nodeId ∧ s'.Link k d' t x') :
    s'.Linked where
  sound := hsound
  length id := by rw [hjobs, htasks, h.length]
  dispatches {k d'} hd' := by
    have hlt : k < s.balancer.dispatches.length := by
      rw [← hlength]
      exact (List.getElem?_eq_some_iff.mp hd').1
    obtain ⟨t, x, hx⟩ := h.dispatches (List.getElem?_eq_getElem hlt)
    obtain ⟨d₁, x', hd₁, -, hx'⟩ := hlink (List.getElem?_eq_getElem hlt) hx
    obtain rfl := Option.some.inj (hd'.symm.trans hd₁)
    exact ⟨t, x', hx'⟩
  tasks {id t k} hk := by
    rw [hjobs] at hk
    obtain ⟨d, x, hd, hnode, hx⟩ := h.tasks hk
    obtain ⟨d', x', hd', hnode', hx'⟩ := hlink hd hx
    exact ⟨d', x', hd', hnode'.trans hnode, hx'⟩

/-- A thread of the balancer goes on, and no task does. -/
theorem Linked.balancer (h : s.Linked) {b : State F}
    (hlength : b.dispatches.length = s.balancer.dispatches.length)
    (hside : ∀ {k : Nat} {d : Dispatch}, s.balancer.dispatches[k]? = some d →
      ∃ d' : Dispatch, b.dispatches[k]? = some d' ∧ d'.nodeId = d.nodeId ∧ d'.handle = d.handle ∧
        ∀ x : Task, x.Shows d.side → x.Shows d'.side) :
    Linked { s with balancer := b } := by
  refine h.kept h.sound rfl (fun _ => rfl) hlength ?_
  intro k d t x hd hx
  obtain ⟨d', hd', hnode, hhandle, hshows⟩ := hside hd
  refine ⟨d', x, hd', hnode, ?_, ?_, hhandle.trans hx.handle, hshows x hx.shows⟩
  · exact hnode ▸ hx.job
  · exact hnode ▸ hx.task

theorem Linked.sameDispatches (h : s.Linked) {b : State F}
    (hsame : b.dispatches = s.balancer.dispatches) : Linked { s with balancer := b } :=
  h.balancer (by rw [hsame]) fun {k d} hd => ⟨d, hsame ▸ hd, rfl, rfl, fun _ hx => hx⟩

/-- A step that leaves every job where it is. -/
theorem Linked.sameSides (h : s.Linked) {b : State F} {ev : Event}
    (hm : Move cfg ev s.balancer b) (hsides : SameSides s.balancer b) :
    Linked { s with balancer := b } := by
  refine h.balancer (by simpa using congrArg List.length hsides) ?_
  intro k d hd
  obtain ⟨d', hd', hmove⟩ := hm.dispatch_next hd
  obtain ⟨-, -, hhandle, hnode⟩ := hmove.same
  have hk := congrArg (·[k]?) hsides
  simp only [List.getElem?_map, hd, hd', Option.map_some, Option.some.injEq] at hk
  refine ⟨d', hd', hnode, hhandle, ?_⟩
  intro x hx
  rwa [hk]

/-- A callback goes on inside `finalizeJobLifecycle`. -/
theorem Linked.callback (h : s.Linked) {b t : State F} {ev : Event} {k : Nat} {d : Dispatch}
    {f : Finalize} {f' : Option Finalize} (hm : Move cfg ev s.balancer b)
    (hd : s.balancer.dispatches[k]? = some d) (hside : d.side = .calling f)
    (hf : FinalizeMove s.balancer f t f')
    (hb : b = modifyDispatch t (some k) fun d => { d with side := f'.elim .called .calling }) :
    Linked { s with balancer := b } := by
  obtain ⟨d₁, hd₁, -⟩ := getElem?_core hf.dispatches_core hd
  have hdispatches : b.dispatches =
      t.dispatches.set k { d₁ with side := f'.elim .called .calling } := by
    rw [hb]
    simp only [modifyDispatch, Table.modify_eq_set hd₁]
  refine h.balancer ?_ ?_
  · rw [hdispatches, List.length_set]
    simpa using congrArg List.length hf.dispatches_core
  · intro j e he
    obtain ⟨e', he', hmove⟩ := hm.dispatch_next he
    obtain ⟨-, -, hhandle, hnode⟩ := hmove.same
    refine ⟨e', he', hnode, hhandle, ?_⟩
    intro x hx
    rw [hdispatches] at he'
    rcases Table.getElem?_set_cases he' with ⟨rfl, rfl⟩ | ⟨-, he'⟩
    · -- wherever the callback is, it has been invoked
      obtain rfl := Option.some.inj (hd.symm.trans he)
      rw [hside] at hx
      cases f' <;> exact hx
    · obtain ⟨e₁, he₁, hcore⟩ := getElem?_core hf.dispatches_core he
      obtain rfl := Option.some.inj (he'.symm.trans he₁)
      rwa [(Dispatch.sameCore hcore).side]

theorem Linked.thread (h : s.Linked) {ev : Event} {b : State F}
    (hreq : s.balancer.request ev.actor = none) (hblocked : s.blocked ev.actor = false)
    (hb : FatpBalancer.step cfg s.balancer ev = some b) : Linked { s with balancer := b } := by
  have hm := FatpBalancer.step_move hb
  rcases hm.sides_cases with hsides | ⟨request, hsome⟩ | ⟨k, d, hactor, hd, hnode⟩
  · exact h.sameSides hm hsides
  · rw [hreq] at hsome
    cases hsome
  · rw [hactor, blocked, hd] at hblocked
    cases hnode with
    | finish hside | early completed succeeded hside | enter completed succeeded hside =>
        simp [hside] at hblocked
    | finalize f hside hf => exact h.callback hm hd hside hf rfl

/-- A node takes a step of its own. -/
theorem Linked.sound_step (h : s.Linked) {nodeId : NodeId} {e : NodeEvent} {n : NodeTasks}
    (hn : (s.nodes nodeId).step e = some n) (id : NodeId) :
    (Function.update s.nodes nodeId n id).Sound := by
  obtain rfl | hne := eq_or_ne id nodeId
  · rw [Function.update_self]
    exact (h.sound id).step hn
  · rw [Function.update_of_ne hne]
    exact h.sound id

/-- A link survives when tasks and jobs are only added. -/
theorem Link.mono {k t : Nat} {d : Dispatch} {x : Task} (h : s.Link k d t x)
    (hjobs : s.jobs d.nodeId <+: s'.jobs d.nodeId)
    (htasks : (s.nodes d.nodeId).tasks <+: (s'.nodes d.nodeId).tasks) : s'.Link k d t x where
  job := by
    obtain ⟨rest, hrest⟩ := hjobs
    rw [← hrest, List.getElem?_append_left (List.getElem?_eq_some_iff.mp h.job).1]
    exact h.job
  task := by
    obtain ⟨rest, hrest⟩ := htasks
    rw [← hrest, List.getElem?_append_left (List.getElem?_eq_some_iff.mp h.task).1]
    exact h.task
  handle := h.handle
  shows := h.shows

/-- A handle that no task of the node has is free there. -/
theorem Linked.free_of_fresh (h : s.Linked) {nodeId : NodeId} {smHandle : SlotMapHandle}
    (hfresh : ∀ x ∈ (s.nodes nodeId).tasks, x.smHandle ≠ smHandle) :
    handleFree s.balancer nodeId smHandle.toJobHandle = true := by
  rw [handleFree, List.all_eq_true]
  intro d hd
  obtain ⟨k, hk⟩ := List.getElem?_of_mem hd
  obtain ⟨t, x, hx⟩ := h.dispatches hk
  simp only [Bool.not_eq_true', Bool.and_eq_false_iff, beq_eq_false_iff_ne]
  by_cases hnode : d.nodeId = nodeId
  · refine .inl (.inr ?_)
    intro heq
    apply hfresh x (hnode ▸ List.mem_of_getElem? hx.task)
    rw [← SlotMapHandle.ofJobHandle_toJobHandle x.smHandle, ← hx.handle, heq,
      SlotMapHandle.ofJobHandle_toJobHandle]
  · exact .inl (.inl hnode)

/-- A node takes a job. -/
theorem Linked.accepted (h : s.Linked) {nodeId : NodeId} {job stamped : Job}
    {smHandle : SlotMapHandle} {n : NodeTasks} {call : CallId}
    (hsound : ∀ id, (s'.nodes id).Sound)
    (hnodes : s'.nodes = Function.update s.nodes nodeId n)
    (htasks : n.tasks = (s.nodes nodeId).tasks ++ [{ job := stamped, smHandle }])
    (hjobs : s'.jobs = Function.update s.jobs nodeId
      (s.jobs nodeId ++ [s.balancer.dispatches.length]))
    (hdispatches : s'.balancer.dispatches = s.balancer.dispatches ++
      [{ nodeId, handle := smHandle.toJobHandle, capturedJob := job, call }]) : s'.Linked := by
  have hself : s'.jobs nodeId = s.jobs nodeId ++ [s.balancer.dispatches.length] ∧
      (s'.nodes nodeId).tasks = (s.nodes nodeId).tasks ++ [{ job := stamped, smHandle }] := by
    rw [hjobs, hnodes, Function.update_self, Function.update_self, htasks]
    exact ⟨rfl, rfl⟩
  have hother : ∀ id, id ≠ nodeId → s'.jobs id = s.jobs id ∧ s'.nodes id = s.nodes id := by
    intro id hne
    rw [hjobs, hnodes, Function.update_of_ne hne, Function.update_of_ne hne]
    exact ⟨rfl, rfl⟩
  have hold : ∀ {k d t x}, s.Link k d t x → s'.Link k d t x := by
    intro k d t x hx
    obtain heq | hne := eq_or_ne d.nodeId nodeId
    · apply hx.mono
      · rw [heq, hself.1]
        exact List.prefix_append ..
      · rw [heq, hself.2]
        exact List.prefix_append ..
    · apply hx.mono
      · exact (hother _ hne).1.symm ▸ List.prefix_rfl
      · exact (hother _ hne).2.symm ▸ List.prefix_rfl
  have hnew : s'.Link s.balancer.dispatches.length
      { nodeId, handle := smHandle.toJobHandle, capturedJob := job, call }
      (s.nodes nodeId).tasks.length { job := stamped, smHandle } := by
    refine ⟨?_, ?_, rfl, rfl, rfl⟩
    · rw [hself.1, ← h.length nodeId, List.getElem?_concat_length]
    · rw [hself.2, List.getElem?_concat_length]
  refine ⟨hsound, ?_, ?_, ?_⟩
  · intro id
    obtain rfl | hne := eq_or_ne id nodeId
    · rw [hself.1, hself.2, List.length_append, List.length_append, h.length]
      rfl
    · rw [(hother id hne).1, (hother id hne).2, h.length]
  · intro k d hd
    rw [hdispatches] at hd
    rcases Table.getElem?_concat_cases hd with hd | ⟨rfl, rfl⟩
    · obtain ⟨t, x, hx⟩ := h.dispatches hd
      exact ⟨t, x, hold hx⟩
    · exact ⟨_, _, hnew⟩
  · intro id t k hk
    have hback : (s.jobs id)[t]? = some k →
        ∃ d x, s'.balancer.dispatches[k]? = some d ∧ d.nodeId = id ∧ s'.Link k d t x := by
      intro hk
      obtain ⟨d, x, hd, hnode, hx⟩ := h.tasks hk
      refine ⟨d, x, ?_, hnode, hold hx⟩
      rw [hdispatches, List.getElem?_append_left (List.getElem?_eq_some_iff.mp hd).1]
      exact hd
    obtain rfl | hne := eq_or_ne id nodeId
    · rw [hself.1] at hk
      rcases Table.getElem?_concat_cases hk with hk | ⟨rfl, rfl⟩
      · exact hback hk
      · refine ⟨_, _, ?_, rfl, (h.length id).symm ▸ hnew⟩
        rw [hdispatches, List.getElem?_concat_length]
    · rw [(hother id hne).1] at hk
      exact hback hk

/-! ### Cancels and task steps

A successful cancel takes a queued task and a live dispatch together.  A task that ends reports its
result, and with it the dispatch becomes finished. -/

/-- The job under a handle that the balancer knows is cancelled on its node exactly while its
dispatch is live and its task has not begun. -/
theorem Linked.live_of_queued (h : s.Linked) {k t : Nat} {d : Dispatch} {x : Task}
    (hx : s.Link k d t x)
    (hslot : (s.nodes d.nodeId).node.mPendingSlots.lookup x.smHandle = some .queued) :
    d.side = .live ∧ x.cancels = 0 := by
  have hsound := (h.sound d.nodeId).tasks x (List.mem_of_getElem? hx.task)
  have hshows := hx.shows
  rw [hslot] at hsound
  have hzero : x.cancels = 0 ∧ (x.pc = .registered ∨ x.pc = .queued) := by
    rw [Task.Sound] at hsound
    cases hpc : x.pc <;> rw [hpc] at hsound <;> simp at hsound <;> simp [hsound]
  cases hside : d.side with
  | live => exact ⟨rfl, hzero.1⟩
  | finished completed succeeded =>
      rw [hside] at hshows
      rcases hzero.2 with hpc | hpc <;> cases hpc.symm.trans hshows
  | calling f =>
      rw [hside] at hshows
      rcases hzero.2 with hpc | hpc <;> cases hpc.symm.trans hshows
  | called =>
      rw [hside] at hshows
      rcases hzero.2 with hpc | hpc <;> cases hpc.symm.trans hshows
  | cancelled =>
      rw [hside] at hshows
      cases hzero.1.symm.trans hshows

/-- One task of one node goes on, and its dispatch with it. -/
theorem Linked.moved (h : s.Linked) {id : NodeId} {n : NodeTasks} {t : Nat} {x x' : Task}
    (hx : (s.nodes id).tasks[t]? = some x) (hsound : ∀ id, (s'.nodes id).Sound)
    (hnodes : s'.nodes = Function.update s.nodes id n) (hjobs : s'.jobs = s.jobs)
    (hlength : n.tasks.length = (s.nodes id).tasks.length) (hx' : n.tasks[t]? = some x')
    (hrest : ∀ u, u ≠ t → n.tasks[u]? = (s.nodes id).tasks[u]?)
    (hhandle : x'.smHandle = x.smHandle)
    (hlength' : s'.balancer.dispatches.length = s.balancer.dispatches.length)
    (hothers : ∀ j, j ≠ s.dispatchOf id t →
      s'.balancer.dispatches[j]? = s.balancer.dispatches[j]?)
    (hself : ∀ d, s.balancer.dispatches[s.dispatchOf id t]? = some d →
      ∃ d', s'.balancer.dispatches[s.dispatchOf id t]? = some d' ∧ d'.nodeId = d.nodeId ∧
        d'.handle = d.handle ∧ (x.Shows d.side → x'.Shows d'.side)) : s'.Linked := by
  refine h.kept hsound hjobs ?_ hlength' ?_
  · intro id'
    rw [hnodes]
    obtain rfl | hne := eq_or_ne id' id
    · rw [Function.update_self, hlength]
    · rw [Function.update_of_ne hne]
  · intro k d u y hd hy
    obtain ⟨d₀, hd₀, hnode₀, hlink₀⟩ := h.of_task hx
    obtain rfl | hk := eq_or_ne k (s.dispatchOf id t)
    -- the task that moves
    · obtain rfl := Option.some.inj (hd.symm.trans hd₀)
      obtain rfl := h.task_unique hlink₀ hy
      subst hnode₀
      obtain rfl := Option.some.inj (hx.symm.trans hy.task)
      obtain ⟨d', hd', hnode, hhandle', hshows⟩ := hself d hd
      refine ⟨d', x', hd', hnode, ?_, ?_, ?_, hshows hy.shows⟩
      · rw [hnode, hjobs]
        exact hy.job
      · rw [hnode, hnodes, Function.update_self]
        exact hx'
      · rw [hhandle', hhandle]
        exact hy.handle
    -- another one
    · refine ⟨d, y, (hothers k hk).trans hd, rfl, ?_, ?_, hy.handle, hy.shows⟩
      · rw [hjobs]
        exact hy.job
      · rw [hnodes]
        obtain heq | hne := eq_or_ne d.nodeId id
        · have hu : u ≠ t := by
            rintro rfl
            apply hk
            rw [dispatchOf, ← heq, hy.job, Option.getD_some]
          rw [heq, Function.update_self, hrest u hu, ← heq]
          exact hy.task
        · rw [Function.update_of_ne hne]
          exact hy.task

/-- The job that a successful cancel hits is live. -/
theorem Linked.hit_live (h : s.Linked) {nodeId : NodeId} {handle : JobHandle}
    (hknown : Known s.balancer nodeId handle)
    (hnode : ((s.nodes nodeId).node.cancel handle).1 = .ok ()) :
    ∃ k d x, s.balancer.dispatches[k]? = some d ∧ d.nodeId = nodeId ∧ d.handle = handle ∧
      s.Link k d (s.taskAt nodeId handle) x ∧ s.dispatchOf nodeId (s.taskAt nodeId handle) = k ∧
        d.side = .live ∧ x.cancels = 0 := by
  obtain ⟨k, d, x, hd, rfl, rfl, hx, hk⟩ := h.taskAt_eq hknown
  have hslot : (s.nodes d.nodeId).node.mPendingSlots.lookup x.smHandle = some .queued := by
    rcases (s.nodes d.nodeId).node.cancel_cases d.handle with ⟨-, hslot, -⟩ | ⟨⟨e, he⟩, -⟩
    · rwa [hx.handle, SlotMapHandle.ofJobHandle_toJobHandle] at hslot
    · rw [he] at hnode
      cases hnode
  exact ⟨k, d, x, hd, rfl, rfl, hx, hk, h.live_of_queued hx hslot⟩

/-- A node that cancels a job cancels one that the balancer takes for live. -/
theorem Linked.cancelled (h : s.Linked) (cfg : BalancerConfig F) (ev : Event) {nodeId : NodeId}
    {handle : JobHandle} {n : NodeTasks} (hknown : Known s.balancer nodeId handle)
    (hreq : s.balancer.request ev.actor = some (.cancel nodeId handle))
    (hnode : ((s.nodes nodeId).node.cancel handle).1 = .ok ())
    (hn : (s.nodes nodeId).step (.cancel handle) = some n)
    (hin : ev.input.cancelReply = .ok (s.dispatchOf nodeId (s.taskAt nodeId handle))) :
    ∃ b, FatpBalancer.step cfg s.balancer ev = some b ∧
      Linked { s.setNode nodeId n with balancer := b } := by
  obtain ⟨k, d, x, hd, rfl, rfl, hx, hk, hlive, hzero⟩ := h.hit_live hknown hnode
  have hx' : x.smHandle = .ofJobHandle d.handle := by
    rw [hx.handle, SlotMapHandle.ofJobHandle_toJobHandle]
  rw [hk] at hin
  obtain ⟨b, hb, hdispatches⟩ := step_cancelled cfg ev hreq hin hd rfl rfl hlive
  have htasks : n.tasks = (s.nodes d.nodeId).tasks.map fun y =>
      if y.smHandle = .ofJobHandle d.handle then { y with cancels := y.cancels + 1 } else y := by
    simp only [NodeTasks.step, hnode] at hn
    rw [← Option.some.inj hn]
  have htask : n.tasks[s.taskAt d.nodeId d.handle]? = some { x with cancels := x.cancels + 1 } := by
    rw [htasks, List.getElem?_map, hx.task, Option.map_some, if_pos hx']
  refine ⟨b, hb, h.moved hx.task (h.sound_step hn) rfl rfl ?_ htask ?_ rfl ?_ ?_ ?_⟩
  · rw [htasks, List.length_map]
  · intro u hu
    rw [htasks, List.getElem?_map]
    cases hy : (s.nodes d.nodeId).tasks[u]? with
    | none => rfl
    | some y =>
        have hne : y.smHandle ≠ .ofJobHandle d.handle := by
          intro heq
          exact hu (h.task_eq hy hx.task (heq.trans hx'.symm))
        rw [Option.map_some, if_neg hne]
  · show b.dispatches.length = _
    rw [hdispatches, List.length_set]
  · intro j hj
    show b.dispatches[j]? = _
    rw [hdispatches, List.getElem?_set_ne (by rw [← hk]; exact hj.symm)]
  · intro d₁ hd₁
    rw [hk] at hd₁ ⊢
    obtain rfl := Option.some.inj (hd.symm.trans hd₁)
    refine ⟨{ d with side := .cancelled }, ?_, rfl, rfl, ?_⟩
    · show b.dispatches[k]? = _
      rw [hdispatches, List.getElem?_set_self (List.getElem?_eq_some_iff.mp hd).1]
    · intro _
      show x.cancels + 1 = 1
      rw [hzero]

/-- The node does not refuse the cancel of a live job with `NotFound`. -/
theorem Linked.notFound_free (h : s.Linked) {nodeId : NodeId} {handle : JobHandle}
    (hknown : Known s.balancer nodeId handle)
    (hnode : ((s.nodes nodeId).node.cancel handle).1 = .error .notFound) :
    handleFree s.balancer nodeId handle = true := by
  obtain ⟨k, d, x, hd, rfl, rfl, hx, -⟩ := h.taskAt_eq hknown
  have hx' : x.smHandle = .ofJobHandle d.handle := by
    rw [hx.handle, SlotMapHandle.ofJobHandle_toJobHandle]
  have hslot : (s.nodes d.nodeId).node.mPendingSlots.lookup x.smHandle = none := by
    rw [SimulatedNode.cancel, ← hx'] at hnode
    split at hnode
    · next hnone => exact hnone
    · cases hnode
    · cases hnode
  rw [handleFree, List.all_eq_true]
  intro e he
  obtain ⟨j, hj⟩ := List.getElem?_of_mem he
  simp only [Bool.not_eq_true', Bool.and_eq_false_iff, beq_eq_false_iff_ne]
  by_cases hsame : e.nodeId = d.nodeId ∧ e.handle = d.handle
  · -- it is the same task, and without its slot it is not live
    obtain ⟨u, y, hy⟩ := h.dispatches hj
    have hyx : y.smHandle = x.smHandle := by
      rw [← SlotMapHandle.ofJobHandle_toJobHandle y.smHandle, ← hy.handle, hsame.2, hx']
    have hsound := (h.sound e.nodeId).tasks y (List.mem_of_getElem? hy.task)
    rw [hyx, hsame.1, hslot] at hsound
    refine .inr ?_
    intro hlive
    have hshows := hy.shows
    rw [hlive] at hshows
    obtain ⟨hopen, hzero⟩ := hshows
    rw [Task.isOpen] at hopen
    rw [Task.Sound] at hsound
    cases hpc : y.pc <;> rw [hpc] at hsound hopen <;> simp [hzero] at hsound hopen
  · rw [not_and_or] at hsame
    exact .inl hsame

/-- What a step of a task means to the balancer. -/
inductive TaskReport (s : Cluster F) (id : NodeId) (t : Nat) (x : Task) : Option Event → Task → Prop
  | silent (x' : Task) (hhandle : x'.smHandle = x.smHandle) (hcancels : x'.cancels = x.cancels)
      (hopen : x.isOpen = true) (hopen' : x.cancels = 0 → x'.isOpen = true) :
      TaskReport s id t x none x'
  | completed (job : Job) (succeeded : Bool) (elapsedUs : Nat)
      (hpc : x.pc = .ran job succeeded elapsedUs) :
      TaskReport s id t x
        (some { actor := .node (s.dispatchOf id t), input := { completed := job, succeeded } })
        { x with pc := .completed job succeeded }
  | called (job : Job) (succeeded : Bool) (hpc : x.pc = .completed job succeeded) :
      TaskReport s id t x (some { actor := .node (s.dispatchOf id t) })
        { x with pc := .called, callbacks := x.callbacks + 1 }

theorem Linked.taskReport (h : s.Linked) {id : NodeId} {t : Nat} {a : TaskAction} {n : NodeTasks}
    (hn : (s.nodes id).step (.task t a) = some n) :
    ∃ x x', (s.nodes id).tasks[t]? = some x ∧ n.tasks = (s.nodes id).tasks.set t x' ∧
      TaskReport s id t x (s.report id t a) x' := by
  obtain ⟨x, hx, hn⟩ := Option.bind_eq_some_iff.mp hn
  have hsound := (h.sound id).tasks x (List.mem_of_getElem? hx)
  rw [Task.Sound] at hsound
  rw [report, hx, Option.bind_some]
  cases a with
  | submitPriority =>
      cases hpc : x.pc <;> rw [hpc] at hn <;> cases hn
      exact ⟨x, _, rfl, rfl, .silent _ rfl rfl (by rw [Task.isOpen, hpc]) fun _ => rfl⟩
  | beginJob =>
      cases hpc : x.pc <;> rw [hpc] at hn <;> cases hn
      refine ⟨x, _, rfl, rfl, .silent _ rfl rfl (by rw [Task.isOpen, hpc]) ?_⟩
      intro hzero
      rw [hpc] at hsound
      -- not cancelled, so its slot is there
      have hslot : (s.nodes id).node.mPendingSlots.lookup x.smHandle = some .queued := by
        rcases hsound.1 with ⟨hslot, -⟩ | ⟨-, hone⟩
        · exact hslot
        · rw [hzero] at hone
          cases hone
      obtain ⟨⟨job, hjob⟩, -⟩ := SimulatedNode.beginJob_present x.job hslot
      rw [hjob]
      rfl
  | payload succeeded elapsedUs =>
      cases hpc : x.pc <;> rw [hpc] at hn <;> cases hn
      exact ⟨x, _, rfl, rfl, .silent _ rfl rfl (by rw [Task.isOpen, hpc]) fun _ => rfl⟩
  | completeJob =>
      cases hpc : x.pc <;> rw [hpc] at hn <;> cases hn
      exact ⟨x, _, rfl, rfl, .completed _ _ _ hpc⟩
  | onDone =>
      cases hpc : x.pc <;> rw [hpc] at hn <;> cases hn
      exact ⟨x, _, rfl, rfl, .called _ _ hpc⟩

/-- A task that has not passed its last lock region is live, or has been cancelled. -/
theorem Link.side_of_open {k t : Nat} {d : Dispatch} {x : Task} (h : s.Link k d t x)
    (hopen : x.isOpen = true) : d.side = .live ∧ x.cancels = 0 ∨ d.side = .cancelled := by
  have hshows := h.shows
  rw [Task.isOpen] at hopen
  cases hside : d.side with
  | live =>
      rw [hside] at hshows
      exact .inl ⟨rfl, hshows.2⟩
  | cancelled => exact .inr rfl
  | finished completed succeeded =>
      rw [hside] at hshows
      rw [show x.pc = _ from hshows] at hopen
      cases hopen
  | calling f =>
      rw [hside] at hshows
      rw [show x.pc = _ from hshows] at hopen
      cases hopen
  | called =>
      rw [hside] at hshows
      rw [show x.pc = _ from hshows] at hopen
      cases hopen

/-- A task that has run has not been cancelled. -/
theorem Linked.zero_of_ran (h : s.Linked) {id : NodeId} {t : Nat} {x : Task}
    (hx : (s.nodes id).tasks[t]? = some x)
    (hpc : (∃ job succeeded elapsedUs, x.pc = .ran job succeeded elapsedUs) ∨
      ∃ job succeeded, x.pc = .completed job succeeded) : x.cancels = 0 := by
  have hsound := (h.sound id).tasks x (List.mem_of_getElem? hx)
  rw [Task.Sound] at hsound
  rcases hpc with ⟨job, succeeded, elapsedUs, hpc⟩ | ⟨job, succeeded, hpc⟩ <;>
    rw [hpc] at hsound <;> exact hsound.2.1

/-- The dispatch of a task whose payload has returned is live. -/
theorem Linked.live_of_ran (h : s.Linked) {id : NodeId} {t : Nat} {x : Task} {job : Job}
    {succeeded : Bool} {elapsedUs : Nat} (hx : (s.nodes id).tasks[t]? = some x)
    (hpc : x.pc = .ran job succeeded elapsedUs) :
    ∃ d, s.balancer.dispatches[s.dispatchOf id t]? = some d ∧ d.nodeId = id ∧ d.side = .live := by
  obtain ⟨d, hd, hnode, hlink⟩ := h.of_task hx
  refine ⟨d, hd, hnode, ?_⟩
  rcases hlink.side_of_open (by rw [Task.isOpen, hpc]) with ⟨hlive, -⟩ | hcancelled
  · exact hlive
  · have hshows := hlink.shows
    rw [hcancelled] at hshows
    cases (h.zero_of_ran hx (.inl ⟨job, succeeded, elapsedUs, hpc⟩)).symm.trans hshows

/-- The dispatch of a task that is about to invoke its callback is finished. -/
theorem Linked.finished_of_completed (h : s.Linked) {id : NodeId} {t : Nat} {x : Task} {job : Job}
    {succeeded : Bool} (hx : (s.nodes id).tasks[t]? = some x) (hpc : x.pc = .completed job succeeded) :
    ∃ d, s.balancer.dispatches[s.dispatchOf id t]? = some d ∧ d.nodeId = id ∧
      d.side = .finished job succeeded := by
  obtain ⟨d, hd, hnode, hlink⟩ := h.of_task hx
  refine ⟨d, hd, hnode, ?_⟩
  have hzero := h.zero_of_ran hx (.inr ⟨job, succeeded, hpc⟩)
  have hshows := hlink.shows
  cases hside : d.side with
  | live =>
      rw [hside] at hshows
      have hopen := hshows.1
      rw [Task.isOpen, hpc] at hopen
      cases hopen
  | finished completed ok =>
      rw [hside] at hshows
      obtain ⟨rfl, rfl⟩ := TaskPc.completed.inj (hpc.symm.trans hshows)
      rfl
  | calling f =>
      rw [hside] at hshows
      cases hpc.symm.trans hshows
  | called =>
      rw [hside] at hshows
      cases hpc.symm.trans hshows
  | cancelled =>
      rw [hside] at hshows
      cases hzero.symm.trans hshows

/-- The balancer hears of a completed task while its dispatch is live, and of a callback while it is
finished, and can go on with both. -/
theorem Linked.reported (h : s.Linked) (cfg : BalancerConfig F) {ev : Event} {id : NodeId} {t : Nat}
    {x x' : Task} {n : NodeTasks} {e : NodeEvent} (hn : (s.nodes id).step e = some n)
    (hx : (s.nodes id).tasks[t]? = some x) (htasks : n.tasks = (s.nodes id).tasks.set t x')
    (hr : TaskReport s id t x (some ev) x') :
    ∃ b, FatpBalancer.step cfg s.balancer ev = some b ∧
      Linked { s.setNode id n with balancer := b } := by
  have ht := (List.getElem?_eq_some_iff.mp hx).1
  -- in each case the dispatch moves to a place that the new task shows
  have hmoved : ∀ (b : State F) (d d' : Dispatch),
      s.balancer.dispatches[s.dispatchOf id t]? = some d →
      b.dispatches = s.balancer.dispatches.set (s.dispatchOf id t) d' →
      d'.nodeId = d.nodeId → d'.handle = d.handle → x'.smHandle = x.smHandle → x'.Shows d'.side →
      Linked { s.setNode id n with balancer := b } := by
    intro b d d' hd hdispatches hnode hhandle hsame hshows
    refine h.moved hx (h.sound_step hn) rfl rfl ?_ ?_ ?_ hsame ?_ ?_ ?_
    · rw [htasks, List.length_set]
    · rw [htasks, List.getElem?_set_self ht]
    · intro u hu
      rw [htasks, List.getElem?_set_ne hu.symm]
    · show b.dispatches.length = _
      rw [hdispatches, List.length_set]
    · intro j hj
      show b.dispatches[j]? = _
      rw [hdispatches, List.getElem?_set_ne hj.symm]
    · intro d₁ hd₁
      obtain rfl := Option.some.inj (hd.symm.trans hd₁)
      refine ⟨d', ?_, hnode, hhandle, fun _ => hshows⟩
      show b.dispatches[_]? = _
      rw [hdispatches, List.getElem?_set_self (List.getElem?_eq_some_iff.mp hd).1]
  cases hr with
  | completed job succeeded elapsedUs hpc =>
      obtain ⟨d, hd, -, hlive⟩ := h.live_of_ran hx hpc
      simp only [FatpBalancer.step, hd, Option.bind_some, nodeStep, hlive, Option.some.injEq]
      exact ⟨_, rfl, hmoved _ d _ hd rfl rfl rfl rfl rfl⟩
  | called job succeeded hpc =>
      obtain ⟨d, hd, -, hfinished⟩ := h.finished_of_completed hx hpc
      simp only [FatpBalancer.step, hd, Option.bind_some, nodeStep, hfinished, Option.some.injEq]
      refine ⟨_, rfl, ?_⟩
      split
      · exact hmoved _ d _ hd rfl rfl rfl rfl rfl
      · exact hmoved _ d _ hd rfl rfl rfl rfl rfl

/-- A task goes on, and its dispatch stays where it is. -/
theorem Linked.silent (h : s.Linked) {id : NodeId} {t : Nat} {x x' : Task} {n : NodeTasks}
    {e : NodeEvent} (hn : (s.nodes id).step e = some n) (hx : (s.nodes id).tasks[t]? = some x)
    (htasks : n.tasks = (s.nodes id).tasks.set t x') (hr : TaskReport s id t x none x') :
    (s.setNode id n).Linked := by
  obtain ⟨d, hd, rfl, hlink⟩ := h.of_task hx
  have ht := (List.getElem?_eq_some_iff.mp hx).1
  cases hr with
  | silent _ hhandle hcancels hopen hopen' =>
      refine h.moved hx (h.sound_step hn) rfl rfl ?_ ?_ ?_ hhandle rfl (fun _ _ => rfl) ?_
      · rw [htasks, List.length_set]
      · rw [htasks, List.getElem?_set_self ht]
      · intro u hu
        rw [htasks, List.getElem?_set_ne hu.symm]
      · intro d₁ hd₁
        obtain rfl := Option.some.inj (hd.symm.trans hd₁)
        refine ⟨d, hd, rfl, rfl, ?_⟩
        intro hshows
        rcases hlink.side_of_open hopen with ⟨hside, hzero⟩ | hside
        · rw [hside]
          exact ⟨hopen' hzero, hcancels.trans hzero⟩
        · rw [hside] at hshows ⊢
          exact hcancels.trans hshows

/-- A node takes a step that leaves its tasks as they are. -/
theorem Linked.sameTasks (h : s.Linked) {id : NodeId} {n : NodeTasks} {e : NodeEvent}
    (hn : (s.nodes id).step e = some n) (htasks : n.tasks = (s.nodes id).tasks) :
    (s.setNode id n).Linked := by
  have hsame : ∀ id', ((s.setNode id n).nodes id').tasks = (s.nodes id').tasks := by
    intro id'
    show (Function.update s.nodes id n id').tasks = _
    obtain rfl | hne := eq_or_ne id' id
    · rw [Function.update_self, htasks]
    · rw [Function.update_of_ne hne]
  refine h.kept (h.sound_step hn) rfl (fun id' => by rw [hsame id']) rfl ?_
  intro k d u y hd hy
  exact ⟨d, y, hd, rfl, hy.job, (hsame _).symm ▸ hy.task, hy.handle, hy.shows⟩

/-- **The step lemma.** -/
theorem Linked.next (h : s.Linked) (hknown : KnownInv s.balancer) (hm : ClusterMove cfg s s') :
    s'.Linked := by
  cases hm with
  | thread ev b hreq hblocked hb => exact h.thread hreq hblocked hb
  | refused ev b nodeId job hreq hin hb =>
      obtain ⟨b', hb', hsame⟩ := step_refused cfg ev hreq hin
      obtain rfl := Option.some.inj (hb.symm.trans hb')
      exact h.sameDispatches hsame
  | accepted ev b nodeId job smHandle n hreq hfresh hn htasks hin hb =>
      obtain ⟨b', call, hb', hdispatches⟩ := step_accepted cfg ev hreq hin
        (h.free_of_fresh hfresh)
      obtain rfl := Option.some.inj (hb.symm.trans hb')
      exact h.accepted (h.sound_step hn) rfl htasks rfl hdispatches
  | uncancelled ev b nodeId handle error hreq hnode hin hb =>
      obtain ⟨c, info, hinfo, rfl, rfl, hc, -⟩ := exists_step_cancel cfg ev hreq
      obtain ⟨b', hb', hsame⟩ := step_uncancelled cfg ev hreq hin
        fun herror => h.notFound_free (hknown.asked c hc info hinfo) (herror ▸ hnode)
      obtain rfl := Option.some.inj (hb.symm.trans hb')
      exact h.sameDispatches hsame
  | cancelled ev b nodeId handle n hreq hnode hn hin hb =>
      obtain ⟨c, info, hinfo, rfl, rfl, hc, -⟩ := exists_step_cancel cfg ev hreq
      obtain ⟨b', hb', hlinked⟩ := h.cancelled cfg ev (hknown.asked c hc info hinfo) hreq hnode
        hn hin
      obtain rfl := Option.some.inj (hb.symm.trans hb')
      exact hlinked
  | task nodeId t a n hn hreport =>
      obtain ⟨x, x', hx, htasks, hr⟩ := h.taskReport hn
      rw [hreport] at hr
      exact h.silent hn hx htasks hr
  | reported ev b nodeId t a n hn hreport hb =>
      obtain ⟨x, x', hx, htasks, hr⟩ := h.taskReport hn
      rw [hreport] at hr
      obtain ⟨b', hb', hlinked⟩ := h.reported cfg hn hx htasks hr
      obtain rfl := Option.some.inj (hb.symm.trans hb')
      exact hlinked
  | node nodeId e n he hn htasks => exact h.sameTasks hn htasks

/-! ## The contract

With every dispatch linked, an answer of the node is always one the balancer's machine can take, and
every report of a task finds its dispatch. -/

/-- A step of the cluster is a step of the balancer or leaves it alone. -/
theorem ClusterMove.balancer (h : ClusterMove cfg s s') : s'.balancer = s.balancer ∨
    ∃ ev, FatpBalancer.step cfg s.balancer ev = some s'.balancer := by
  cases h with
  | task | node => exact .inl rfl
  | thread ev b hreq hblocked hb => exact .inr ⟨ev, hb⟩
  | refused ev b nodeId job hreq hin hb => exact .inr ⟨ev, hb⟩
  | accepted ev b nodeId job smHandle n hreq hfresh hn htasks hin hb => exact .inr ⟨ev, hb⟩
  | uncancelled ev b nodeId handle error hreq hnode hin hb => exact .inr ⟨ev, hb⟩
  | cancelled ev b nodeId handle n hreq hnode hn hin hb => exact .inr ⟨ev, hb⟩
  | reported ev b nodeId t a n hn hreport hb => exact .inr ⟨ev, hb⟩

/-- A step of the cluster is a step of a node or leaves it alone. -/
theorem ClusterMove.nodes (h : ClusterMove cfg s s') (id : NodeId) : s'.nodes id = s.nodes id ∨
    ∃ e, (s.nodes id).step e = some (s'.nodes id) := by
  have hupdate : ∀ {nodeId : NodeId} {e : NodeEvent} {n : NodeTasks},
      (s.nodes nodeId).step e = some n → Function.update s.nodes nodeId n id = s.nodes id ∨
        ∃ e, (s.nodes id).step e = some (Function.update s.nodes nodeId n id) := by
    intro nodeId e n hn
    obtain rfl | hne := eq_or_ne id nodeId
    · rw [Function.update_self]
      exact .inr ⟨e, hn⟩
    · rw [Function.update_of_ne hne]
      exact .inl rfl
  cases h with
  | thread | refused | uncancelled => exact .inl rfl
  | accepted ev b nodeId job smHandle n hreq hfresh hn => exact hupdate hn
  | cancelled ev b nodeId handle n hreq hnode hn => exact hupdate hn
  | task nodeId t a n hn => exact hupdate hn
  | reported ev b nodeId t a n hn => exact hupdate hn
  | node nodeId e n he hn => exact hupdate hn

end Cluster

section Runs

variable {s : Cluster F} {ok : Cluster F → ClusterEvent → Prop}

/-- What the balancer of a cluster does, it does on its own. -/
theorem balancer_reach (hs : (cluster cfg mConfig).Reach ok s) :
    (balancer cfg).Reach anyEvent s.balancer := by
  refine hs.invariant (I := fun s => (balancer cfg).Reach anyEvent s.balancer) .init ?_
  intro s s' e _ ih _ hstep
  rcases (Cluster.step_move hstep).balancer with hsame | ⟨ev, hb⟩
  · rwa [hsame]
  · exact ih.step ev trivial hb

/-- And so does each of its nodes. -/
theorem node_reach (hs : (cluster cfg mConfig).Reach ok s) (id : NodeId) :
    (simulatedNode id mConfig).Reach anyEvent (s.nodes id) := by
  refine hs.invariant (I := fun s => (simulatedNode id mConfig).Reach anyEvent (s.nodes id)) .init ?_
  intro s s' e _ ih _ hstep
  rcases (Cluster.step_move hstep).nodes id with hsame | ⟨e, hn⟩
  · rwa [hsame]
  · exact ih.step e trivial hn

theorem Cluster.Linked.create : (Cluster.create cfg mConfig).Linked where
  sound id := .init id mConfig
  length _ := rfl
  dispatches hd := by cases hd
  tasks hk := by cases hk

/-- In every reachable state of the cluster. -/
theorem linked_reach (hs : (cluster cfg mConfig).Reach ok s) : s.Linked := by
  refine hs.invariant (I := Cluster.Linked) .create ?_
  intro s s' e hr h _ hstep
  exact h.next (knownInv_reach (balancer_reach hr)) (Cluster.step_move hstep)

/-- No answer and no report of a node is one that the balancer cannot go on with. -/
structure Unobstructed (cfg : BalancerConfig F) (s : Cluster F) : Prop where
  /-- whatever handle the slot map picks that it has not picked before -/
  submit : ∀ ev nodeId job smHandle, s.balancer.request ev.actor = some (.submit nodeId job) →
    (∀ x ∈ (s.nodes nodeId).tasks, x.smHandle ≠ smHandle) →
    (s.step cfg (.thread ev smHandle)).isSome
  cancel : ∀ ev nodeId handle smHandle,
    s.balancer.request ev.actor = some (.cancel nodeId handle) →
    (s.step cfg (.thread ev smHandle)).isSome
  task : ∀ id t a, ((s.nodes id).step (.task t a)).isSome → (s.step cfg (.task id t a)).isSome

theorem Cluster.Linked.unobstructed (h : s.Linked) (hknown : KnownInv s.balancer) :
    Unobstructed cfg s where
  submit ev nodeId job smHandle hreq hfresh := by
    have hany : ¬((s.nodes nodeId).tasks.any (·.smHandle = smHandle)) = true := by
      intro hany
      obtain ⟨x, hx, heq⟩ := List.any_eq_true.mp hany
      exact hfresh x hx (of_decide_eq_true heq)
    simp only [Cluster.step, hreq, NodeTasks.step, if_neg hany]
    cases hnode : (s.nodes nodeId).node.submit job smHandle with
    | error error =>
        obtain ⟨b, hb, -⟩ := step_refused cfg
          { ev with input := { ev.input with accepted := none } } hreq rfl
        simp [Cluster.accepts_error hnode, Cluster.stepBalancer, Cluster.setNode, hb]
    | ok node =>
        obtain ⟨b, call, hb, -⟩ := step_accepted cfg
          { ev with input := { ev.input with accepted := some smHandle.toJobHandle } } hreq rfl
          (h.free_of_fresh hfresh)
        simp [Cluster.accepts_ok hnode, Cluster.stepBalancer, Cluster.setNode, hb]
  cancel ev nodeId handle smHandle hreq := by
    obtain ⟨c, info, hinfo, rfl, rfl, hc, -⟩ := exists_step_cancel cfg ev hreq
    have hasked := hknown.asked c hc info hinfo
    simp only [Cluster.step, hreq]
    cases hnode : ((s.nodes info.nodeId).node.cancel c.handle).1 with
    | error error =>
        obtain ⟨b, hb, -⟩ := step_uncancelled cfg
          { ev with input := { ev.input with cancelReply := .error error } } hreq rfl
          fun herror => h.notFound_free hasked (herror ▸ hnode)
        simp [NodeTasks.step, Cluster.cancelReply, hnode, Cluster.stepBalancer, Cluster.setNode, hb]
    | ok _ =>
        have hstep : ∃ n, (s.nodes info.nodeId).step (.cancel c.handle) = some n := by
          simp only [NodeTasks.step, hnode]
          exact ⟨_, rfl⟩
        obtain ⟨n, hn⟩ := hstep
        obtain ⟨b, hb, -⟩ := h.cancelled cfg { ev with input := { ev.input with
            cancelReply := .ok (s.dispatchOf info.nodeId (s.taskAt info.nodeId c.handle)) } }
          hasked hreq hnode hn rfl
        simp [hn, Cluster.cancelReply, hnode, Cluster.stepBalancer, Cluster.setNode, hb]
  task id t a hsome := by
    obtain ⟨n, hn⟩ := Option.isSome_iff_exists.mp hsome
    obtain ⟨x, x', hx, htasks, hr⟩ := h.taskReport hn
    rw [Cluster.step, hn, Option.bind_some]
    cases hreport : s.report id t a with
    | none => rfl
    | some ev =>
        rw [hreport] at hr
        obtain ⟨b, hb, -⟩ := h.reported cfg hn hx htasks hr
        simp [Cluster.stepBalancer, Cluster.setNode, hb]

/-- **The simulated nodes keep the contract.**  In a cluster the balancer does nothing that it does
not do over nodes that are only held to the contract of `INode`, each node does what it does for any
caller, and neither ever stops the other: every call into a node returns an answer that the balancer
goes on with, and every task runs on. -/
theorem nodes_keep_contract (hs : (cluster cfg mConfig).Reach anyEvent s) :
    (balancer cfg).Reach anyEvent s.balancer ∧
      (∀ id, (simulatedNode id mConfig).Reach anyEvent (s.nodes id)) ∧ Unobstructed cfg s :=
  ⟨balancer_reach hs, node_reach hs,
    (linked_reach hs).unobstructed (knownInv_reach (balancer_reach hs))⟩

/-! ### A run with three jobs

A script of thread steps, which other modules of the cluster take up again. -/

/-- The same thread taking `n` steps with the same input. -/
def threadSteps (n : Nat) (actor : Actor) (input : Input) (smHandle : SlotMapHandle) :
    List ClusterEvent :=
  List.replicate n (.thread { actor, input } smHandle)

/-- A job runs; a second one is cancelled on its node; a third one is cancelled while it is held. -/
def restScript : List ClusterEvent :=
  threadSteps 1 (.submitCall {}) {} ⟨0, 0⟩ ++
    threadSteps 9 (.submit 0) { selected := some 0 } ⟨0, 1⟩ ++
    [.task 0 0 .submitPriority] ++ threadSteps 4 (.submit 0) {} ⟨0, 0⟩ ++
    threadSteps 1 (.submitCall {}) {} ⟨0, 0⟩ ++
    threadSteps 9 (.submit 1) { selected := some 0 } ⟨1, 1⟩ ++
    [.task 0 1 .submitPriority] ++ threadSteps 4 (.submit 1) {} ⟨0, 0⟩ ++
    threadSteps 1 (.submitCall { priority := .critical }) {} ⟨0, 0⟩ ++
    threadSteps 11 (.submit 2) { metrics := [{ state := .overloaded }] } ⟨0, 0⟩ ++
    threadSteps 1 (.cancelCall (SlotMapHandle.toJobHandle ⟨1, 1⟩)) {} ⟨0, 0⟩ ++
    threadSteps 6 (.cancel 0) {} ⟨0, 0⟩ ++
    threadSteps 1 (.cancelCall (holdingHandle 1)) {} ⟨0, 0⟩ ++
    threadSteps 6 (.cancel 1) {} ⟨0, 0⟩ ++
    [.task 0 0 .beginJob, .task 0 1 .beginJob, .task 0 0 (.payload true 5), .task 0 0 .completeJob,
      .task 0 0 .onDone] ++
    threadSteps 5 (.node 0) {} ⟨0, 0⟩

/-- While the second job is being cancelled. -/
theorem nodes_keep_contract_cancel : ∃ s : Cluster Rat, (s.nodes 0).tasks.length = 2 ∧
    (balancer oneNode).Reach anyEvent s.balancer ∧
      (∀ id, (simulatedNode id {}).Reach anyEvent (s.nodes id)) ∧ Unobstructed oneNode s := by
  obtain ⟨s, hs, hp⟩ := exists_reach (cluster oneNode {}) anyEvent (restScript.take 45)
    (fun s => (s.nodes 0).tasks.length == 2) (by decide +kernel)
  exact ⟨s, by simpa using hp, nodes_keep_contract hs⟩

end Runs

end FatpBalancer
