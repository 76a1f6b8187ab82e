/-
# The cluster: everything in flight comes to an end

The steps that are left to the calls, the callbacks and the tasks of a cluster are finitely many,
however they interleave, and until all of them are done one is possible.  No thread waits for another
one that waits for it, and none is kept going round by the others.  A cluster that gets no new calls
therefore comes to a state in which nobody is at work, and there each accepted job has been finalised
once or is held.

With a limit on the retries the drain loop can be counted in, as long as it does not find the cluster
saturated.  It does not when the nodes have nothing to do, since an overloaded node has a queue; and
so no job is held for ever either.

`TaskPc.work` counts the steps of a task; `effort` combines them with the balancer's work and its
stale readings into one number that every counted step makes smaller.  `Paid` says of a set of
counted steps that they are paid for, and is shown of two sets: the steps of calls and callbacks,
and these together with those of the drain loop.

`Stuck` is the other half.  In a state in which no counted step is possible every task is final, no
thread is asking a node, and so every call has returned: nobody waits for anybody.  The two halves
meet in `Lib.Progress`: a run of counted steps is finite, and where it ends the cluster is at rest.
-/
import Mathlib.Data.List.Dedup
import FatpBalancer.Balancer.HeldProgress
import FatpBalancer.Balancer.Rest
import FatpBalancer.Lib.Progress
import FatpBalancer.Sim.ClusterMetrics

universe u

namespace FatpBalancer

open Machine

variable {F : Type u} [FloatOps F] {cfg : BalancerConfig F} {mConfig : SimulatedNodeConfig}

/-! ## The steps left

A step of a task may begin a callback, whose steps the balancer counts; the number set aside for a
dispatch covers both. -/

/-- The steps a task has left, its callback included. -/
def TaskPc.work : TaskPc → Nat
  | .registered => 5
  | .queued => 4
  | .running _ => 3
  | .ran .. => 2
  | .completed .. => 1
  | .called | .discarded => 0

/-- The steps all tasks of a node have left. -/
def NodeTasks.work (n : NodeTasks) : Nat := Table.total (fun x => x.pc.work) n.tasks

namespace NodeTasks

variable {s s' : NodeTasks}

/-- A step of a task is one step less to go. -/
theorem work_task {k : Nat} {a : TaskAction} (h : s.step (.task k a) = some s') :
    s'.work < s.work := by
  obtain ⟨x, hx, h⟩ := Option.bind_eq_some_iff.mp h
  have hset : ∀ x' : Task, s'.tasks = s.tasks.set k x' → x'.pc.work < x.pc.work →
      s'.work < s.work := by
    intro x' htasks hlt
    have htraded := Table.total_set (w := fun x : Task => x.pc.work) hx x'
    simp only [NodeTasks.work, htasks]
    omega
  cases a <;> cases hpc : x.pc <;> rw [hpc] at h <;> cases h
  case beginJob.queued =>
    refine hset _ rfl ?_
    rw [hpc]
    cases (s.node.beginJob x.job x.smHandle).1 <;> simp [TaskPc.work]
  all_goals
    refine hset _ rfl ?_
    simp [hpc, TaskPc.work]

/-- A new task has all of its steps to go. -/
theorem work_submit {job : Job} {smHandle : SlotMapHandle}
    (h : s.step (.submit job smHandle) = some s') : s'.work ≤ s.work + 5 := by
  simp only [step] at h
  split at h
  · cases h
  · split at h <;> cases h
    · exact Nat.le_add_right ..
    · simp [NodeTasks.work, TaskPc.work]

/-- A cancel leaves the tasks where they are. -/
theorem work_cancel {handle : JobHandle} (h : s.step (.cancel handle) = some s') :
    s'.work = s.work := by
  simp only [step] at h
  split at h <;> cases h
  · rfl
  · simp only [NodeTasks.work, Table.total, List.map_map]
    congr 1
    apply List.map_congr_left
    intro x _
    simp only [Function.comp]
    split <;> rfl

/-- A task that is not done has a step to take. -/
theorem exists_stepTask {k : Nat} {x : Task} (hx : s.tasks[k]? = some x)
    (hopen : x.pc.isFinal = false) : ∃ a, (s.step (.task k a)).isSome := by
  simp only [step, hx, Option.bind_some]
  cases hpc : x.pc with
  | registered => exact ⟨.submitPriority, rfl⟩
  | queued => exact ⟨.beginJob, rfl⟩
  | running job => exact ⟨.payload true 0, rfl⟩
  | ran job succeeded elapsedUs => exact ⟨.completeJob, rfl⟩
  | completed job succeeded => exact ⟨.onDone, rfl⟩
  | called | discarded =>
      rw [hpc] at hopen
      cases hopen

end NodeTasks

namespace Cluster

variable {s s' : Cluster F} {e : ClusterEvent}

/-- The steps the tasks of these nodes have left. -/
def tasksWork (s : Cluster F) (nodes : List NodeId) : Nat :=
  Table.total (fun id => (s.nodes id).work) nodes.dedup

/-- The balancer's work and the nodes', each step of which can make every call's reading stale. -/
def effort (cfg : BalancerConfig F) (work : State F → Nat) (s : Cluster F) : Nat :=
  (work s.balancer + s.tasksWork cfg.nodes) * (s.balancer.calls.length + 1) + s.balancer.stale

/-- A task goes on, or a thread of the balancer by a step that `p` counts.  New calls and faults are
not counted. -/
def counts (p : State F → Event → Bool) (s : Cluster F) : ClusterEvent → Prop
  | .thread ev _ => p s.balancer ev = true
  | .task .. => True
  | _ => False

/-- A thread that looks at the metrics of the nodes sees them as they are. -/
def Truthful (cfg : BalancerConfig F) (s : Cluster F) : ClusterEvent → Prop
  | .thread ev _ => ∃ workerCount activeTasks,
      ev.input.metrics = s.snapshotMetrics cfg workerCount activeTasks
  | _ => True

/-- The steps that `p` counts are paid for out of `work`, whatever the nodes answer. -/
structure Paid (cfg : BalancerConfig F) (p : State F → Event → Bool) (work : State F → Nat) :
    Prop where
  accepted : ∀ b ev accepted, p b ev = true →
    p b { ev with input := { ev.input with accepted } } = true
  cancelReply : ∀ b ev cancelReply, p b ev = true →
    p b { ev with input := { ev.input with cancelReply } } = true
  node : ∀ b ev k, ev.actor = .node k → p b ev = true
  pays : ∀ b b' ev, FatpBalancer.step cfg b ev = some b' → p b ev = true →
    Pays work (b.cost ev.actor) b b'

/-- The steps of the calls and of the callbacks. -/
theorem paid_busy (cfg : BalancerConfig F) : Paid cfg State.busy State.work where
  accepted _ _ _ h := h
  cancelReply _ _ _ h := h
  node _ _ _ h := by rw [State.busy, h]
  pays _ _ _ := step_pays

/-- And those of the drain loop. -/
theorem paid_serves (hlimit : 0 < cfg.holdingQueue.maxRetries)
    (hrange : cfg.holdingQueue.maxRetries < 2 ^ 32) :
    Paid cfg (State.serves cfg) (State.fullWork cfg) where
  accepted _ _ _ h := h
  cancelReply _ _ _ h := h
  node _ _ _ h := by rw [State.serves, h, State.busy, h]
  pays _ _ _ := step_serves hlimit hrange

/-- What the balancer has paid covers what a node has got to do. -/
theorem effort_lt {work : State F → Nat} {cost : Nat} (hpays : Pays work cost s.balancer s'.balancer)
    (htasks : s'.tasksWork cfg.nodes ≤ s.tasksWork cfg.nodes + cost) :
    s'.effort cfg work < s.effort cfg work := by
  rw [effort, effort, hpays.calls]
  refine weighted_lt (hpays.calls ▸ s'.balancer.stale_le) ?_
  rcases hpays.pays with hlt | ⟨rfl, hle, hless⟩
  · exact .inl (by omega)
  · exact .inr ⟨by omega, hless⟩

/-- A step of one node's task. -/
theorem tasksWork_setNode {nodeId : NodeId} {n : NodeTasks} {cost : Nat}
    (h : n.work ≤ (s.nodes nodeId).work + cost) (nodes : List NodeId) :
    (s.setNode nodeId n).tasksWork nodes ≤ s.tasksWork nodes + cost :=
  Table.total_update_le s.nodes (List.nodup_dedup nodes) h

/-- What a request may give a node to do. -/
theorem cost_of_request {a : Actor} {nodeId : NodeId} {job : Job}
    (h : s.balancer.request a = some (.submit nodeId job)) : s.balancer.cost a = 6 := by
  rcases State.request_submit h with ⟨i, c, rfl, hc, hpc⟩ | ⟨entry, rfl, hpc, -⟩
  · rw [State.cost, hc, Option.elim_some, hpc]
    rfl
  · rw [State.cost, hpc]
    rfl

section Paid

variable {p : State F → Event → Bool} {work : State F → Nat}

/-- A step that counts is one of the balancer's, which has paid for what the nodes have got to do, or
one of a task by itself. -/
theorem Paid.step_cases (hp : Paid cfg p work) (hl : s.Linked) (hnodes : NodesInv cfg s.balancer)
    (hstep : s.step cfg e = some s') (hcounts : s.counts p e) :
    (∃ ev, p s.balancer ev = true ∧ FatpBalancer.step cfg s.balancer ev = some s'.balancer ∧
        s'.tasksWork cfg.nodes ≤ s.tasksWork cfg.nodes + s.balancer.cost ev.actor) ∨
      s'.balancer = s.balancer ∧ s'.tasksWork cfg.nodes < s.tasksWork cfg.nodes := by
  cases e with
  | reprioritise | injectFault => cases hcounts
  | thread ev smHandle =>
      left
      rw [Cluster.step] at hstep
      split at hstep
      · split at hstep
        · cases hstep
        · obtain ⟨b, hb, rfl⟩ := Option.map_eq_some_iff.mp hstep
          exact ⟨ev, hcounts, hb, Nat.le_add_right ..⟩
      · next nodeId job hreq =>
          obtain ⟨n, hn, hstep⟩ := Option.bind_eq_some_iff.mp hstep
          obtain ⟨b, hb, rfl⟩ := Option.map_eq_some_iff.mp hstep
          refine ⟨_, hp.accepted _ _ (s.accepts nodeId job smHandle) hcounts, hb, ?_⟩
          have hcost : s.balancer.cost ev.actor = 6 := cost_of_request hreq
          rw [hcost]
          exact tasksWork_setNode ((NodeTasks.work_submit hn).trans (by omega)) cfg.nodes
      · next nodeId handle hreq =>
          obtain ⟨n, hn, hstep⟩ := Option.bind_eq_some_iff.mp hstep
          obtain ⟨b, hb, rfl⟩ := Option.map_eq_some_iff.mp hstep
          refine ⟨_, hp.cancelReply _ _ (s.cancelReply nodeId handle) hcounts, hb, ?_⟩
          exact tasksWork_setNode ((NodeTasks.work_cancel hn).le.trans (Nat.le_add_right ..)) _
  | task id t a =>
      rw [Cluster.step] at hstep
      obtain ⟨n, hn, hstep⟩ := Option.bind_eq_some_iff.mp hstep
      have hlt := NodeTasks.work_task hn
      split at hstep
      · cases hstep
        right
        -- the node is one of the balancer's, so its tasks are counted
        obtain ⟨x, hx, -⟩ := Option.bind_eq_some_iff.mp hn
        obtain ⟨d, hd, rfl, -⟩ := hl.of_task hx
        have hmem : d.nodeId ∈ cfg.nodes.dedup :=
          List.mem_dedup.mpr (List.mem_of_find?_eq_some (hnodes.dispatches hd))
        have htraded := Table.total_update (w := NodeTasks.work) s.nodes n
          (List.nodup_dedup cfg.nodes) hmem
        refine ⟨rfl, ?_⟩
        simp only [tasksWork, setNode]
        omega
      · next ev hreport =>
          left
          obtain ⟨b, hb, rfl⟩ := Option.map_eq_some_iff.mp hstep
          have hnode : ∃ k, ev.actor = .node k := by
            rw [report] at hreport
            obtain ⟨x, -, hreport⟩ := Option.bind_eq_some_iff.mp hreport
            split at hreport <;> cases hreport <;> exact ⟨_, rfl⟩
          obtain ⟨k, hactor⟩ := hnode
          refine ⟨ev, hp.node _ ev k hactor, hb, ?_⟩
          exact tasksWork_setNode (hlt.le.trans (Nat.le_add_right ..)) _

/-- **Every step that counts is one less to go.** -/
theorem Paid.step_effort (hp : Paid cfg p work) (hl : s.Linked) (hnodes : NodesInv cfg s.balancer)
    (hstep : s.step cfg e = some s') (hcounts : s.counts p e) :
    s'.effort cfg work < s.effort cfg work := by
  rcases hp.step_cases hl hnodes hstep hcounts with ⟨ev, hev, hb, htasks⟩ | ⟨hb, hless⟩
  · exact effort_lt (hp.pays _ _ ev hb hev) htasks
  · rw [effort, effort, hb]
    exact Nat.add_lt_add_right
      (Nat.mul_lt_mul_of_pos_right (Nat.add_lt_add_left hless _) (Nat.succ_pos _)) _

/-- The jobs handed to nodes so far and those that still can be are fewer than this: the ones in the
hands of open calls, in the holding queue and in those of the drain thread.  How often a held job may
be tried again makes no difference. -/
def Room (bound : Nat) (s : Cluster F) : Prop := s.balancer.placements < bound

instance (bound : Nat) (s : Cluster F) : Decidable (s.Room bound) :=
  inferInstanceAs (Decidable (_ < _))

/-- The dispatches are among the jobs that `Room` counts. -/
theorem Room.dispatches {bound : Nat} (h : s.Room bound) :
    s.balancer.dispatches.length < bound :=
  (Nat.le_add_right ..).trans_lt h

/-- No step that counts makes the jobs for the nodes more. -/
theorem Paid.step_room (hp : Paid cfg p work) (hl : s.Linked) (hnodes : NodesInv cfg s.balancer)
    (hstep : s.step cfg e = some s') (hcounts : s.counts p e) {bound : Nat}
    (hroom : s.Room bound) : s'.Room bound := by
  rw [Room] at hroom ⊢
  rcases hp.step_cases hl hnodes hstep hcounts with ⟨ev, hev, hb, -⟩ | ⟨hb, -⟩
  · exact (step_placements_le hb (hp.pays _ _ ev hb hev).calls).trans_lt hroom
  · rwa [hb]

end Paid

/-! ## Somebody can go on

A thread that has not returned has a next step, unless it waits for a node's answer; and the node's
answer is always to be had. -/

/-- Nobody is at work: every call has returned, every task is done and every callback is back, and
the background threads have no job in hand.  Jobs may still be held. -/
structure Quiescent (s : Cluster F) : Prop where
  calls : ∀ c ∈ s.balancer.calls, ∃ result, c.pc = .returned result
  cancels : ∀ c ∈ s.balancer.cancels, ∃ result, c.pc = .returned result
  drain : s.balancer.drain.isBusy = false
  aging : s.balancer.aging.isBusy = false
  callbacks : ∀ d ∈ s.balancer.dispatches, d.side.isCalling = false
  tasks : ∀ id, ∀ x ∈ (s.nodes id).tasks, x.pc.isFinal = true

/-- A slot handle is determined by the job handle made of it. -/
theorem ofJobHandle_inj {m n : Nat} (hm : m < 2 ^ 64) (hn : n < 2 ^ 64)
    (h : SlotMapHandle.ofJobHandle m = SlotMapHandle.ofJobHandle n) : m = n := by
  simp only [SlotMapHandle.ofJobHandle, SlotMapHandle.mk.injEq] at h
  obtain ⟨hindex, hgeneration⟩ := h
  have hindex := congrArg UInt32.toNat hindex
  have hgeneration := congrArg UInt32.toNat hgeneration
  simp only [UInt32.toNat_ofNat', Nat.shiftRight_eq_div_pow] at hindex
  simp only [UInt32.toNat_ofNat', show (0xFFFFFFFF : Nat) = 2 ^ 32 - 1 from rfl,
    Nat.and_two_pow_sub_one_eq_mod] at hgeneration
  omega

/-- A node that has accepted fewer jobs than there are handles has one left. -/
theorem exists_fresh {tasks : List Task} (h : tasks.length < 2 ^ 64) :
    ∃ smHandle : SlotMapHandle, ∀ x ∈ tasks, x.smHandle ≠ smHandle := by
  by_contra hnone
  have hall : ∀ smHandle : SlotMapHandle, ∃ x ∈ tasks, x.smHandle = smHandle := by
    intro smHandle
    by_contra hfree
    exact hnone ⟨smHandle, fun x hx heq => hfree ⟨x, hx, heq⟩⟩
  have hnodup : ((List.range (tasks.length + 1)).map SlotMapHandle.ofJobHandle).Nodup := by
    refine List.Nodup.map_on ?_ List.nodup_range
    intro m hm n hn heq
    rw [List.mem_range] at hm hn
    exact ofJobHandle_inj (by omega) (by omega) heq
  have hsub : (List.range (tasks.length + 1)).map SlotMapHandle.ofJobHandle ⊆
      tasks.map (·.smHandle) := by
    intro smHandle _
    obtain ⟨x, hx, rfl⟩ := hall smHandle
    exact List.mem_map_of_mem hx
  have hle := (List.subperm_of_subset hnodup hsub).length_le
  simp only [List.length_map, List.length_range] at hle
  omega

/-- A node has no more tasks than the balancer has dispatches. -/
theorem Linked.length_tasks_le (h : s.Linked) (id : NodeId) :
    (s.nodes id).tasks.length ≤ s.balancer.dispatches.length := by
  have hnodup : (s.jobs id).Nodup := by
    rw [List.nodup_iff_getElem?_ne_getElem?]
    intro t t' hlt hlt' heq
    have hk := List.getElem?_eq_getElem hlt'
    obtain ⟨d, x, hd, rfl, hlink⟩ := h.tasks (heq.trans hk)
    obtain ⟨d', x', hd', -, hlink'⟩ := h.tasks hk
    obtain rfl := Option.some.inj (hd.symm.trans hd')
    exact hlt.ne (h.task_unique hlink hlink')
  have hsub : s.jobs id ⊆ List.range s.balancer.dispatches.length := by
    intro k hk
    obtain ⟨t, ht⟩ := List.getElem?_of_mem hk
    obtain ⟨d, x, hd, -⟩ := h.tasks ht
    exact List.mem_range.mpr (List.getElem?_eq_some_iff.mp hd).1
  have hle := (List.subperm_of_subset hnodup hsub).length_le
  rw [List.length_range, h.length id] at hle
  exact hle

/-- A node with room has a handle that is free. -/
theorem Linked.exists_fresh (h : s.Linked) (hfew : s.balancer.dispatches.length < 2 ^ 64)
    (id : NodeId) : ∃ smHandle : SlotMapHandle, ∀ x ∈ (s.nodes id).tasks, x.smHandle ≠ smHandle :=
  Cluster.exists_fresh ((h.length_tasks_le id).trans_lt hfew)

/-- A thread that asks nothing of a node goes on as the balancer does. -/
theorem exists_thread {ev : Event} (hreq : s.balancer.request ev.actor = none)
    (hblocked : s.blocked ev.actor = false)
    (h : ∃ b, FatpBalancer.step cfg s.balancer ev = some b) :
    ∃ s', s.step cfg (.thread ev ⟨0, 0⟩) = some s' := by
  obtain ⟨b, hb⟩ := h
  refine ⟨{ s with balancer := b }, ?_⟩
  simp [step, hreq, hblocked, stepBalancer, hb]

/-! ## Nobody waits for ever

A stuck cluster, seen from the tasks, from the calls and from the background threads. -/

/-- What a thread is given that looks at the nodes now. -/
def look (cfg : BalancerConfig F) (s : Cluster F) : Input :=
  { metrics := s.snapshotMetrics cfg 1 fun _ => 0 }

/-- Nobody can take a step that counts with the metrics as they are. -/
def Stuck (cfg : BalancerConfig F) (p : State F → Event → Bool) (s : Cluster F) : Prop :=
  ∀ e, s.counts p e → s.Truthful cfg e → s.step cfg e = none

section Stuck

variable {p : State F → Event → Bool} {ev : Event}

/-- No thread that looks at the nodes now has a counted step. -/
theorem Stuck.not_step (h : s.Stuck cfg p) {e : ClusterEvent} (hcounts : s.counts p e)
    (htruth : s.Truthful cfg e) : ¬∃ s', s.step cfg e = some s' := by
  rintro ⟨s', hs'⟩
  rw [h e hcounts htruth] at hs'
  cases hs'

/-- Every task is done, since a task can always go on. -/
theorem Stuck.tasks_final (h : s.Stuck cfg p) (hfree : Unobstructed cfg s) :
    ∀ id, ∀ x ∈ (s.nodes id).tasks, x.pc.isFinal = true := by
  intro id x hx
  by_contra hopen
  obtain ⟨t, ht⟩ := List.getElem?_of_mem hx
  obtain ⟨a, ha⟩ := NodeTasks.exists_stepTask ht (by simpa using hopen)
  exact h.not_step (e := .task id t a) trivial trivial
    (Option.isSome_iff_exists.mp (hfree.task id t a ha))

/-- Once the tasks are done each submitter is back from the node. -/
theorem handedOver_of_final (htasks : ∀ id, ∀ x ∈ (s.nodes id).tasks, x.pc.isFinal = true)
    (r : Register) : s.handedOver r = true := by
  rw [handedOver, List.all_eq_true]
  intro e he
  have hfinal := htasks r.nodeId e.1 (List.of_mem_zip he).1
  cases hpc : e.1.pc <;> rw [hpc] at hfinal <;> first | (cases hfinal; done) | simp

/-- A thread that counts has nothing to ask of a node: the node would answer. -/
theorem Stuck.no_request (h : s.Stuck cfg p) (hl : s.Linked) (hfree : Unobstructed cfg s)
    (hfew : s.balancer.dispatches.length < 2 ^ 64) (hev : p s.balancer ev = true)
    (hlook : ev.input = s.look cfg) : s.balancer.request ev.actor = none := by
  have htruth : ∀ smHandle, s.Truthful cfg (.thread ev smHandle) :=
    fun _ => ⟨1, fun _ => 0, by rw [hlook]; rfl⟩
  cases hreq : s.balancer.request ev.actor with
  | none => rfl
  | some request =>
      cases request with
      | submit nodeId job =>
          obtain ⟨smHandle, hfresh⟩ := hl.exists_fresh hfew nodeId
          exact absurd
            (Option.isSome_iff_exists.mp (hfree.submit ev nodeId job smHandle hreq hfresh))
            (h.not_step hev (htruth smHandle))
      | cancel nodeId handle =>
          exact absurd
            (Option.isSome_iff_exists.mp (hfree.cancel ev nodeId handle ⟨0, 0⟩ hreq))
            (h.not_step hev (htruth ⟨0, 0⟩))

/-- So no call is under way. -/
theorem Stuck.no_thread (h : s.Stuck cfg p) (hl : s.Linked) (hfree : Unobstructed cfg s)
    (hfew : s.balancer.dispatches.length < 2 ^ 64) (hev : p s.balancer ev = true)
    (hlook : ev.input = s.look cfg) (hblocked : s.blocked ev.actor = false) :
    ¬∃ b, FatpBalancer.step cfg s.balancer ev = some b := by
  intro hb
  exact h.not_step (e := .thread ev ⟨0, 0⟩) hev ⟨1, fun _ => 0, by rw [hlook]; rfl⟩
    (exists_thread (h.no_request hl hfree hfew hev hlook) hblocked hb)

/-- And the drain thread has nothing in hand. -/
theorem Stuck.no_drain (h : s.Stuck cfg p) (hl : s.Linked) (hfree : Unobstructed cfg s)
    (hfew : s.balancer.dispatches.length < 2 ^ 64) :
    p s.balancer { actor := .drain, input := s.look cfg } = false := by
  by_contra hev
  have hev : p s.balancer { actor := .drain, input := s.look cfg } = true := by simpa using hev
  have hsubmitting : s.balancer.drain.isSubmitting = false := by
    have hreq := h.no_request hl hfree hfew hev rfl
    cases hpc : s.balancer.drain <;> first | rfl | simp [State.request, hpc] at hreq
  refine h.no_thread hl hfree hfew hev rfl ?_ (exists_drainStep cfg (s.look cfg) _ hsubmitting)
  simp only [blocked]
  split
  · next r _ => rw [handedOver_of_final (h.tasks_final hfree) r]; rfl
  · rfl

/-- A `submit` call whose steps count has returned. -/
theorem Stuck.submit_returned (h : s.Stuck cfg p) (hl : s.Linked) (hfree : Unobstructed cfg s)
    (hfew : s.balancer.dispatches.length < 2 ^ 64) {i : CallId} {c : Call}
    (hi : s.balancer.calls[i]? = some c)
    (hev : p s.balancer { actor := .submit i, input := s.look cfg } = true) :
    ∃ result, c.pc = .returned result := by
  by_contra hopen
  have hwork : c.pc.work ≠ 0 := fun hzero => hopen (SubmitPc.returned_of_work hzero)
  have hsubmitting : c.pc.isSubmitting = false := by
    have hreq := h.no_request hl hfree hfew hev rfl
    cases hpc : c.pc <;> first | rfl | simp [State.request, hi, hpc] at hreq
  obtain ⟨b, hb⟩ := exists_submitStep cfg (s.look cfg) s.balancer i hwork hsubmitting
  refine h.no_thread hl hfree hfew hev rfl ?_ ⟨b, ?_⟩
  · -- a registration goes on when the node's `submit` is over, and its task is done
    simp only [blocked, hi, Option.any_some]
    split
    · next r _ => rw [handedOver_of_final (h.tasks_final hfree) r]; rfl
    · rfl
  · simp [FatpBalancer.step, hi, hb]

/-- A `cancel` call whose steps count has returned. -/
theorem Stuck.cancel_returned (h : s.Stuck cfg p) (hl : s.Linked) (hfree : Unobstructed cfg s)
    (hfew : s.balancer.dispatches.length < 2 ^ 64) {k : Nat} {c : CancelCall}
    (hk : s.balancer.cancels[k]? = some c)
    (hev : p s.balancer { actor := .cancel k, input := s.look cfg } = true) :
    ∃ result, c.pc = .returned result := by
  by_contra hopen
  have hwork : c.pc.work ≠ 0 := fun hzero => hopen (CancelPc.returned_of_work hzero)
  have hasking : c.pc.isAsking = false := by
    have hreq := h.no_request hl hfree hfew hev rfl
    cases hpc : c.pc <;> first | rfl | simp [State.request, hk, CancelCall.request, hpc] at hreq
  obtain ⟨r, hr⟩ := exists_cancelStep cfg (s.look cfg) s.balancer hwork hasking
  refine h.no_thread hl hfree hfew hev rfl rfl (Option.isSome_iff_exists.mp ?_)
  simp [FatpBalancer.step, hk, hr]

/-- The aging thread is between two ticks. -/
theorem Stuck.aging_idle (h : s.Stuck cfg p) (hl : s.Linked) (hfree : Unobstructed cfg s)
    (hfew : s.balancer.dispatches.length < 2 ^ 64)
    (hev : s.balancer.aging.isBusy = true →
      p s.balancer { actor := .aging, input := s.look cfg } = true) :
    s.balancer.aging.isBusy = false := by
  by_contra hbusy
  have hbusy : s.balancer.aging.isBusy = true := by simpa using hbusy
  have hev := hev hbusy
  refine h.no_thread hl hfree hfew hev rfl rfl
    (exists_agingStep cfg (s.look cfg) s.balancer hbusy ?_)
  intro c hc
  have hreq := h.no_request hl hfree hfew hev rfl
  cases haging : s.balancer.aging <;> rw [haging] at hc <;> cases hc
  cases hpc : c.pc <;> first | rfl | simp [State.request, haging, CancelCall.request, hpc] at hreq

/-- A callback whose steps count is back. -/
theorem Stuck.callback_back (h : s.Stuck cfg p) (hl : s.Linked) (hfree : Unobstructed cfg s)
    (hfew : s.balancer.dispatches.length < 2 ^ 64) {k : Nat} {d : Dispatch}
    (hk : s.balancer.dispatches[k]? = some d)
    (hev : p s.balancer { actor := .node k, input := s.look cfg } = true) :
    d.side.isCalling = false := by
  by_contra hopen
  cases hside : d.side <;> rw [hside] at hopen <;> try exact hopen rfl
  next f =>
  refine h.no_thread hl hfree hfew hev rfl ?_ (Option.isSome_iff_exists.mp ?_)
  · simp [blocked, hk, hside]
  · simp [FatpBalancer.step, hk, nodeStep, hside]

/-- **Nobody waits for ever.**  If no step that counts is possible, nobody is at work. -/
theorem Stuck.quiescent (h : s.Stuck cfg p) (hl : s.Linked) (hfree : Unobstructed cfg s)
    (hfew : s.balancer.dispatches.length < 2 ^ 64)
    (hp : ∀ a, s.balancer.busy { actor := a, input := s.look cfg } = true →
      p s.balancer { actor := a, input := s.look cfg } = true) : s.Quiescent := by
  refine ⟨?_, ?_, ?_, ?_, ?_, h.tasks_final hfree⟩
  · intro c hc
    obtain ⟨i, hi⟩ := List.getElem?_of_mem hc
    exact h.submit_returned hl hfree hfew hi (hp (.submit i) rfl)
  · intro c hc
    obtain ⟨k, hk⟩ := List.getElem?_of_mem hc
    exact h.cancel_returned hl hfree hfew hk (hp (.cancel k) rfl)
  · by_contra hbusy
    have hbusy : s.balancer.drain.isBusy = true := by simpa using hbusy
    have hev := hp .drain hbusy
    rw [h.no_drain hl hfree hfew] at hev
    cases hev
  · exact h.aging_idle hl hfree hfew (hp .aging)
  · intro d hd
    obtain ⟨k, hk⟩ := List.getElem?_of_mem hd
    exact h.callback_back hl hfree hfew hk (hp (.node k) rfl)

end Stuck

/-- The balancer of a quiescent cluster is idle. -/
theorem Quiescent.idle (h : s.Quiescent) (hl : s.Linked) : Idle s.balancer where
  calls := h.calls
  cancels c hc := by
    have haging := h.aging
    rcases List.mem_append.mp hc with hc | hc
    · cases hpc : s.balancer.aging <;> rw [hpc] at haging hc <;>
        first | (cases hc; done) | cases haging
    · exact h.cancels c hc
  drain := by
    have hdrain := h.drain
    cases hpc : s.balancer.drain <;> rw [hpc] at hdrain <;>
      first | exact .inl rfl | exact .inr rfl | cases hdrain
  dispatches d hd := by
    obtain ⟨k, hk⟩ := List.getElem?_of_mem hd
    obtain ⟨t, x, -, hlink⟩ := hl.taskOf hk
    rcases hlink.side_of_final (h.tasks d.nodeId x (List.mem_of_getElem? hlink.task)) with
      hside | hside | ⟨f, hside⟩
    · exact .inl hside
    · exact .inr hside
    · have hback := h.callbacks d hd
      rw [hside] at hback
      cases hback

end Cluster

section Runs

variable {s : Cluster F} {p : State F → Event → Bool} {work : State F → Nat}

/-! ## Every run comes to rest

Whatever the order of the steps, a state is reached in which nobody is at work. -/

/-- Steps that are paid for come to an end, and that is where the cluster is stuck. -/
theorem Cluster.Paid.inevitably (hp : Cluster.Paid cfg p work) {bound : Nat} {P : Cluster F → Prop}
    (hstuck : ∀ {s : Cluster F}, (cluster cfg mConfig).Reach anyEvent s → s.Room bound →
      s.Stuck cfg p → P s)
    (hs : (cluster cfg mConfig).Reach anyEvent s) (hroom : s.Room bound) :
    (cluster cfg mConfig).Inevitably (fun s e => s.counts p e ∧ s.Truthful cfg e)
      (Cluster.counts p) P s := by
  refine Inevitably.of_measure
    (I := fun s => (cluster cfg mConfig).Reach anyEvent s ∧ s.Room bound)
    (Cluster.effort cfg work) ?_ ?_ ⟨hs, hroom⟩
  · rintro s ⟨hs, hroom⟩ hnot
    by_contra hnone
    refine hnot (hstuck hs hroom fun e hcounts htruth => ?_)
    by_contra hsome
    obtain ⟨s', hs'⟩ := Option.ne_none_iff_exists'.mp hsome
    exact hnone ⟨e, s', ⟨hcounts, htruth⟩, hs'⟩
  · rintro s e s' ⟨hs, hroom⟩ hcounts hstep
    have hl := linked_reach hs
    have hnodes := nodesInv_reach (balancer_reach hs)
    exact ⟨⟨.step e hs trivial hstep, hp.step_room hl hnodes hstep hcounts hroom⟩,
      hp.step_effort hl hnodes hstep hcounts⟩

/-- **Everything in flight comes to an end.**  From every reachable state, in whatever order the
calls, the callbacks and the tasks go on, as long as nothing new is begun, a cluster comes to a state
in which nobody is at work and each accepted job has been finalised once or is held. -/
theorem comes_to_rest (hs : (cluster cfg mConfig).Reach anyEvent s)
    (hroom : s.Room (2 ^ 64)) :
    (cluster cfg mConfig).Inevitably (fun s e => s.counts State.busy e ∧ s.Truthful cfg e)
      (Cluster.counts State.busy)
      (fun s => s.Quiescent ∧ ∀ i, accepted s.balancer i = true →
        finalizedCount s.balancer i = 1 ∨
          finalizedCount s.balancer i = 0 ∧
            ∃ e ∈ s.balancer.m.mHoldingQueue.entries, e.onDone.call = i) s := by
  refine (Cluster.paid_busy cfg).inevitably ?_ hs hroom
  intro s hs hroom hstuck
  have hl := linked_reach hs
  have hb := balancer_reach hs
  have hquiescent := hstuck.quiescent hl (hl.unobstructed (knownInv_reach hb))
    hroom.dispatches fun _ hbusy => hbusy
  exact ⟨hquiescent, fun i hi => (hquiescent.idle hl).finalized_or_held hb hi⟩

/-- Half-way through a run with two jobs on the node, one of them being cancelled. -/
theorem comes_to_rest_cancel : ∃ s : Cluster Rat, (s.nodes 0).tasks.length = 2 ∧
    ¬s.Quiescent ∧
    (cluster oneNode {}).Inevitably (fun s e => s.counts State.busy e ∧ s.Truthful oneNode e)
      (Cluster.counts State.busy)
      (fun s => s.Quiescent ∧ ∀ i, accepted s.balancer i = true →
        finalizedCount s.balancer i = 1 ∨
          finalizedCount s.balancer i = 0 ∧
            ∃ e ∈ s.balancer.m.mHoldingQueue.entries, e.onDone.call = i) s := by
  obtain ⟨s, hs, hp⟩ := exists_reach (cluster oneNode {}) anyEvent (restScript.take 45)
    (fun s => (s.nodes 0).tasks.length == 2 && (s.nodes 0).tasks.any (fun x => !x.pc.isFinal) &&
      decide (s.Room (2 ^ 64))) (by decide +kernel)
  simp only [Bool.and_eq_true, beq_iff_eq, List.any_eq_true, decide_eq_true_eq,
    Bool.not_eq_true'] at hp
  obtain ⟨⟨hlength, x, hx, hopen⟩, hroom⟩ := hp
  refine ⟨s, hlength, ?_, comes_to_rest hs hroom⟩
  intro hquiescent
  rw [hquiescent.tasks 0 x hx] at hopen
  cases hopen

/-! ## No job is left behind

A saturated cluster has a node with a queue, and in a cluster without work there is none. -/

/-- A node with nothing to do is not overloaded, so the drain loop does not find the cluster
saturated. -/
theorem Cluster.not_saturated (hth : 0 < mConfig.overloadThreshold)
    (hs : (cluster cfg mConfig).Reach anyEvent s) (hfit : s.balancer.dispatches.length < 2 ^ 32)
    (htasks : ∀ id, ∀ x ∈ (s.nodes id).tasks, x.pc.isFinal = true) (workerCount : Nat)
    (activeTasks : NodeId → Nat) (priority : Priority) :
    areAllEligibleOverloaded (s.snapshotMetrics cfg workerCount activeTasks) priority = false := by
  rw [← Bool.not_eq_true, areAllEligibleOverloaded_iff]
  rintro ⟨⟨m, hm, haccepts⟩, hall⟩
  have hstate := hall m hm haccepts
  obtain ⟨id, -, rfl⟩ := List.mem_map.mp hm
  have hfew := ((linked_reach hs).length_tasks_le id).trans_lt hfit
  obtain ⟨x, hx, hopen⟩ := NodeTasks.exists_open hth (node_reach hs id) hfew hstate
  rw [Task.not_open_of_final (htasks id x hx)] at hopen
  cases hopen

/-- With the tasks done, the drain loop serves whatever it has in hand. -/
theorem Cluster.serves_of_busy (hth : 0 < mConfig.overloadThreshold)
    (hs : (cluster cfg mConfig).Reach anyEvent s) (hfit : s.balancer.dispatches.length < 2 ^ 32)
    (htasks : ∀ id, ∀ x ∈ (s.nodes id).tasks, x.pc.isFinal = true) {a : Actor}
    (hbusy : s.balancer.busy { actor := a, input := s.look cfg } = true) :
    s.balancer.serves cfg { actor := a, input := s.look cfg } = true := by
  cases a with
  | drain =>
      simp only [State.busy] at hbusy
      simp only [State.serves, drainServes]
      cases hpc : s.balancer.drain <;> rw [hpc] at hbusy <;> first | rfl | (cases hbusy; done) | skip
      next e =>
      have hroom := Cluster.not_saturated hth hs hfit htasks 1 (fun _ => 0) e.job.priority
      simp [Cluster.look, hroom]
  | _ => exact hbusy

theorem Cluster.Stuck.atRest (hth : 0 < mConfig.overloadThreshold)
    (hs : (cluster cfg mConfig).Reach anyEvent s) (hfit : s.balancer.dispatches.length < 2 ^ 32)
    (h : s.Stuck cfg (State.serves cfg)) : s.Quiescent ∧ s.AtRest := by
  have hl := linked_reach hs
  have hfree : Unobstructed cfg s := hl.unobstructed (knownInv_reach (balancer_reach hs))
  have hfew : s.balancer.dispatches.length < 2 ^ 64 := by omega
  have hquiescent := h.quiescent hl hfree hfew fun _ hbusy =>
    Cluster.serves_of_busy hth hs hfit (h.tasks_final hfree) hbusy
  have hidle := hquiescent.idle hl
  have hdrain := h.no_drain hl hfree hfew
  have hqueue : s.balancer.m.mHoldingQueue.entries = [] := by
    simp only [State.serves, drainServes] at hdrain
    rcases hidle.drain with hpc | hpc <;> rw [hpc] at hdrain
    · simpa using hdrain
    · cases hdrain
  refine ⟨hquiescent, hidle.calls, hidle.cancels, hqueue, hidle.drain, hquiescent.tasks, ?_⟩
  intro d hd f hside
  have hback := hquiescent.callbacks d hd
  rw [hside] at hback
  cases hback

/-- **No job is left behind.**  When the number of retries is limited, a cluster that gets no new
calls comes to a state with nothing in flight and nothing held, and there each accepted job has been
finalised once: by its execution, its cancellation, or by being dropped after its last attempt. -/
theorem no_job_is_left (hlimit : 0 < cfg.holdingQueue.maxRetries)
    (hrange : cfg.holdingQueue.maxRetries < 2 ^ 32) (hth : 0 < mConfig.overloadThreshold)
    (hs : (cluster cfg mConfig).Reach anyEvent s) (hroom : s.Room (2 ^ 32)) :
    (cluster cfg mConfig).Inevitably
      (fun s e => s.counts (State.serves cfg) e ∧ s.Truthful cfg e)
      (Cluster.counts (State.serves cfg))
      (fun s => s.AtRest ∧ ∀ i, accepted s.balancer i = true → finalizedCount s.balancer i = 1)
      s := by
  refine (Cluster.paid_serves hlimit hrange).inevitably ?_ hs hroom
  intro s hs hroom hstuck
  have hfit : s.balancer.dispatches.length < 2 ^ 32 := hroom.dispatches
  obtain ⟨hquiescent, hrest⟩ := hstuck.atRest hth hs hfit
  refine ⟨hrest, fun i hi => ?_⟩
  rcases (hquiescent.idle (linked_reach hs)).finalized_or_held (balancer_reach hs) hi with
    hone | ⟨-, e, he, -⟩
  · exact hone
  · rw [hrest.queue] at he
    cases he

/-- One node, and as many retries as the field can hold. -/
def patientNode : BalancerConfig Rat := { oneNode with holdingQueue.maxRetries := 2 ^ 32 - 1 }

/-- While the third job is held, with all of its attempts before it. -/
theorem no_job_is_left_held : ∃ s : Cluster Rat, s.balancer.m.mHoldingQueue.entries.length = 1 ∧
    (s.nodes 0).tasks.length = 2 ∧
    (cluster patientNode {}).Inevitably
      (fun s e => s.counts (State.serves patientNode) e ∧ s.Truthful patientNode e)
      (Cluster.counts (State.serves patientNode))
      (fun s => s.AtRest ∧ ∀ i, accepted s.balancer i = true → finalizedCount s.balancer i = 1)
      s := by
  obtain ⟨s, hs, hp⟩ := exists_reach (cluster patientNode {}) anyEvent (restScript.take 45)
    (fun s => s.balancer.m.mHoldingQueue.entries.length == 1 && (s.nodes 0).tasks.length == 2 &&
      decide (s.Room (2 ^ 32))) (by decide +kernel)
  simp only [Bool.and_eq_true, beq_iff_eq, decide_eq_true_eq] at hp
  obtain ⟨⟨hheld, hlength⟩, hroom⟩ := hp
  exact ⟨s, hheld, hlength,
    no_job_is_left (by decide) (by decide) (by decide) hs hroom⟩

end Runs

end FatpBalancer
