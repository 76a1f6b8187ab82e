/-
# The cluster: one outcome for every job

From the `submit` call to the payload on a worker thread, in any interleaving of everything: a job
that `submit` has accepted runs at most once on all nodes together, a job that was cancelled, dropped
or taken back never runs, and when the cluster has come to rest each accepted job has had exactly one
of these ends and has been finalised once.

The cluster's links carry the node's knowledge over to the balancer's job: a job's dispatch is one
task, whose outcome the node knows.  `AtMostOnce` needs no more than that.  At rest every task is
final, so that each accepted job was executed, cancelled, or never dispatched, and the accounting
says that it has been finalised.
-/
import FatpBalancer.Balancer.Rest
import FatpBalancer.Balancer.Tracking
import FatpBalancer.Sim.ClusterLinks

universe u

namespace FatpBalancer

open Machine

variable {F : Type u} [FloatOps F] {cfg : BalancerConfig F} {mConfig : SimulatedNodeConfig}
  {s : Cluster F}

/-! ## Tasks of a job

A job has one dispatch at most, and that is one task. -/

/-- Task `t` of this node is one of the job of call `i`. -/
structure Cluster.TaskOf (s : Cluster F) (i : CallId) (id : NodeId) (t : Nat) (x : Task) : Prop where
  task : (s.nodes id).tasks[t]? = some x
  dispatch : ∃ d, s.balancer.dispatches[s.dispatchOf id t]? = some d ∧ d.call = i

/-- The dispatch a task belongs to, with its link. -/
theorem Cluster.TaskOf.link {i : CallId} {id : NodeId} {t : Nat} {x : Task}
    (h : s.TaskOf i id t x) (hl : s.Linked) :
    ∃ d, s.balancer.dispatches[s.dispatchOf id t]? = some d ∧ d.call = i ∧ d.nodeId = id ∧
      s.Link (s.dispatchOf id t) d t x := by
  obtain ⟨d, hd, hcall⟩ := h.dispatch
  obtain ⟨d', hd', hnode, hlink⟩ := hl.of_task h.task
  obtain rfl := Option.some.inj (hd.symm.trans hd')
  exact ⟨d, hd, hcall, hnode, hlink⟩

theorem Cluster.Linked.taskOf (hl : s.Linked) {k : Nat} {d : Dispatch}
    (hd : s.balancer.dispatches[k]? = some d) :
    ∃ t x, s.TaskOf d.call d.nodeId t x ∧ s.Link k d t x := by
  obtain ⟨t, x, hlink⟩ := hl.dispatches hd
  refine ⟨t, x, ⟨hlink.task, d, ?_, rfl⟩, hlink⟩
  rw [dispatchOf, hlink.job, Option.getD_some]
  exact hd

/-- No job runs twice, or runs after it has been taken back. -/
structure AtMostOnce (s : Cluster F) : Prop where
  /-- every task is of a job that `submit` has accepted -/
  accepted : ∀ {id t x}, (s.nodes id).tasks[t]? = some x →
    ∃ i, s.TaskOf i id t x ∧ accepted s.balancer i = true
  /-- a job has one task on all nodes together -/
  unique : ∀ {i id id' t t' x x'}, s.TaskOf i id t x → s.TaskOf i id' t' x' → id = id' ∧ t = t'
  once : ∀ {i id t x}, s.TaskOf i id t x → x.payloadRuns ≤ 1 ∧ x.callbacks ≤ x.payloadRuns
  cancelled : ∀ {i id t x}, s.TaskOf i id t x → x.cancels ≠ 0 → x.payloadRuns = 0
  /-- a held job that was dropped or taken back never gets to a node -/
  held : ∀ {i id t x}, s.TaskOf i id t x → i ∉ s.balancer.dropped ∧ i ∉ s.balancer.removed

theorem Cluster.Linked.atMostOnce (hl : s.Linked) (ha : AccountingInv s.balancer) :
    AtMostOnce s where
  accepted {id t x} hx := by
    obtain ⟨d, hd, rfl, hlink⟩ := hl.of_task hx
    exact ⟨d.call, ⟨hx, d, hd, rfl⟩, ha.accepted_of_dispatched hd⟩
  unique {i id id' t t' x x'} h h' := by
    obtain ⟨d, hd, hcall, rfl, hlink⟩ := h.link hl
    obtain ⟨d', hd', hcall', rfl, hlink'⟩ := h'.link hl
    have hk := ha.dispatch_unique hd hd' (hcall.trans hcall'.symm)
    rw [← hk] at hd' hlink'
    obtain rfl := Option.some.inj (hd.symm.trans hd')
    exact ⟨rfl, hl.task_unique hlink hlink'⟩
  once {i id t x} h := ((hl.sound id).tasks x (List.mem_of_getElem? h.task)).outcome.once
  cancelled {i id t x} h hcancels :=
    (((hl.sound id).tasks x (List.mem_of_getElem? h.task)).outcome.cancelled hcancels).2.1
  held {i id t x} h := by
    obtain ⟨d, hd, hcall, -⟩ := h.link hl
    constructor
    · intro hdropped
      exact ha.not_dispatched (.inl hdropped) hd hcall
    · intro hremoved
      exact ha.not_dispatched (.inr hremoved) hd hcall

/-- **No job runs twice, and none that was taken back runs.**  In every reachable state of a cluster
each task on a node is of a job that `submit` has accepted, no job has two tasks on all nodes
together, a payload runs at most once and its callback follows it, a cancelled job never runs, and a
job that was dropped or cancelled while it was held never gets to a node. -/
theorem at_most_once (hs : (cluster cfg mConfig).Reach anyEvent s) : AtMostOnce s :=
  (linked_reach hs).atMostOnce (accountingInv_reach (balancer_reach hs))

/-- While the second job is being cancelled. -/
theorem at_most_once_cancel : ∃ s : Cluster Rat, (s.nodes 0).tasks.length = 2 ∧ AtMostOnce s := by
  obtain ⟨s, hs, hp⟩ := exists_reach (cluster oneNode {}) anyEvent (restScript.take 45)
    (fun s => (s.nodes 0).tasks.length == 2) (by decide +kernel)
  exact ⟨s, by simpa using hp, at_most_once hs⟩

/-! ## At rest

Nobody is at work and nothing is held. -/

/-- What became of an accepted job. -/
inductive JobOutcome
  | executed
  /-- cancelled on its node before it ran -/
  | cancelled
  /-- dropped by the drain loop, or cancelled, while it was held -/
  | takenBack
  deriving DecidableEq

/-- The job of call `i` has had this outcome. -/
def Cluster.HasOutcome (s : Cluster F) (i : CallId) : JobOutcome → Prop
  | .executed => ∃ id t x, s.TaskOf i id t x ∧ x.payloadRuns = 1 ∧ x.callbacks = 1
  | .cancelled => ∃ id t x, s.TaskOf i id t x ∧ x.cancels = 1
  | .takenBack => leftHeld s.balancer i

/-- No call and no task is under way, and nothing is held. -/
structure Cluster.AtRest (s : Cluster F) : Prop where
  calls : ∀ c ∈ s.balancer.calls, ∃ result, c.pc = .returned result
  cancels : ∀ c ∈ s.balancer.allCancels, ∃ result, c.pc = .returned result
  queue : s.balancer.m.mHoldingQueue.entries = []
  drain : s.balancer.drain = .waiting ∨ s.balancer.drain = .looping
  tasks : ∀ id, ∀ x ∈ (s.nodes id).tasks, x.pc.isFinal = true
  callbacks : ∀ d ∈ s.balancer.dispatches, ∀ f, d.side ≠ .calling f

theorem Task.not_open_of_final {x : Task} (h : x.pc.isFinal = true) : x.isOpen = false := by
  rw [Task.isOpen]
  cases hpc : x.pc <;> rw [hpc] at h <;> first | rfl | cases h

/-- A node that is done with a task has let go of its job. -/
theorem Cluster.Link.side_of_final {k : Nat} {d : Dispatch} {t : Nat} {x : Task}
    (h : s.Link k d t x) (hfinal : x.pc.isFinal = true) :
    d.side = .called ∨ d.side = .cancelled ∨ ∃ f, d.side = .calling f := by
  have hshows := h.shows
  cases hside : d.side with
  | called => exact .inl rfl
  | cancelled => exact .inr (.inl rfl)
  | calling f => exact .inr (.inr ⟨f, rfl⟩)
  | live =>
      rw [hside] at hshows
      obtain ⟨hopen, -⟩ := hshows
      rw [Task.not_open_of_final hfinal] at hopen
      cases hopen
  | finished completed succeeded =>
      rw [hside] at hshows
      rw [show x.pc = _ from hshows] at hfinal
      cases hfinal

theorem Cluster.AtRest.rest (h : s.AtRest) (hl : s.Linked) : Rest s.balancer where
  calls := h.calls
  cancels := h.cancels
  queue := h.queue
  drain := h.drain
  dispatches d hd := by
    obtain ⟨k, hk⟩ := List.getElem?_of_mem hd
    obtain ⟨t, x, -, hlink⟩ := hl.taskOf hk
    rcases hlink.side_of_final (h.tasks d.nodeId x (List.mem_of_getElem? hlink.task)) with
      hside | hside | ⟨f, hside⟩
    · exact .inl hside
    · exact .inr hside
    · exact absurd hside (h.callbacks d hd f)

/-- A job that has left its node was executed there or cancelled. -/
theorem Cluster.AtRest.outcome_of_dispatch (h : s.AtRest) (hl : s.Linked) {k : Nat} {d : Dispatch}
    (hd : s.balancer.dispatches[k]? = some d) :
    s.HasOutcome d.call .executed ∨ s.HasOutcome d.call .cancelled := by
  obtain ⟨t, x, htask, hlink⟩ := hl.taskOf hd
  have hsound := (hl.sound d.nodeId).tasks x (List.mem_of_getElem? hlink.task)
  have hshows := hlink.shows
  rcases (h.rest hl).dispatches d (List.mem_of_getElem? hd) with hside | hside
  · rw [hside] at hshows
    rw [Task.Sound, show x.pc = _ from hshows] at hsound
    exact .inl ⟨d.nodeId, t, x, htask, hsound.2.2.1, hsound.2.2.2⟩
  · rw [hside] at hshows
    exact .inr ⟨d.nodeId, t, x, htask, hshows⟩

theorem Cluster.AtRest.exists_outcome (h : s.AtRest) (hl : s.Linked)
    (hsettled : Settled s.balancer) {i : CallId} (hi : FatpBalancer.accepted s.balancer i = true) :
    ∃ o, s.HasOutcome i o := by
  have hended := hsettled.ended i hi
  by_cases hheld : leftHeld s.balancer i
  · exact ⟨.takenBack, hheld⟩
  · rw [leftHeld, not_or] at hheld
    rw [List.count_eq_zero.mpr hheld.1, List.count_eq_zero.mpr hheld.2] at hended
    have hpos : 0 < leftNodes s.balancer.dispatches i := by omega
    obtain ⟨d, hd, hown⟩ := Table.exists_of_total_pos hpos
    obtain ⟨k, hk⟩ := List.getElem?_of_mem hd
    have hcall : d.call = i := by
      have hleft := owns_pos hown
      rw [Dispatch.left] at hleft
      split at hleft
      · cases hleft
      · cases hleft
      · exact Option.some.inj hleft
    rcases hcall ▸ h.outcome_of_dispatch hl hk with hexecuted | hcancelled
    · exact ⟨.executed, hexecuted⟩
    · exact ⟨.cancelled, hcancelled⟩

/-- The outcomes exclude each other, at rest or not. -/
theorem AtMostOnce.outcome_unique (h : AtMostOnce s) {i : CallId} {o o' : JobOutcome}
    (ho : s.HasOutcome i o) (ho' : s.HasOutcome i o') : o = o' := by
  have hmixed : ∀ {i}, s.HasOutcome i .executed → ¬s.HasOutcome i .cancelled := by
    rintro i ⟨id, t, x, hx, hruns, -⟩ ⟨id', t', x', hx', hcancels⟩
    obtain ⟨rfl, rfl⟩ := h.unique hx hx'
    obtain rfl := Option.some.inj (hx.task.symm.trans hx'.task)
    have hzero := h.cancelled hx (by omega)
    omega
  have hheld : ∀ {i id t x}, s.TaskOf i id t x → ¬s.HasOutcome i .takenBack := by
    intro i id t x hx hback
    obtain ⟨hdropped, hremoved⟩ := h.held hx
    rcases hback with hback | hback
    · exact hdropped hback
    · exact hremoved hback
  cases o <;> cases o'
  case executed.executed | cancelled.cancelled | takenBack.takenBack => rfl
  case executed.cancelled => exact absurd ho' (hmixed ho)
  case cancelled.executed => exact absurd ho (hmixed ho')
  case executed.takenBack | cancelled.takenBack =>
      obtain ⟨id, t, x, hx, -⟩ := ho
      exact absurd ho' (hheld hx)
  case takenBack.executed | takenBack.cancelled =>
      obtain ⟨id, t, x, hx, -⟩ := ho'
      exact absurd ho (hheld hx)

/-- **Exactly one outcome.**  When a cluster has come to rest, each job that `submit` has accepted
was executed once, or cancelled on its node before it ran, or taken back while it was held, and only
one of these; it has been finalised once, nothing is in flight any more, and the totals are the
numbers of the accepted jobs and of the reported successes. -/
theorem one_outcome_at_rest (hs : (cluster cfg mConfig).Reach anyEvent s) (h : s.AtRest) :
    (∀ i, FatpBalancer.accepted s.balancer i = true → ∃! o, s.HasOutcome i o) ∧
      Settled s.balancer := by
  have hl := linked_reach hs
  have hb := balancer_reach hs
  have hsettled := (h.rest hl).settled hb
  refine ⟨?_, hsettled⟩
  intro i hi
  obtain ⟨o, ho⟩ := h.exists_outcome hl hsettled hi
  refine ⟨o, ho, ?_⟩
  intro o' ho'
  exact (hl.atMostOnce (accountingInv_reach hb)).outcome_unique ho' ho

/-! ## A run to rest

Three jobs with three different ends. -/

def NodeSide.isCalling : NodeSide → Bool
  | .calling _ => true
  | _ => false

/-- `AtRest`, for the nodes that have had a job. -/
def Cluster.resting (s : Cluster F) : Bool :=
  s.balancer.calls.all (fun c => c.pc.isReturned) &&
    s.balancer.allCancels.all (fun c => c.pc.isReturned) &&
    s.balancer.m.mHoldingQueue.entries.isEmpty && s.balancer.drain.isIdle &&
    s.balancer.dispatches.all fun d =>
      (s.nodes d.nodeId).tasks.all (fun x => x.pc.isFinal) && !d.side.isCalling

theorem Cluster.Linked.atRest (hl : s.Linked) (h : s.resting = true) : s.AtRest := by
  simp only [Cluster.resting, Bool.and_eq_true, List.all_eq_true, List.isEmpty_iff,
    Bool.not_eq_true'] at h
  obtain ⟨⟨⟨⟨hcalls, hcancels⟩, hqueue⟩, hdrain⟩, hdispatches⟩ := h
  refine ⟨?_, ?_, hqueue, ?_, ?_, ?_⟩
  · intro c hc
    exact SubmitPc.returned_of_isReturned (hcalls c hc)
  · intro c hc
    exact CancelPc.returned_of_isReturned (hcancels c hc)
  · cases hpc : s.balancer.drain <;> rw [hpc] at hdrain <;>
      first | exact .inl rfl | exact .inr rfl | cases hdrain
  · -- a node without a dispatch has no tasks
    intro id x hx
    obtain ⟨t, ht⟩ := List.getElem?_of_mem hx
    obtain ⟨d, hd, rfl, -⟩ := hl.of_task ht
    exact (hdispatches d (List.mem_of_getElem? hd)).1 x hx
  · intro d hd f hside
    have hnot := (hdispatches d hd).2
    rw [hside] at hnot
    cases hnot

theorem one_outcome_at_rest_three : ∃ s : Cluster Rat, (cluster oneNode {}).Reach anyEvent s ∧
    s.balancer.calls.map (fun c => c.pc.accepted) = [true, true, true] ∧
    (s.nodes 0).tasks.map (fun x => (x.cancels, x.payloadRuns, x.callbacks)) =
      [(0, 1, 1), (1, 0, 0)] ∧
    s.balancer.removed = [2] ∧
    (∀ i, FatpBalancer.accepted s.balancer i = true → ∃! o, s.HasOutcome i o) ∧
      Settled s.balancer := by
  obtain ⟨s, hs, hp⟩ := exists_reach (cluster oneNode {}) anyEvent restScript
    (fun s => s.balancer.calls.map (fun c => c.pc.accepted) == [true, true, true] &&
      (s.nodes 0).tasks.map (fun x => (x.cancels, x.payloadRuns, x.callbacks)) ==
        [(0, 1, 1), (1, 0, 0)] &&
      s.balancer.removed == [2] && s.resting) (by decide +kernel)
  simp only [Bool.and_eq_true, beq_iff_eq] at hp
  obtain ⟨⟨⟨haccepted, htasks⟩, hremoved⟩, hresting⟩ := hp
  obtain ⟨houtcomes, hsettled⟩ := one_outcome_at_rest hs ((linked_reach hs).atRest hresting)
  exact ⟨s, hs, haccepted, htasks, hremoved, houtcomes, hsettled⟩

end FatpBalancer
