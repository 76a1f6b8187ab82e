/-
# The cluster: the two sides of the books

Every node counts the jobs it has completed and the ones that failed, and stamps its identity on each
job it takes.  The balancer counts the successes it has finalised and teaches its cost model with the
jobs the nodes hand back.  The two sides agree: no success is counted twice or by the wrong node, and
none is missing when the cluster has come to rest.

* `Stamped` is an invariant of the nodes alone: the job a task works on carries the identity of its
  node from the moment the node accepts it.
* `Books` compares, node by node, the counters of the node with the reports in the balancer's
  dispatches.  Each report is entered by the node step that also moves the counter, so a step of any
  other thread leaves both sides alone.
* The totals follow by summing over the nodes and using the balancer's own ledger of successes that
  are reported and not counted yet.
-/
import FatpBalancer.Sim.EndToEnd
import FatpBalancer.Sim.NodeMetrics
import Mathlib.Data.List.Dedup

universe u

namespace FatpBalancer

open Machine

variable {F : Type u} [FloatOps F] {cfg : BalancerConfig F} {mConfig : SimulatedNodeConfig}

/-! ## The jobs on a node

`submit` of the node writes `executedBy` into its copy of the job, and the task hands this copy to
the callback. -/

/-- The job a task goes on with is the one it has captured, at another priority perhaps. -/
theorem SimulatedNode.beginJob_job {n : SimulatedNode} {job job' : Job} {smHandle : SlotMapHandle}
    (h : (n.beginJob job smHandle).1 = some job') : ∃ priority, job' = { job with priority } := by
  rw [beginJob] at h
  dsimp only at h
  split at h
  · cases h
  · split at h
    · exact ⟨job.priority, (Option.some.inj h).symm⟩
    · next ov _ => exact ⟨ov, (Option.some.inj h).symm⟩

/-- The job a task has been handed or goes on with. -/
def TaskPc.job? : TaskPc → Option Job
  | .running job | .ran job _ _ | .completed job _ => some job
  | _ => none

namespace NodeTasks

variable {s s' : NodeTasks}

/-- Every job on the node carries the node's identity. -/
structure Stamped (id : NodeId) (s : NodeTasks) : Prop where
  mId : s.node.mId = id
  captured : ∀ x ∈ s.tasks, x.job.executedBy = id
  current : ∀ x ∈ s.tasks, ∀ job ∈ x.pc.job?, job.executedBy = id

/-- A task that keeps its job keeps the stamp. -/
theorem Stamped.set {id : NodeId} (h : s.Stamped id) {k : Nat} {x' : Task} {node : SimulatedNode}
    (hmId : node.mId = id) (hcaptured : x'.job.executedBy = id)
    (hcurrent : ∀ job ∈ x'.pc.job?, job.executedBy = id) :
    Stamped id { node, tasks := s.tasks.set k x' } where
  mId := hmId
  captured x hx := by
    obtain hx | rfl := List.mem_or_eq_of_mem_set hx
    · exact h.captured x hx
    · exact hcaptured
  current x hx := by
    obtain hx | rfl := List.mem_or_eq_of_mem_set hx
    · exact h.current x hx
    · exact hcurrent

/-- A step of a task hands its job on or lets go of it. -/
theorem Stamped.move {id : NodeId} (h : s.Stamped id) {k : Nat} {x : Task}
    (hk : s.tasks[k]? = some x) (hm : s.TaskMove k x s') : s'.Stamped id := by
  have hx := List.mem_of_getElem? hk
  have hcaptured := h.captured x hx
  have hcurrent := h.current x hx
  cases hm with
  | submitPriority hpc => exact h.set h.mId hcaptured fun job hjob => by cases hjob
  | beginJob hpc =>
      refine h.set ((s.node.keeps_beginJob x.job x.smHandle).mId.trans h.mId) hcaptured ?_
      intro job hjob
      cases hbegun : (s.node.beginJob x.job x.smHandle).1 with
      | none =>
          rw [hbegun] at hjob
          cases hjob
      | some job' =>
          rw [hbegun] at hjob
          obtain rfl := Option.some.inj hjob
          obtain ⟨priority, rfl⟩ := SimulatedNode.beginJob_job hbegun
          exact hcaptured
  | payload job succeeded elapsedUs hpc =>
      refine h.set h.mId hcaptured ?_
      intro job' hjob'
      obtain rfl := Option.some.inj hjob'
      exact hcurrent job (by rw [hpc]; rfl)
  | completeJob job succeeded elapsedUs hpc =>
      refine h.set ?_ hcaptured ?_
      · exact (s.node.completeJob_books job x.smHandle succeeded elapsedUs).1.trans h.mId
      · intro job' hjob'
        obtain rfl := Option.some.inj hjob'
        exact hcurrent job (by rw [hpc]; rfl)
  | onDone job succeeded hpc => exact h.set h.mId hcaptured fun job hjob => by cases hjob

/-- Acceptance stamps the job, and no other step of the node changes it. -/
theorem Stamped.next {id : NodeId} (h : s.Stamped id) {e : NodeEvent}
    (hstep : s.step e = some s') : s'.Stamped id := by
  cases e with
  | submit job smHandle =>
      rw [NodeTasks.step] at hstep
      split at hstep
      · cases hstep
      · split at hstep
        · exact Option.some.inj hstep ▸ h
        · next node hnode =>
            obtain rfl := Option.some.inj hstep
            refine ⟨(SimulatedNode.keeps_submit hnode).mId.trans h.mId, ?_, ?_⟩
            · intro x hx
              rcases List.mem_append.mp hx with hold | hnew
              · exact h.captured x hold
              · rw [List.mem_singleton.mp hnew]
                exact h.mId
            · intro x hx
              rcases List.mem_append.mp hx with hold | hnew
              · exact h.current x hold
              · rw [List.mem_singleton.mp hnew]
                intro job' hjob'
                cases hjob'
  | cancel handle =>
      simp only [NodeTasks.step] at hstep
      have hmId := (s.node.keeps_cancel handle).mId.trans h.mId
      split at hstep
      · exact Option.some.inj hstep ▸ ⟨hmId, h.captured, h.current⟩
      · obtain rfl := Option.some.inj hstep
        refine ⟨hmId, ?_, ?_⟩
        · intro x hx
          obtain ⟨y, hy, rfl⟩ := List.mem_map.mp hx
          split <;> exact h.captured y hy
        · intro x hx
          obtain ⟨y, hy, rfl⟩ := List.mem_map.mp hx
          split <;> exact h.current y hy
  | reprioritise handle newPriority =>
      obtain rfl := Option.some.inj hstep
      exact ⟨(s.node.keeps_reprioritise handle newPriority).mId.trans h.mId, h.captured, h.current⟩
  | injectFault fault config =>
      obtain rfl := Option.some.inj hstep
      exact ⟨(s.node.keeps_injectFault fault config).mId.trans h.mId, h.captured, h.current⟩
  | task k a =>
      obtain ⟨x, hk, hstep⟩ := Option.bind_eq_some_iff.mp hstep
      exact h.move hk (stepTask_move hstep)

/-- In every reachable state of the node. -/
theorem stamped_reach {id : NodeId} {ok : NodeTasks → NodeEvent → Prop}
    (hs : (simulatedNode id mConfig).Reach ok s) : s.Stamped id := by
  refine hs.invariant (I := Stamped id) ⟨rfl, ?_, ?_⟩ fun _ _ h _ hstep => h.next hstep
  · intro x hx
    cases hx
  · intro x hx
    cases hx

end NodeTasks

/-! ## The reports the balancer has heard

The reports are kept in the dispatches, which are never removed, so their number by node and result
is a running total to compare the node's counters with. -/

/-- Where a dispatch is from, and what its node has reported. -/
def Dispatch.tally (d : Dispatch) : NodeId × Option (Job × Bool) := (d.nodeId, d.report)

/-- No report is new. -/
def SameTallies (s s' : State F) : Prop :=
  s'.dispatches.map Dispatch.tally = s.dispatches.map Dispatch.tally

/-- The history flags say nothing about reports. -/
theorem tallies_of_core {l l' : List Dispatch} (h : l'.map Dispatch.core = l.map Dispatch.core) :
    l'.map Dispatch.tally = l.map Dispatch.tally := by
  have htally : ∀ l : List Dispatch,
      l.map Dispatch.tally = (l.map Dispatch.core).map Dispatch.tally := by
    intro l
    rw [List.map_map]
    rfl
  rw [htally l', h, ← htally l]

/-- A report comes with the step that finishes the job. -/
theorem DispatchMove.report {k : Nat} {d d' : Dispatch} (h : DispatchMove k d d') :
    d'.report = d.report ∨ d.side = .live ∧ ∃ completed succeeded,
      d'.side = .finished completed succeeded := by
  cases h with
  | flags d' hcore => exact .inl (Dispatch.sameCore hcore).report
  | finish completed succeeded hside => exact .inr ⟨hside, completed, succeeded, rfl⟩
  | finalize f f' d₁ hside hcore => exact .inl (Dispatch.sameCore hcore).report
  | _ => exact .inl rfl

/-- A step that leaves the sides of the dispatches alone brings no report. -/
theorem Move.tallies_of_sides {s s' : State F} {ev : Event} (h : Move cfg ev s s')
    (hsides : SameSides s s') : SameTallies s s' := by
  apply List.ext_getElem?
  intro k
  have hk := congrArg (·[k]?) hsides
  simp only [List.getElem?_map] at hk ⊢
  cases hd : s.dispatches[k]? with
  | none =>
      rw [hd, Option.map_none, Option.map_eq_none_iff] at hk
      rw [hk]
  | some d =>
      obtain ⟨d', hd', hmove⟩ := h.dispatch_next hd
      rw [hd, hd', Option.map_some, Option.map_some, Option.some.injEq] at hk
      have hreport : d'.report = d.report := by
        rcases hmove.report with hsame | ⟨hlive, completed, succeeded, hfinished⟩
        · exact hsame
        · rw [hlive, hfinished] at hk
          cases hk
      rw [hd', Option.map_some, Option.map_some, Dispatch.tally, hmove.same.2.2.2, hreport]
      rfl

/-- A thread that is not a node hears no report. -/
theorem Cluster.thread_tallies {s : Cluster F} {ev : Event} {b : State F}
    (hreq : s.balancer.request ev.actor = none) (hblocked : s.blocked ev.actor = false)
    (hb : FatpBalancer.step cfg s.balancer ev = some b) : SameTallies s.balancer b := by
  have hm := FatpBalancer.step_move hb
  rcases hm.sides_cases with hsides | ⟨request, hsome⟩ | ⟨k, d, hactor, hd, hnode⟩
  · exact hm.tallies_of_sides hsides
  · rw [hreq] at hsome
    cases hsome
  · rw [hactor, Cluster.blocked, hd] at hblocked
    cases hnode with
    | finish hside | early completed succeeded hside | enter completed succeeded hside =>
        simp [hside] at hblocked
    | @finalize f t f' hside hf =>
        obtain ⟨d₁, hd₁, hcore⟩ := getElem?_core hf.dispatches_core hd
        have htally := tallies_of_core hf.dispatches_core
        rw [SameTallies, ← htally]
        simp only [modifyDispatch, Table.modify_eq_set hd₁, List.map_set]
        apply Table.set_same
        rw [List.getElem?_map, hd₁]
        rfl

namespace Cluster

variable {s s' : Cluster F}

/-- The jobs that this node has reported with this result. -/
def reportedOn (dispatches : List Dispatch) (id : NodeId) (succeeded : Bool) : Nat :=
  dispatches.countP fun d => d.nodeId == id && d.report.any fun report => report.2 == succeeded

/-- The balancer has heard of each job that a node has counted, from that node. -/
structure Books (s : Cluster F) : Prop where
  completed : ∀ id, (s.nodes id).node.mCompletedJobs = reportedOn s.balancer.dispatches id true
  failed : ∀ id, (s.nodes id).node.mFailedJobs = reportedOn s.balancer.dispatches id false
  stamped : ∀ d ∈ s.balancer.dispatches, ∀ job succeeded, d.report = some (job, succeeded) →
    job.executedBy = d.nodeId

/-- Equal tallies have equal totals. -/
theorem reportedOn_tallies {l l' : List Dispatch}
    (h : l'.map Dispatch.tally = l.map Dispatch.tally) (id : NodeId) (succeeded : Bool) :
    reportedOn l' id succeeded = reportedOn l id succeeded := by
  have hcount : ∀ l : List Dispatch, reportedOn l id succeeded =
      (l.map Dispatch.tally).countP fun t =>
        t.1 == id && t.2.any fun report => report.2 == succeeded := by
    intro l
    rw [List.countP_map]
    rfl
  rw [hcount l', h, ← hcount l]

/-- Neither side writes anything. -/
theorem Books.quiet (h : s.Books)
    (htallies : s'.balancer.dispatches.map Dispatch.tally =
      s.balancer.dispatches.map Dispatch.tally)
    (hnodes : ∀ id, (s.nodes id).node.Keeps (s'.nodes id).node) : s'.Books where
  completed id := by rw [(hnodes id).completed, h.completed, reportedOn_tallies htallies]
  failed id := by rw [(hnodes id).failed, h.failed, reportedOn_tallies htallies]
  stamped d hd job succeeded hreport := by
    have hmem : d.tally ∈ s.balancer.dispatches.map Dispatch.tally :=
      htallies ▸ List.mem_map_of_mem hd
    obtain ⟨d₀, hd₀, htally⟩ := List.mem_map.mp hmem
    obtain ⟨hnode, hreport₀⟩ := Prod.mk.inj htally
    rw [← hnode]
    exact h.stamped d₀ hd₀ job succeeded (hreport₀.trans hreport)

/-- A field that one node's step keeps is kept for all nodes. -/
theorem keeps_update {id₀ : NodeId} {n : NodeTasks} (hn : (s.nodes id₀).node.Keeps n.node)
    (id : NodeId) : (s.nodes id).node.Keeps (Function.update s.nodes id₀ n id).node := by
  obtain rfl | hne := eq_or_ne id id₀
  · rw [Function.update_self]
    exact hn
  · rw [Function.update_of_ne hne]
    exact .refl _

/-- A completed job is entered on both sides. -/
theorem Books.complete (h : s.Books) {id : NodeId} {k : Nat} {d : Dispatch} {job : Job}
    {succeeded : Bool} {n : NodeTasks} (hd : s.balancer.dispatches[k]? = some d)
    (hnode : d.nodeId = id) (hnone : d.report = none) (hstamp : job.executedBy = id)
    (hdispatches : s'.balancer.dispatches = s.balancer.dispatches.set k
      { d with side := .finished job succeeded, report := some (job, succeeded) })
    (hnodes : s'.nodes = Function.update s.nodes id n)
    (hcompleted : n.node.mCompletedJobs = (s.nodes id).node.mCompletedJobs + succeeded.toNat)
    (hfailed : n.node.mFailedJobs = (s.nodes id).node.mFailedJobs + (!succeeded).toNat) :
    s'.Books := by
  subst hnode
  have hentry : ∀ id' result, reportedOn s'.balancer.dispatches id' result =
      reportedOn s.balancer.dispatches id' result +
        (d.nodeId == id' && succeeded == result).toNat := by
    intro id' result
    have hcount := Table.countP_set (p := fun d : Dispatch => d.nodeId == id' &&
      d.report.any fun report => report.2 == result) hd
      { d with side := .finished job succeeded, report := some (job, succeeded) }
    rw [hnone] at hcount
    rw [hdispatches, reportedOn, reportedOn]
    simpa using hcount
  refine ⟨?_, ?_, ?_⟩
  · intro id'
    rw [hentry, hnodes]
    obtain rfl | hne := eq_or_ne id' d.nodeId
    · rw [Function.update_self, hcompleted, h.completed]
      cases succeeded <;> simp
    · rw [Function.update_of_ne hne, h.completed]
      simp [hne.symm]
  · intro id'
    rw [hentry, hnodes]
    obtain rfl | hne := eq_or_ne id' d.nodeId
    · rw [Function.update_self, hfailed, h.failed]
      cases succeeded <;> simp
    · rw [Function.update_of_ne hne, h.failed]
      simp [hne.symm]
  · intro d' hd' job' result hreport
    rw [hdispatches] at hd'
    obtain hold | rfl := List.mem_or_eq_of_mem_set hd'
    · exact h.stamped d' hold job' result hreport
    · obtain ⟨rfl, -⟩ := Prod.mk.inj (Option.some.inj hreport)
      exact hstamp

/-- The step in which a node completes a job moves both sides; no other step moves either. -/
theorem Books.next (h : s.Books) (hl : s.Linked) (hknown : KnownInv s.balancer)
    (hstamped : ∀ id, (s.nodes id).Stamped id)
    (hreported : ∀ {k : Nat} {d : Dispatch}, s.balancer.dispatches[k]? = some d → d.Reported)
    (hm : ClusterMove cfg s s') : s'.Books := by
  cases hm with
  | thread ev b hreq hblocked hb =>
      exact h.quiet (thread_tallies hreq hblocked hb) fun _ => .refl _
  | refused ev b nodeId job hreq hin hb =>
      obtain ⟨b', hb', hsame⟩ := step_refused cfg ev hreq hin
      obtain rfl := Option.some.inj (hb.symm.trans hb')
      exact h.quiet (congrArg _ hsame) fun _ => .refl _
  | accepted ev b nodeId job smHandle n hreq hfresh hn htasks hin hb =>
      obtain ⟨b', call, hb', hdispatches⟩ := step_accepted cfg ev hreq hin
        (hl.free_of_fresh hfresh)
      obtain rfl := Option.some.inj (hb.symm.trans hb')
      have hkeeps := keeps_update (NodeTasks.step_keeps hn fun k => by rintro ⟨⟩)
      have hcount : ∀ id succeeded, reportedOn b.dispatches id succeeded =
          reportedOn s.balancer.dispatches id succeeded := by
        intro id succeeded
        rw [hdispatches, reportedOn, reportedOn, List.countP_append]
        simp
      refine ⟨?_, ?_, ?_⟩
      · intro id
        exact (hkeeps id).completed.trans ((h.completed id).trans (hcount id true).symm)
      · intro id
        exact (hkeeps id).failed.trans ((h.failed id).trans (hcount id false).symm)
      · intro d hd job succeeded hreport
        change d ∈ b.dispatches at hd
        rw [hdispatches] at hd
        rcases List.mem_append.mp hd with hold | hnew
        · exact h.stamped d hold job succeeded hreport
        · rw [List.mem_singleton.mp hnew] at hreport
          cases hreport
  | uncancelled ev b nodeId handle error hreq hnode hin hb =>
      obtain ⟨c, info, hinfo, rfl, rfl, hc, -⟩ := exists_step_cancel cfg ev hreq
      obtain ⟨b', hb', hsame⟩ := step_uncancelled cfg ev hreq hin
        fun herror => hl.notFound_free (hknown.asked c hc info hinfo) (herror ▸ hnode)
      obtain rfl := Option.some.inj (hb.symm.trans hb')
      exact h.quiet (congrArg _ hsame) fun _ => .refl _
  | cancelled ev b nodeId handle n hreq hnode hn hin hb =>
      obtain ⟨c, info, hinfo, rfl, rfl, hc, -⟩ := exists_step_cancel cfg ev hreq
      obtain ⟨k, d, x, hd, hdnode, hdhandle, -, hk, hlive, -⟩ :=
        hl.hit_live (hknown.asked c hc info hinfo) hnode
      rw [hk] at hin
      obtain ⟨b', hb', hdispatches⟩ := step_cancelled cfg ev hreq hin hd hdnode hdhandle hlive
      obtain rfl := Option.some.inj (hb.symm.trans hb')
      refine h.quiet ?_ (keeps_update (NodeTasks.step_keeps hn fun k => by rintro ⟨⟩))
      -- a cancelled dispatch keeps what it has heard
      show b.dispatches.map Dispatch.tally = _
      rw [hdispatches, List.map_set]
      apply Table.set_same
      rw [List.getElem?_map, hd]
      rfl
  | task nodeId t a n hn hreport =>
      refine h.quiet rfl (keeps_update (NodeTasks.step_keeps hn ?_))
      -- the completion of a job is reported
      rintro k heq
      obtain ⟨rfl, rfl⟩ := NodeEvent.task.inj heq
      obtain ⟨x, hx, hn⟩ := Option.bind_eq_some_iff.mp hn
      rw [report, hx, Option.bind_some] at hreport
      cases hpc : x.pc <;> rw [hpc] at hn hreport <;> first | (cases hn; done) | cases hreport
  | reported ev b nodeId t a n hn hreport hb =>
      obtain ⟨x, x', hx, htasks, hr⟩ := hl.taskReport hn
      rw [hreport] at hr
      cases hr with
      | completed job succeeded elapsedUs hpc =>
          obtain ⟨d, hd, hdnode, hlive⟩ := hl.live_of_ran hx hpc
          simp only [FatpBalancer.step, hd, Option.bind_some, nodeStep, hlive,
            Option.some.injEq] at hb
          have hnode : n.node = (s.nodes nodeId).node.completeJob job x.smHandle succeeded elapsedUs := by
            obtain ⟨y, hy, hn⟩ := Option.bind_eq_some_iff.mp hn
            obtain rfl := Option.some.inj (hx.symm.trans hy)
            cases a <;> rw [hpc] at hn <;> cases hn
            rfl
          obtain ⟨-, hcompleted, hfailed, -⟩ := SimulatedNode.completeJob_books
            (s.nodes nodeId).node job x.smHandle succeeded elapsedUs
          have hstamp : job.executedBy = nodeId :=
            (hstamped nodeId).current x (List.mem_of_getElem? hx) job (by rw [hpc]; rfl)
          refine h.complete hd hdnode ((hreported hd).live hlive) hstamp ?_ rfl (hnode ▸ hcompleted)
            (hnode ▸ hfailed)
          rw [← hb]
      | called job succeeded hpc =>
          obtain ⟨d, hd, -, hfinished⟩ := hl.finished_of_completed hx hpc
          simp only [FatpBalancer.step, hd, Option.bind_some, nodeStep, hfinished,
            Option.some.injEq] at hb
          refine h.quiet ?_ (keeps_update (NodeTasks.step_keeps hn ?_))
          · show b.dispatches.map Dispatch.tally = _
            rw [← hb, List.map_set]
            apply Table.set_same
            rw [List.getElem?_map, hd]
            split <;> rfl
          · rintro k heq
            obtain ⟨rfl, rfl⟩ := NodeEvent.task.inj heq
            obtain ⟨y, hy, hn⟩ := Option.bind_eq_some_iff.mp hn
            obtain rfl := Option.some.inj (hx.symm.trans hy)
            rw [hpc] at hn
            cases hn
  | node nodeId e n he hn htasks =>
      refine h.quiet rfl (keeps_update (NodeTasks.step_keeps hn ?_))
      rintro k rfl
      rcases he with ⟨handle, newPriority, he⟩ | ⟨fault, config, he⟩ <;> cases he

end Cluster

section Runs

variable {s : Cluster F}

/-- In every reachable state of the cluster. -/
theorem books_reach {ok : Cluster F → ClusterEvent → Prop} (hs : (cluster cfg mConfig).Reach ok s) :
    s.Books := by
  refine hs.invariant (I := Cluster.Books) ⟨?_, ?_, ?_⟩ ?_
  · intro id
    rfl
  · intro id
    rfl
  · intro d hd
    cases hd
  · intro s s' e hr h _ hstep
    exact h.next (linked_reach hr) (knownInv_reach (balancer_reach hr))
      (fun id => NodeTasks.stamped_reach (node_reach hr id)) (dispatch_reported (balancer_reach hr))
      (Cluster.step_move hstep)

/-- What the balancer has yet to count of the successes it has heard of. -/
def uncounted (s : State F) : Nat :=
  duesOn s.dispatches + callsDue s.calls + cancelsDue s.allCancels + s.drain.due

/-- The completed jobs of all nodes of the balancer. -/
def Cluster.completedJobs (s : Cluster F) (nodes : List NodeId) : Nat :=
  Table.total (fun id => (s.nodes id).node.mCompletedJobs) nodes.dedup

/-- Summed over the nodes, the completed jobs are the reported successes. -/
theorem Cluster.Books.successes (h : s.Books) (hnodes : NodesInv cfg s.balancer) :
    s.completedJobs cfg.nodes = successesOn s.balancer.dispatches := by
  have hmem : ∀ d ∈ s.balancer.dispatches, d.nodeId ∈ cfg.nodes.dedup := by
    intro d hd
    obtain ⟨k, hk⟩ := List.getElem?_of_mem hd
    exact List.mem_dedup.mpr (List.mem_of_find?_eq_some (hnodes.dispatches hk))
  have hsum := Table.total_countP_keys Dispatch.nodeId
    (fun d => d.report.any fun report => report.2 == true) s.balancer.dispatches
    (List.nodup_dedup cfg.nodes) hmem
  rw [Cluster.completedJobs, successesOn]
  simp only [h.completed, Cluster.reportedOn]
  rw [hsum, ← Table.total_toNat]
  simp only [beq_true]
  rfl

/-- **The totals agree.**  The jobs that the nodes of a cluster have completed are the ones that the
balancer has counted and those it is about to count; at rest its total is the sum of theirs. -/
theorem completed_totals_agree (hs : (cluster cfg mConfig).Reach anyEvent s) :
    s.completedJobs cfg.nodes = s.balancer.m.mTotalCompleted + uncounted s.balancer ∧
      (s.AtRest → s.balancer.m.mTotalCompleted = s.completedJobs cfg.nodes) := by
  have hb := balancer_reach hs
  have hnodes : NodesInv cfg s.balancer := nodesInv_reach hb
  have hsum := (books_reach hs).successes hnodes
  have hledger := successes_reach hb
  constructor
  · rw [hsum, hledger, ledger, uncounted]
    omega
  · intro h
    rw [hsum]
    exact ((h.rest (linked_reach hs)).settled hb).totalCompleted

theorem completed_totals_agree_one : ∃ s : Cluster Rat, s.balancer.m.mTotalCompleted = 1 ∧
    s.completedJobs [0] = 1 + uncounted s.balancer ∧
    s.balancer.m.mTotalCompleted = s.completedJobs [0] := by
  obtain ⟨s, hs, hp⟩ := exists_reach (cluster oneNode {}) anyEvent restScript
    (fun s => s.balancer.m.mTotalCompleted == 1 && s.resting) (by decide +kernel)
  simp only [Bool.and_eq_true, beq_iff_eq] at hp
  obtain ⟨hagree, hrest⟩ := completed_totals_agree hs
  rw [hp.1] at hagree
  exact ⟨s, hp.1, hagree, hrest ((linked_reach hs).atRest hp.2)⟩

/-- **The cost model learns from the node that ran the job.**  Every job value that the model has
been updated with is of a dispatch whose task has run its payload once, on the node whose identity
the job value carries. -/
theorem learns_from_executor (hs : (cluster cfg mConfig).Reach anyEvent s) :
    ∀ u ∈ s.balancer.updates, ∃ i id t x, s.TaskOf i id t x ∧ x.payloadRuns = 1 ∧ x.cancels = 0 ∧
      u.1 = some (s.dispatchOf id t) ∧ u.2.executedBy = id := by
  intro u hu
  have hb := balancer_reach hs
  have hl := linked_reach hs
  obtain ⟨k, d, completed, hfrom⟩ := (learningInv_reach hb).updates u hu
  obtain ⟨t, x, htask, hlink⟩ := hl.taskOf hfrom.dispatch
  have hsound := (hl.sound d.nodeId).tasks x (List.mem_of_getElem? hlink.task)
  have hshows := hlink.shows
  have hreported := dispatch_reported hb hfrom.dispatch
  have hcalled : x.pc = .called := by
    have hleft := hfrom.left
    rw [Dispatch.left] at hleft
    cases hside : d.side with
    | live | finished completed succeeded =>
        rw [hside] at hleft
        cases hleft
    | calling f | called =>
        rw [hside] at hshows
        exact hshows
    | cancelled =>
        -- a cancelled job has reported nothing
        have hnone := hreported.cancelled hside
        rw [hfrom.report] at hnone
        cases hnone
  rw [Task.Sound, hcalled] at hsound
  refine ⟨d.call, d.nodeId, t, x, htask, hsound.2.2.1, hsound.2.1, ?_, ?_⟩
  · rw [hfrom.key, Cluster.dispatchOf, hlink.job, Option.getD_some]
  · rw [hfrom.job]
    exact (books_reach hs).stamped d (List.mem_of_getElem? hfrom.dispatch) completed true hfrom.report

theorem learns_from_executor_one : ∃ s : Cluster Rat, s.balancer.updates.length = 1 ∧
    ∀ u ∈ s.balancer.updates, ∃ i id t x, s.TaskOf i id t x ∧ x.payloadRuns = 1 ∧ x.cancels = 0 ∧
      u.1 = some (s.dispatchOf id t) ∧ u.2.executedBy = id := by
  obtain ⟨s, hs, hp⟩ := exists_reach (cluster oneNode {}) anyEvent restScript
    (fun s => s.balancer.updates.length == 1) (by decide +kernel)
  exact ⟨s, by simpa using hp, learns_from_executor hs⟩

end Runs

end FatpBalancer
