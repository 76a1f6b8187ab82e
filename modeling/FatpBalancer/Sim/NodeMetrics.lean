/-
# The simulated node: what its metrics report

`metrics` gives the counters of the finished jobs and two percentiles of the last execution times.
Beside a run of the node every execution is noted as it is measured; in every state the counters
count these notes, the window holds the last 256 of them, and the percentiles are order statistics
of the window.

`Measurement` is one execution, noted by the step that measures it, and `Measured` ties the node's
members to the notes of the run: the two counters, the total and the latency window.
`LoadMetrics.Reports` restates it for the value that `metrics` hands out.

The last part is what the advisor's pipeline needs of a node: an overloaded one has work in its
queue, and the queue's depth is bounded by the open tasks, so that an overload can be traced to a
job.
-/
import FatpBalancer.Lib.OrderStatistics
import FatpBalancer.Sim.NodeTasks
import Mathlib.Data.List.DropRight

namespace FatpBalancer

open Machine OrderStatistics

/-! ## `metrics`

The percentiles are nearest ranks: the window is sorted, and the index is the percentage of its
length, rounded down and kept inside. -/

namespace SimulatedNode

/-- The nearest rank in the sorted window, or 0 for an empty one. -/
def percentile (n : SimulatedNode) (pct : Nat) : Nat :=
  if n.mLatencies = [] then 0
  else
    let sorted := n.mLatencies.insertionSort (· ≤ ·)
    let idx := pct * sorted.length / 100
    let idx := if sorted.length ≤ idx then sorted.length - 1 else idx
    sorted[idx]?.getD 0

/-- How many tasks are active is the thread pool's to say.  `utilization` is a `float` in the code
and the exact quotient here.  Nothing that is proved about a node or a cluster looks at it: it only
passes through to the policy and the snapshot. -/
def metrics (n : SimulatedNode) (workerCount activeTasks : Nat) : LoadMetrics where
  nodeId := n.mId
  state := n.mState
  queueDepth := n.mQueueDepth
  completedJobs := n.mCompletedJobs
  failedJobs := n.mFailedJobs
  p50LatencyUs := n.percentile 50
  p99LatencyUs := n.percentile 99
  utilization :=
    let workerCount := if 0 < workerCount then workerCount else 1
    let activeApprox := if n.mThreadPool then activeTasks else 0
    let utilization : Rat := activeApprox / workerCount
    if 1 < utilization then 1 else utilization

/-- Below 100 the clamp does nothing: the percentile is the nearest rank. -/
theorem percentile_hasRank {n : SimulatedNode} {pct : Nat} (hpct : pct < 100)
    (hne : n.mLatencies ≠ []) :
    HasRank n.mLatencies (pct * n.mLatencies.length / 100) (n.percentile pct) := by
  have hpos : 0 < n.mLatencies.length := List.length_pos_iff.mpr hne
  have hlt : pct * n.mLatencies.length / 100 < n.mLatencies.length := by
    rw [Nat.div_lt_iff_lt_mul (by decide), Nat.mul_comm n.mLatencies.length]
    exact Nat.mul_lt_mul_of_pos_right hpct hpos
  have hsorted : pct * n.mLatencies.length / 100 <
      (n.mLatencies.insertionSort (· ≤ ·)).length := by
    rwa [List.length_insertionSort]
  apply hasRank_insertionSort
  simp only [percentile, if_neg hne, List.length_insertionSort, if_neg (not_le.mpr hlt)]
  rw [List.getElem?_eq_getElem hsorted, Option.getD_some]

/-- An empty window has no percentile, and the source answers 0. -/
theorem percentile_nil {n : SimulatedNode} (h : n.mLatencies = []) (pct : Nat) :
    n.percentile pct = 0 := if_pos h

end SimulatedNode

/-! ## The books

`completeJob` is the only region that counts and records; all the others leave the counters and the
window alone. -/

/-- A region that finishes no job. -/
structure SimulatedNode.Keeps (n n' : SimulatedNode) : Prop where
  mId : n'.mId = n.mId
  completed : n'.mCompletedJobs = n.mCompletedJobs
  failed : n'.mFailedJobs = n.mFailedJobs
  latencies : n'.mLatencies = n.mLatencies

namespace SimulatedNode

/-- A node that is not touched. -/
theorem Keeps.refl (n : SimulatedNode) : n.Keeps n := ⟨rfl, rfl, rfl, rfl⟩

/-- The state machine of the node does not keep books. -/
theorem Keeps.update {n m : SimulatedNode} (h : n.Keeps m) : n.Keeps m.updateStateUnlocked.2 := by
  rw [updateStateUnlocked_eq]
  exact ⟨h.mId, h.completed, h.failed, h.latencies⟩

/-- Accepting a job finishes none. -/
theorem keeps_submit {n n' : SimulatedNode} {job : Job} {smHandle : SlotMapHandle}
    (h : n.submit job smHandle = .ok n') : n.Keeps n' := by
  rw [submit_eq h]
  exact Keeps.update ⟨rfl, rfl, rfl, rfl⟩

/-- Nor does cancelling one. -/
theorem keeps_cancel (n : SimulatedNode) (handle : JobHandle) : n.Keeps (n.cancel handle).2 := by
  rw [cancel]
  split <;> exact ⟨rfl, rfl, rfl, rfl⟩

/-- Nor changing a priority. -/
theorem keeps_reprioritise (n : SimulatedNode) (handle : JobHandle) (newPriority : Priority) :
    n.Keeps (n.reprioritise handle newPriority).2 := by
  rw [reprioritise]
  split <;> exact ⟨rfl, rfl, rfl, rfl⟩

/-- Nor a fault. -/
theorem keeps_injectFault (n : SimulatedNode) (fault : FaultType) (config : FaultConfig) :
    n.Keeps (n.injectFault fault config) := by
  rw [injectFault]
  dsimp only
  split_ifs
  · exact ⟨rfl, rfl, rfl, rfl⟩
  · exact Keeps.update ⟨rfl, rfl, rfl, rfl⟩
  · exact ⟨rfl, rfl, rfl, rfl⟩

/-- Nor beginning one. -/
theorem keeps_beginJob (n : SimulatedNode) (job : Job) (smHandle : SlotMapHandle) :
    n.Keeps (n.beginJob job smHandle).2 := by
  rw [beginJob]
  dsimp only
  split
  · exact Keeps.update ⟨rfl, rfl, rfl, rfl⟩
  · split <;> exact ⟨rfl, rfl, rfl, rfl⟩

/-- The second region of `executeJob` counts its job, as completed or as failed, and notes how
long it took. -/
theorem completeJob_books (n : SimulatedNode) (job : Job) (smHandle : SlotMapHandle)
    (succeeded : Bool) (elapsedUs : Nat) :
    (n.completeJob job smHandle succeeded elapsedUs).mId = n.mId ∧
      (n.completeJob job smHandle succeeded elapsedUs).mCompletedJobs =
        n.mCompletedJobs + succeeded.toNat ∧
      (n.completeJob job smHandle succeeded elapsedUs).mFailedJobs =
        n.mFailedJobs + (!succeeded).toNat ∧
      (n.completeJob job smHandle succeeded elapsedUs).mLatencies =
        (n.recordLatency elapsedUs).mLatencies := by
  rw [completeJob, updateStateUnlocked_eq]
  cases succeeded <;> exact ⟨rfl, rfl, rfl, rfl⟩

end SimulatedNode

/-- Only a completion writes the books. -/
theorem NodeTasks.step_keeps {s s' : NodeTasks} {e : NodeEvent} (h : s.step e = some s')
    (he : ∀ k, e ≠ .task k .completeJob) : s.node.Keeps s'.node := by
  cases e with
  | submit job smHandle =>
      rw [step] at h
      split at h
      · cases h
      · split at h
        · exact Option.some.inj h ▸ .refl _
        · next node hnode => exact Option.some.inj h ▸ SimulatedNode.keeps_submit hnode
  | cancel handle =>
      simp only [step] at h
      split at h <;> exact Option.some.inj h ▸ s.node.keeps_cancel handle
  | reprioritise handle newPriority =>
      exact Option.some.inj h ▸ s.node.keeps_reprioritise handle newPriority
  | injectFault fault config => exact Option.some.inj h ▸ s.node.keeps_injectFault fault config
  | task k a =>
      obtain ⟨x, -, h⟩ := Option.bind_eq_some_iff.mp h
      cases a with
      | completeJob => exact absurd rfl (he k)
      | beginJob =>
          cases hpc : x.pc <;> rw [hpc] at h <;> cases h
          exact s.node.keeps_beginJob x.job x.smHandle
      | submitPriority | payload succeeded elapsedUs | onDone =>
          cases hpc : x.pc <;> rw [hpc] at h <;> cases h
          exact .refl _

/-! ## The measurements of a run

The list grows at its end, so the window is its last part. -/

/-- How long the payload took, and whether it succeeded. -/
structure Measurement where
  succeeded : Bool
  elapsedUs : Nat
  deriving DecidableEq

/-- The last `kLatencyWindowSize` execution times. -/
def latencyWindow (l : List Measurement) : List Nat :=
  (l.map (·.elapsedUs)).rtake kLatencyWindowSize

/-- The second lock region of `executeJob` gets to know how long the payload took. -/
def noteMeasured (s : NodeTasks) (e : NodeEvent) (l : List Measurement) : List Measurement :=
  match e with
  | .task k .completeJob =>
      match (s.tasks[k]?).map Task.pc with
      | some (.ran _ succeeded elapsedUs) => l ++ [⟨succeeded, elapsedUs⟩]
      | _ => l
  | _ => l

/-- The task has been measured. -/
def TaskPc.isMeasured : TaskPc → Bool
  | .completed .. | .called => true
  | _ => false

/-- A window that keeps its newest element when it is full. -/
theorem rtake_concat {α : Type} {size : Nat} (hsize : 0 < size) (l : List α) (x : α) :
    (if size < (l.rtake size ++ [x]).length then (l.rtake size ++ [x]).tail
      else l.rtake size ++ [x]) = (l ++ [x]).rtake size := by
  have hcut : (l ++ [x]).rtake size = l.drop (l.length + 1 - size) ++ [x] := by
    rw [List.rtake, List.length_append, List.length_singleton, List.drop_append_of_le_length]
    omega
  have hlen : (l.rtake size ++ [x]).length = l.length - (l.length - size) + 1 := by
    simp [List.rtake]
  rw [hcut, hlen]
  split
  · next hfull =>
      have hne : l.rtake size ≠ [] := by
        rw [List.rtake, Ne, List.drop_eq_nil_iff]
        omega
      rw [List.tail_append_of_ne_nil hne, List.rtake, List.tail_drop]
      congr 2
      omega
  · next hroom =>
      rw [List.rtake]
      congr 2
      omega

namespace NodeTasks

variable {s s' : NodeTasks} {l : List Measurement}

/-- The books of the node are those of its measurements. -/
structure Measured (l : List Measurement) (s : NodeTasks) : Prop where
  completed : s.node.mCompletedJobs = l.countP (·.succeeded)
  failed : s.node.mFailedJobs = l.countP (!·.succeeded)
  latencies : s.node.mLatencies = latencyWindow l
  tasks : s.tasks.countP (·.pc.isMeasured) = l.length

/-- A region that finishes no job keeps the books as they are. -/
theorem Measured.kept (h : s.Measured l) (hkeeps : s.node.Keeps s'.node)
    (htasks : s'.tasks.countP (·.pc.isMeasured) = s.tasks.countP (·.pc.isMeasured)) :
    s'.Measured l where
  completed := hkeeps.completed.trans h.completed
  failed := hkeeps.failed.trans h.failed
  latencies := hkeeps.latencies.trans h.latencies
  tasks := htasks.trans h.tasks

/-- The region that finishes one adds a measurement. -/
theorem Measured.completeJob (h : s.Measured l) {k : Nat} {t : Task} {job : Job}
    {succeeded : Bool} {elapsedUs : Nat} (hk : s.tasks[k]? = some t)
    (hpc : t.pc = .ran job succeeded elapsedUs) :
    Measured (l ++ [⟨succeeded, elapsedUs⟩])
      { node := s.node.completeJob job t.smHandle succeeded elapsedUs
        tasks := s.tasks.set k { t with pc := .completed job succeeded } } := by
  obtain ⟨-, hcompleted, hfailed, hlatencies⟩ :=
    s.node.completeJob_books job t.smHandle succeeded elapsedUs
  refine ⟨?_, ?_, ?_, ?_⟩
  · show _ = List.countP _ _
    rw [hcompleted, h.completed, List.countP_append, List.countP_singleton]
    cases succeeded <;> rfl
  · show _ = List.countP _ _
    rw [hfailed, h.failed, List.countP_append, List.countP_singleton]
    cases succeeded <;> rfl
  · show _ = latencyWindow _
    rw [hlatencies, latencyWindow, List.map_append]
    simp only [SimulatedNode.recordLatency, h.latencies, latencyWindow]
    exact rtake_concat (by decide) _ _
  · have hcount := Table.countP_set (p := fun t : Task => t.pc.isMeasured) hk
      { t with pc := .completed job succeeded }
    rw [hpc] at hcount
    rw [List.length_append, ← h.tasks]
    exact hcount

/-- **The step lemma.** -/
theorem Measured.step (h : s.Measured l) {e : NodeEvent} (hstep : s.step e = some s') :
    s'.Measured (noteMeasured s e l) := by
  cases e with
  | submit job smHandle =>
      refine h.kept (step_keeps hstep fun k heq => by cases heq) ?_
      rw [NodeTasks.step] at hstep
      split at hstep
      · cases hstep
      · split at hstep <;> cases hstep
        · rfl
        · simp [TaskPc.isMeasured]
  | cancel handle =>
      refine h.kept (step_keeps hstep fun k heq => by cases heq) ?_
      simp only [NodeTasks.step] at hstep
      split at hstep <;> cases hstep
      · rfl
      · exact countP_cancelled (fun _ => rfl) handle s.tasks
  | reprioritise handle newPriority =>
      refine h.kept (step_keeps hstep fun k heq => by cases heq) ?_
      cases hstep
      rfl
  | injectFault fault config =>
      refine h.kept (step_keeps hstep fun k heq => by cases heq) ?_
      cases hstep
      rfl
  | task k a =>
      obtain ⟨t, hk, hm⟩ := Option.bind_eq_some_iff.mp hstep
      have hset : ∀ t', (∀ j, NodeEvent.task k a ≠ .task j .completeJob) →
          s'.tasks = s.tasks.set k t' → t'.pc.isMeasured = t.pc.isMeasured → s'.Measured l := by
        intro t' ha htasks hsame
        refine h.kept (step_keeps hstep ha) ?_
        have hcount := Table.countP_set (p := fun t : Task => t.pc.isMeasured) hk t'
        rw [hsame] at hcount
        rw [htasks]
        omega
      cases a with
      | completeJob =>
          cases hpc : t.pc <;> rw [hpc] at hm <;> cases hm
          next job succeeded elapsedUs =>
          have hnote : noteMeasured s (.task k .completeJob) l = l ++ [⟨succeeded, elapsedUs⟩] := by
            simp only [noteMeasured, hk, Option.map_some, hpc]
          rw [hnote]
          exact h.completeJob hk hpc
      | beginJob =>
          cases hpc : t.pc <;> rw [hpc] at hm <;> cases hm
          refine hset _ (fun j heq => by cases heq) rfl ?_
          rw [hpc]
          cases (s.node.beginJob t.job t.smHandle).1 <;> rfl
      | submitPriority | payload succeeded elapsedUs | onDone =>
          cases hpc : t.pc <;> rw [hpc] at hm <;> cases hm
          refine hset _ (fun j heq => by cases heq) rfl ?_
          rw [hpc]
          rfl

end NodeTasks

/-- What the metrics say of a list of measurements. -/
structure LoadMetrics.Reports (m : LoadMetrics) (l : List Measurement) : Prop where
  completed : m.completedJobs = l.countP (·.succeeded)
  failed : m.failedJobs = l.countP (!·.succeeded)
  unmeasured : l = [] → m.p50LatencyUs = 0 ∧ m.p99LatencyUs = 0
  p50 : l ≠ [] → HasRank (latencyWindow l) (50 * (latencyWindow l).length / 100) m.p50LatencyUs
  p99 : l ≠ [] → HasRank (latencyWindow l) (99 * (latencyWindow l).length / 100) m.p99LatencyUs

/-- After a first measurement the window is never empty again. -/
theorem latencyWindow_ne_nil {l : List Measurement} (h : l ≠ []) : latencyWindow l ≠ [] := by
  have hpos : 0 < l.length := List.length_pos_iff.mpr h
  rw [latencyWindow, List.rtake, Ne, List.drop_eq_nil_iff, List.length_map, kLatencyWindowSize]
  omega

/-- What the books of a measured node say of the list. -/
theorem NodeTasks.Measured.reports {s : NodeTasks} {l : List Measurement} (h : s.Measured l)
    (workerCount activeTasks : Nat) : (s.node.metrics workerCount activeTasks).Reports l where
  completed := h.completed
  failed := h.failed
  unmeasured hnil := by
    have hnone : s.node.mLatencies = [] := by rw [h.latencies, hnil]; rfl
    exact ⟨SimulatedNode.percentile_nil hnone 50, SimulatedNode.percentile_nil hnone 99⟩
  p50 hne := by
    have hsome : s.node.mLatencies ≠ [] := h.latencies ▸ latencyWindow_ne_nil hne
    rw [← h.latencies]
    exact SimulatedNode.percentile_hasRank (by decide) hsome
  p99 hne := by
    have hsome : s.node.mLatencies ≠ [] := h.latencies ▸ latencyWindow_ne_nil hne
    rw [← h.latencies]
    exact SimulatedNode.percentile_hasRank (by decide) hsome

/-- The lower rank has the lower value. -/
theorem LoadMetrics.Reports.p50_le_p99 {m : LoadMetrics} {l : List Measurement} (h : m.Reports l) :
    m.p50LatencyUs ≤ m.p99LatencyUs := by
  by_cases hnil : l = []
  · obtain ⟨hp50, hp99⟩ := h.unmeasured hnil
    rw [hp50]
    exact Nat.zero_le _
  · exact (h.p50 hnil).le (h.p99 hnil) (Nat.div_le_div_right (Nat.mul_le_mul_right _ (by decide)))

/-! ## An overloaded node has work

`updateStateUnlocked` decides from the depth alone, and runs at the end of every region that changes
the depth. -/

namespace SimulatedNode

/-- Only a node with a queue is overloaded, and only a failed one has crashed. -/
structure Loaded (n : SimulatedNode) : Prop where
  crashed : n.mFault = .crash → n.mState = .failed
  overloaded : n.mState = .overloaded → 0 < n.mQueueDepth

/-- A depth that resolves to overloaded is positive. -/
theorem resolvedState_loaded {config : SimulatedNodeConfig} (hth : 0 < config.overloadThreshold)
    {state : NodeState} {depth : Nat} (h : resolvedState config state depth = .overloaded) :
    0 < depth := by
  by_contra hzero
  obtain rfl : depth = 0 := by omega
  rw [resolvedState, if_neg (by omega), if_neg (lt_irrefl 0)] at h
  cases h

/-- A region that ends with `updateStateUnlocked`. -/
theorem Loaded.follows {n n' : SimulatedNode} (h : n.Loaded) (hfollows : n.Follows n')
    (hth : 0 < n.mConfig.overloadThreshold) : n'.Loaded := by
  rcases hfollows.state with ⟨hstate, hdepth⟩ | hstate
  · refine ⟨?_, ?_⟩
    · rw [hstate, hfollows.fault]
      exact h.crashed
    · rw [hstate, hdepth]
      exact h.overloaded
  · split at hstate
    · next hfailed =>
        -- a failed node keeps its state
        have hfailed : n.mState = .failed := hfailed.elim h.crashed id
        refine ⟨fun _ => hstate.trans hfailed, ?_⟩
        rw [hstate, hfailed]
        intro hcontra
        cases hcontra
    · next hworking =>
        rw [not_or] at hworking
        refine ⟨?_, ?_⟩
        · rw [hfollows.fault]
          exact fun hcrash => absurd hcrash hworking.1
        · rw [hstate]
          exact resolvedState_loaded hth

/-- A fault other than a crash resolves the state again. -/
theorem Loaded.injectFault {n : SimulatedNode} (h : n.Loaded)
    (hth : 0 < n.mConfig.overloadThreshold) (fault : FaultType) (config : FaultConfig) :
    (n.injectFault fault config).Loaded := by
  rw [SimulatedNode.injectFault]
  dsimp only
  split_ifs with hcrash hclear
  · exact ⟨fun _ => rfl, fun hcontra => by cases hcontra⟩
  · -- resolved by the depth
    obtain ⟨rfl, -⟩ := hclear
    have hnew := updateStateUnlocked_mState
      ({ n with mFault := .none, mFaultConfig := config, mState := .recovering } : SimulatedNode)
    refine ⟨?_, ?_⟩
    · rw [updateStateUnlocked_eq]
      intro hcontra
      cases hcontra
    · rw [updateStateUnlocked_mQueueDepth, hnew, if_neg (by simp)]
      exact resolvedState_loaded hth
  · exact ⟨fun hcontra => absurd hcontra hcrash, h.overloaded⟩

end SimulatedNode

section Runs

variable {mId : NodeId} {mConfig : SimulatedNodeConfig} {s s' : NodeTasks}

/-- A step follows the depth, or injects a fault. -/
theorem NodeTasks.follows_or_fault {e : NodeEvent} (h : s.step e = some s') :
    s.node.Follows s'.node ∨ ∃ fault config, s'.node = s.node.injectFault fault config := by
  by_cases he : ∃ fault config, e = .injectFault fault config
  · obtain ⟨fault, config, rfl⟩ := he
    exact .inr ⟨fault, config, Option.some.inj h ▸ rfl⟩
  · exact .inl (step_follows h fun fault config heq => he ⟨fault, config, heq⟩)

/-- In every reachable state of the node. -/
theorem NodeTasks.loaded_reach (hth : 0 < mConfig.overloadThreshold)
    (hs : (simulatedNode mId mConfig).Reach anyEvent s) : s.node.Loaded := by
  have hinv : s.node.mConfig = mConfig ∧ s.node.Loaded := by
    apply hs.invariant (I := fun s => s.node.mConfig = mConfig ∧ s.node.Loaded)
    · refine ⟨rfl, ?_, ?_⟩ <;>
        · intro h
          cases h
    · rintro s s' e - ⟨rfl, h⟩ - hstep
      rcases NodeTasks.follows_or_fault hstep with hfollows | ⟨fault, config, hnode⟩
      · exact ⟨hfollows.config, h.follows hfollows hth⟩
      · rw [hnode]
        exact ⟨SimulatedNode.injectFault_mConfig .., h.injectFault hth fault config⟩
  exact hinv.2

/-- A node never forgets a task, and an accepted job adds one. -/
theorem NodeTasks.length_tasks_le {e : NodeEvent} (h : s.step e = some s') :
    s.tasks.length ≤ s'.tasks.length := by
  cases e with
  | submit job smHandle =>
      rw [step] at h
      split at h
      · cases h
      · split at h <;> cases h
        · exact le_rfl
        · simp
  | cancel handle =>
      simp only [step] at h
      split at h <;> cases h
      · exact le_rfl
      · simp
  | reprioritise handle newPriority => exact Option.some.inj h ▸ le_rfl
  | injectFault fault config => exact Option.some.inj h ▸ le_rfl
  | task k a =>
      obtain ⟨t, -, hm⟩ := Option.bind_eq_some_iff.mp h
      obtain ⟨t', htasks, -⟩ := (stepTask_move hm).depth
      rw [htasks, List.length_set]

/-- An accepted job is a new task. -/
theorem NodeTasks.length_tasks_submit {job : Job} {smHandle : SlotMapHandle}
    (h : s.step (.submit job smHandle) = some s')
    (hok : (s.node.submit job smHandle).isOk = true) : s'.tasks.length = s.tasks.length + 1 := by
  rw [step] at h
  split at h
  · cases h
  · split at h
    · next hnode =>
        rw [hnode] at hok
        cases hok
    · cases h
      simp

/-- With fewer than 2³² tasks ever, the depth is the number of the outstanding ones. -/
theorem NodeTasks.counted_of_length (hs : (simulatedNode mId mConfig).Reach anyEvent s)
    (hfit : s.tasks.length < 2 ^ 32) : s.Counted := by
  revert hfit
  apply hs.invariant (I := fun s => s.tasks.length < 2 ^ 32 → s.Counted)
  · exact fun _ => .init mId mConfig
  · intro s s' e _ h _ hstep hfit
    have hle := NodeTasks.length_tasks_le hstep
    refine (h (by omega)).step ?_ hstep
    cases e with
    | submit job smHandle =>
        intro hok
        have hone := NodeTasks.length_tasks_submit hstep hok
        have hopen : s.outstanding ≤ s.tasks.length := List.countP_le_length
        omega
    | cancel | reprioritise | injectFault | task => trivial

/-- Where the depth is positive some task is open. -/
theorem NodeTasks.exists_open (hth : 0 < mConfig.overloadThreshold)
    (hs : (simulatedNode mId mConfig).Reach anyEvent s) (hfit : s.tasks.length < 2 ^ 32)
    (hstate : s.node.mState = .overloaded) : ∃ x ∈ s.tasks, x.isOpen = true := by
  have hpos := (loaded_reach hth hs).overloaded hstate
  rw [(counted_of_length hs hfit).depth] at hpos
  exact List.countP_pos_iff.mp hpos

end Runs

end FatpBalancer
