/-
# The cluster: from the measurements to the alert

The balancer's snapshot asks each node for its metrics, the aggregation takes a mean and a maximum of
the percentiles, and the advisor compares the mean with a threshold.  Traced back to the executions
that were measured: a latency alert means that on some active node half of the last executions were
that slow.

The figures of a snapshot are followed through three folds: over the latency window of a node, over
the nodes of the cluster, and through the advisor's comparison.  A mean that reaches the threshold
has a summand that does, a median that reaches it has half of its window above it; the executions in
the window were measured in the run.
-/
import FatpBalancer.Sim.Alerts
import FatpBalancer.Sim.Cluster
import FatpBalancer.Sim.EndToEnd
import FatpBalancer.Sim.NodeMetrics
import Mathlib.Algebra.Order.BigOperators.Group.List

universe u

namespace FatpBalancer

open Machine OrderStatistics

variable {F : Type u} [FloatOps F] {cfg : BalancerConfig F} {mConfig : SimulatedNodeConfig}
  {s s' : Cluster F} {logs : NodeId → List Measurement}

/-! ## The measurements of a cluster

The machine of the cluster beside one list of measurements for each node. -/

/-- Every node's measurements apart. -/
def Cluster.noteMeasured (s : Cluster F) (e : ClusterEvent) (logs : NodeId → List Measurement) :
    NodeId → List Measurement :=
  match e with
  | .task id t a =>
      Function.update logs id (FatpBalancer.noteMeasured (s.nodes id) (.task t a) (logs id))
  | _ => logs

/-- A cluster under observation. -/
def measuredCluster (cfg : BalancerConfig F) (mConfig : SimulatedNodeConfig) :
    Machine (Cluster F × (NodeId → List Measurement)) ClusterEvent :=
  (cluster cfg mConfig).observe (fun _ => []) Cluster.noteMeasured

/-- The books of all nodes. -/
def Cluster.Measured (s : Cluster F) (logs : NodeId → List Measurement) : Prop :=
  ∀ id, (s.nodes id).Measured (logs id)

theorem Cluster.Measured.update (h : s.Measured logs) {id : NodeId} {n : NodeTasks}
    {l : List Measurement} (hn : n.Measured l) (b : State F) (jobs : NodeId → List Nat) :
    Cluster.Measured ⟨b, Function.update s.nodes id n, jobs⟩ (Function.update logs id l) := by
  intro id'
  by_cases heq : id' = id
  · subst heq
    simpa using hn
  · simpa [Function.update_of_ne heq] using h id'

/-- A step of one node that is no step of a task measures nothing. -/
theorem Cluster.Measured.quiet (h : s.Measured logs) {id : NodeId} {e : NodeEvent} {n : NodeTasks}
    (hn : (s.nodes id).step e = some n) (he : ∀ t a, e ≠ .task t a) (b : State F)
    (jobs : NodeId → List Nat) :
    Cluster.Measured ⟨b, Function.update s.nodes id n, jobs⟩ logs := by
  have hnote : FatpBalancer.noteMeasured (s.nodes id) e (logs id) = logs id := by
    cases e with
    | task t a => exact absurd rfl (he t a)
    | submit | cancel | reprioritise | injectFault => rfl
  have hnext := (h id).step hn
  rw [hnote] at hnext
  have hupdate : Cluster.Measured ⟨b, Function.update s.nodes id n, jobs⟩
      (Function.update logs id (logs id)) := h.update hnext b jobs
  rwa [Function.update_eq_self] at hupdate

theorem Cluster.Measured.step (h : s.Measured logs) {e : ClusterEvent}
    (hstep : s.step cfg e = some s') : s'.Measured (s.noteMeasured e logs) := by
  cases e with
  | thread ev smHandle =>
      rw [Cluster.step] at hstep
      split at hstep
      · split at hstep
        · cases hstep
        · obtain ⟨b, -, rfl⟩ := Option.map_eq_some_iff.mp hstep
          exact h
      · next nodeId job hreq =>
          obtain ⟨n, hn, hstep⟩ := Option.bind_eq_some_iff.mp hstep
          obtain ⟨b, -, rfl⟩ := Option.map_eq_some_iff.mp hstep
          exact h.quiet hn (fun t a heq => by cases heq) b _
      · next nodeId handle hreq =>
          obtain ⟨n, hn, hstep⟩ := Option.bind_eq_some_iff.mp hstep
          obtain ⟨b, -, rfl⟩ := Option.map_eq_some_iff.mp hstep
          exact h.quiet hn (fun t a heq => by cases heq) b _
  | task id t a =>
      rw [Cluster.step] at hstep
      obtain ⟨n, hn, hstep⟩ := Option.bind_eq_some_iff.mp hstep
      have hnext := (h id).step hn
      split at hstep
      · cases hstep
        exact h.update hnext _ _
      · obtain ⟨b, -, rfl⟩ := Option.map_eq_some_iff.mp hstep
        exact h.update hnext b _
  | reprioritise id handle newPriority =>
      rw [Cluster.step] at hstep
      obtain ⟨n, hn, rfl⟩ := Option.map_eq_some_iff.mp hstep
      exact h.quiet hn (fun t a heq => by cases heq) _ _
  | injectFault id fault config =>
      rw [Cluster.step] at hstep
      obtain ⟨n, hn, rfl⟩ := Option.map_eq_some_iff.mp hstep
      exact h.quiet hn (fun t a heq => by cases heq) _ _

theorem measured_reach (hs : (measuredCluster cfg mConfig).Reach anyEvent (s, logs)) :
    s.Measured logs := by
  have hrun : ((cluster cfg mConfig).observe (fun _ => []) Cluster.noteMeasured).Reach
      (fun s e => anyEvent s.1 e) (s, logs) := hs
  refine Reach.observed (I := Cluster.Measured) ?_ ?_ hrun
  · exact fun id => ⟨rfl, rfl, rfl, rfl⟩
  · exact fun e logs _ h _ hstep => h.step hstep

/-! ## The snapshot of the balancer

The nodes are asked one after the other; what is said here is about a snapshot during which nothing
else happens. -/

/-- `snapshotMetrics`: every node is asked in turn. -/
def Cluster.snapshotMetrics (s : Cluster F) (cfg : BalancerConfig F) (workerCount : Nat)
    (activeTasks : NodeId → Nat) : List LoadMetrics :=
  cfg.nodes.map fun id => (s.nodes id).node.metrics workerCount (activeTasks id)

theorem Cluster.length_snapshotMetrics (s : Cluster F) (cfg : BalancerConfig F) (workerCount : Nat)
    (activeTasks : NodeId → Nat) :
    (s.snapshotMetrics cfg workerCount activeTasks).length = cfg.nodes.length := List.length_map ..

/-! ## The aggregation

Of a mean and its summands. -/

theorem NodeTally.le_p99Max_add (t : NodeTally) (m : LoadMetrics) :
    (t.add m).p99Max = max t.p99Max m.p99LatencyUs := by
  have hcases : ∀ t : NodeTally, (if t.p99Max < m.p99LatencyUs then
      { t with p99Max := m.p99LatencyUs } else t).p99Max = max t.p99Max m.p99LatencyUs := by
    intro t
    split
    · next hlt => exact (max_eq_right hlt.le).symm
    · next hge => exact (max_eq_left (not_lt.mp hge)).symm
  rw [NodeTally.add, hcases]
  congr 1
  split_ifs <;> rfl

/-- Every node's p99 is within the maximum. -/
theorem NodeTally.le_p99Max {l : List LoadMetrics} (t : NodeTally) {m : LoadMetrics} (hm : m ∈ l) :
    m.p99LatencyUs ≤ (l.foldl NodeTally.add t).p99Max := by
  have hgrows : ∀ (l : List LoadMetrics) (t : NodeTally),
      t.p99Max ≤ (l.foldl NodeTally.add t).p99Max := by
    intro l
    induction l with
    | nil => exact fun t => le_rfl
    | cons a l ih =>
        intro t
        refine le_trans ?_ (ih (t.add a))
        rw [NodeTally.le_p99Max_add]
        exact le_max_left ..
  induction l generalizing t with
  | nil => cases hm
  | cons a l ih =>
      rcases List.mem_cons.mp hm with rfl | hm
      · refine le_trans ?_ (hgrows l _)
        rw [NodeTally.le_p99Max_add]
        exact le_max_right ..
      · exact ih (t.add a) hm

/-- A mean that reaches a bound has an element that does. -/
theorem exists_le_of_mean {l : List Nat} {bound : Nat} (hpos : 0 < bound)
    (h : bound ≤ l.sum / l.length) : ∃ x ∈ l, bound ≤ x := by
  by_contra hnone
  have hsmall : ∀ x ∈ l, x ≤ bound - 1 := by
    intro x hx
    by_contra hlt
    exact hnone ⟨x, hx, by omega⟩
  have hsum : l.sum ≤ l.length * (bound - 1) := by
    simpa using List.sum_le_card_nsmul l (bound - 1) hsmall
  have hlen : 0 < l.length := by
    rw [List.length_pos_iff]
    rintro rfl
    rw [List.sum_nil, Nat.zero_div] at h
    omega
  rw [Nat.le_div_iff_mul_le hlen] at h
  have hlt : (bound - 1) * l.length < bound * l.length :=
    Nat.mul_lt_mul_of_pos_right (by omega) hlen
  rw [Nat.mul_comm] at hsum
  omega

open LoadMetrics in
theorem exists_le_of_meanP50 {l : List LoadMetrics} {bound : Nat} (hpos : 0 < bound)
    (h : bound ≤ meanP50 l) : ∃ m ∈ l, bound ≤ m.p50LatencyUs := by
  have hsum : meanP50 l ≤ (l.map p50LatencyUs).sum / (l.map p50LatencyUs).length := by
    rw [List.length_map]
    exact Nat.div_le_div_right (Nat.mod_le ..)
  obtain ⟨x, hx, hle⟩ := exists_le_of_mean hpos (h.trans hsum)
  obtain ⟨m, hm, rfl⟩ := List.mem_map.mp hx
  exact ⟨m, hm, hle⟩

/-! ## What the figures say of the run

In every reachable state of the cluster, for a snapshot taken there. -/

variable {workerCount : Nat} {activeTasks : NodeId → Nat} {w : ThroughputWindow} {now : TimePoint}
  {th : TelemetryThresholds}

theorem buildClusterMetrics_meanP50 (b : Members F) {l : List LoadMetrics}
    (hfit : l.length < 2 ^ 32) :
    (b.buildClusterMetrics w now l).1.meanP50LatencyUs =
      LoadMetrics.meanP50 (l.filter NodeTally.reports) := by
  have hcount := NodeTally.counts_p50Count.foldl l {} rfl hfit
  have hsum := NodeTally.adds_p50Sum.foldl_filter l {} rfl
  simp only [Members.buildClusterMetrics, guarded_div, hcount, hsum, LoadMetrics.meanP50,
    List.countP_eq_length_filter]

/-- A node whose p50 makes the mean reach a bound. -/
theorem Cluster.exists_slow {bound : Nat} (hpos : 0 < bound)
    (h : bound ≤ LoadMetrics.meanP50
      ((s.snapshotMetrics cfg workerCount activeTasks).filter NodeTally.reports)) :
    ∃ id ∈ cfg.nodes, NodeTally.reports ((s.nodes id).node.metrics workerCount (activeTasks id)) =
        true ∧
      bound ≤ ((s.nodes id).node.metrics workerCount (activeTasks id)).p50LatencyUs := by
  obtain ⟨m, hm, hle⟩ := exists_le_of_meanP50 hpos h
  obtain ⟨hm, hreports⟩ := List.mem_filter.mp hm
  obtain ⟨id, hid, rfl⟩ := List.mem_map.mp hm
  exact ⟨id, hid, hreports, hle⟩

/-- **The metrics report what was measured.**  In every reachable state of a cluster the counters of
each node are those of the executions measured on it, and its percentiles are the nearest ranks in
the last 256 of them; over all nodes, the mean of the p50 is within the maximum of the p99. -/
theorem metrics_report_measured (hs : (measuredCluster cfg mConfig).Reach anyEvent (s, logs))
    (hfit : cfg.nodes.length < 2 ^ 32) :
    (∀ id, ((s.nodes id).node.metrics workerCount (activeTasks id)).Reports (logs id)) ∧
      (s.balancer.m.buildClusterMetrics w now
          (s.snapshotMetrics cfg workerCount activeTasks)).1.meanP50LatencyUs ≤
        (s.balancer.m.buildClusterMetrics w now
          (s.snapshotMetrics cfg workerCount activeTasks)).1.maxP99LatencyUs := by
  have hreports : ∀ id,
      ((s.nodes id).node.metrics workerCount (activeTasks id)).Reports (logs id) :=
    fun id => (measured_reach hs id).reports workerCount (activeTasks id)
  refine ⟨hreports, ?_⟩
  rw [buildClusterMetrics_meanP50 _ (by rwa [s.length_snapshotMetrics])]
  by_contra hlt
  obtain ⟨id, hid, -, hslow⟩ := s.exists_slow (Nat.zero_lt_of_lt (not_le.mp hlt)) le_rfl
  exact hlt (hslow.trans ((hreports id).p50_le_p99.trans
    (NodeTally.le_p99Max {} (List.mem_map_of_mem hid))))

/-- Job number `i` is submitted, and its execution takes this long. -/
def timedJob (i elapsedUs : Nat) : List ClusterEvent :=
  threadSteps 1 (.submitCall {}) {} ⟨0, 0⟩ ++
    threadSteps 9 (.submit i) { selected := some 0 } ⟨0, .ofNat (i + 1)⟩ ++
    [.task 0 i .submitPriority, .task 0 i .beginJob, .task 0 i (.payload true elapsedUs),
      .task 0 i .completeJob]

/-- Two slow jobs with a quick one between them. -/
def slowScript : List ClusterEvent := timedJob 0 30000 ++ timedJob 1 400 ++ timedJob 2 20000

/-- The two ranks differ, and neither is that of the last execution alone. -/
theorem metrics_report_measured_slow : ∃ (s : Cluster Rat) (logs : NodeId → List Measurement),
    logs 0 = [⟨true, 30000⟩, ⟨true, 400⟩, ⟨true, 20000⟩] ∧
      ((s.nodes 0).node.metrics 2 0).p50LatencyUs = 20000 ∧
      ((s.nodes 0).node.metrics 2 0).p99LatencyUs = 30000 ∧
      (∀ id, ((s.nodes id).node.metrics 2 0).Reports (logs id)) ∧
        (s.balancer.m.buildClusterMetrics ⟨0, 0, 0⟩ 0
            (s.snapshotMetrics oneNode 2 fun _ => 0)).1.meanP50LatencyUs ≤
          (s.balancer.m.buildClusterMetrics ⟨0, 0, 0⟩ 0
            (s.snapshotMetrics oneNode 2 fun _ => 0)).1.maxP99LatencyUs := by
  obtain ⟨⟨s, logs⟩, hs, hp⟩ := exists_reach (measuredCluster oneNode {}) anyEvent slowScript
    (fun x => x.2 0 == [⟨true, 30000⟩, ⟨true, 400⟩, ⟨true, 20000⟩] &&
      ((x.1.nodes 0).node.metrics 2 0).p50LatencyUs == 20000 &&
      ((x.1.nodes 0).node.metrics 2 0).p99LatencyUs == 30000) (by decide +kernel)
  simp only [Bool.and_eq_true, beq_iff_eq] at hp
  obtain ⟨⟨hlog, hp50⟩, hp99⟩ := hp
  exact ⟨s, logs, hlog, hp50, hp99, metrics_report_measured hs (by decide)⟩

/-- **A latency alert means slow executions.**  When the advisor raises it on the metrics of the
moment, there is an active node on which at least half of the last 256 executions, or of all when
there were fewer, took as long as the threshold says. -/
theorem latency_alert_measured (hs : (measuredCluster cfg mConfig).Reach anyEvent (s, logs))
    (hfit : cfg.nodes.length < 2 ^ 32) (hth : 0 < th.latencyThresholdUs)
    (halert : th.determineAlert (s.balancer.m.buildClusterMetrics w now
      (s.snapshotMetrics cfg workerCount activeTasks)).1 = kAlertLatency) :
    ∃ id ∈ cfg.nodes, ((s.nodes id).node.mState = .idle ∨ (s.nodes id).node.mState = .busy) ∧
      logs id ≠ [] ∧ (latencyWindow (logs id)).length ≤
        2 * (latencyWindow (logs id)).countP (th.latencyThresholdUs ≤ ·) := by
  have hslow : th.latencyThresholdUs ≤ LoadMetrics.meanP50
      ((s.snapshotMetrics cfg workerCount activeTasks).filter NodeTally.reports) := by
    rw [determineAlert_buildClusterMetrics ⟨_, by rwa [s.length_snapshotMetrics]⟩] at halert
    by_contra hnot
    simp only [decide_eq_false hnot, Census.alert, Bool.false_eq_true, if_false] at halert
    split_ifs at halert <;> exact absurd halert (by decide)
  obtain ⟨id, hid, hactive, hle⟩ := s.exists_slow hth hslow
  have hreports := (measured_reach hs id).reports workerCount (activeTasks id)
  rw [NodeTally.reports, Bool.and_eq_true] at hactive
  have hne : logs id ≠ [] := by
    intro hnil
    have hcompleted := of_decide_eq_true hactive.2
    rw [hreports.completed, hnil] at hcompleted
    exact absurd hcompleted (lt_irrefl 0)
  have hhalf := (hreports.p50 hne).countP_ge
  have hmono : (latencyWindow (logs id)).countP
      (((s.nodes id).node.metrics workerCount (activeTasks id)).p50LatencyUs ≤ ·) ≤
        (latencyWindow (logs id)).countP (th.latencyThresholdUs ≤ ·) := by
    apply List.countP_mono_left
    intro x _ hx
    rw [decide_eq_true_eq] at hx ⊢
    exact hle.trans hx
  exact ⟨id, hid, of_decide_eq_true hactive.1, hne, by omega⟩

/-- Two of the three executions are slow, and the alert is on. -/
theorem latency_alert_measured_slow : ∃ (s : Cluster Rat) (logs : NodeId → List Measurement),
    logs 0 = [⟨true, 30000⟩, ⟨true, 400⟩, ⟨true, 20000⟩] ∧ ∃ id ∈ oneNode.nodes,
      ((s.nodes id).node.mState = .idle ∨ (s.nodes id).node.mState = .busy) ∧ logs id ≠ [] ∧
        (latencyWindow (logs id)).length ≤
          2 * (latencyWindow (logs id)).countP (({} : TelemetryThresholds).latencyThresholdUs ≤ ·) := by
  obtain ⟨⟨s, logs⟩, hs, hp⟩ := exists_reach (measuredCluster oneNode {}) anyEvent slowScript
    (fun x => x.2 0 == [⟨true, 30000⟩, ⟨true, 400⟩, ⟨true, 20000⟩] &&
      ({} : TelemetryThresholds).determineAlert (x.1.balancer.m.buildClusterMetrics ⟨0, 0, 0⟩ 0
        (x.1.snapshotMetrics oneNode 2 fun _ => 0)).1 == kAlertLatency) (by decide +kernel)
  simp only [Bool.and_eq_true, beq_iff_eq] at hp
  exact ⟨s, logs, hp.1, latency_alert_measured hs (by decide) (by decide) hp.2⟩

end FatpBalancer
