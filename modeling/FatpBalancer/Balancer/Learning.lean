/-
# What the cost model learns

Every `CostModel::update` is handed the job of a dispatch that its node has reported as succeeded,
and the buckets count these jobs.  The job value carries the submitter's class and estimate and the
node's cost and identity; the queue depth in it is the submitter's, because the callback does not
merge the node's.

`UpdateFrom` traces an update to the dispatch it is about, and `LearningInv` says it of all updates
of a run; `BucketsInv` adds what the buckets count.  What a bucket counts under is the depth in the
job value, so whether the model learns what the node reported comes down to whether the submitter's
depth was the node's.
-/
import FatpBalancer.Balancer.Finalization

universe u

namespace FatpBalancer

open Machine

variable {F : Type u} [FloatOps F] {cfg : BalancerConfig F} {ev : Event} {s s' : State F}

/-! ## The updates and their reports

One update for each finalisation of a succeeded job. -/

/-- An update is about a dispatch that has left its node as succeeded. -/
structure UpdateFrom (s : State F) (u : Option Nat × Job) (k : Nat) (d : Dispatch)
    (completed : Job) : Prop where
  key : u.1 = some k
  dispatch : s.dispatches[k]? = some d
  left : d.left = some d.call
  report : d.report = some (completed, true)
  job : u.2 = mergeCompleted d.capturedJob completed

structure LearningInv (s : State F) : Prop where
  updates : ∀ u ∈ s.updates, ∃ k d completed, UpdateFrom s u k d completed
  learned : ∀ {k : Nat} {d : Dispatch} {completed : Job}, s.dispatches[k]? = some d →
    d.report = some (completed, true) → 0 < finalizedCount s d.call →
    ∃ job, (some k, job) ∈ s.updates

theorem UpdateFrom.next {u : Option Nat × Job} {k : Nat} {d : Dispatch} {completed : Job}
    (h : UpdateFrom s u k d completed) (hm : Move cfg ev s s') :
    ∃ d', UpdateFrom s' u k d' completed := by
  obtain ⟨d', hd', hmove⟩ := hm.dispatch_next h.dispatch
  have hpast := hmove.past h.left
  exact ⟨d', h.key, hd', hpast.left, hpast.report.trans h.report, by
    rw [h.job, hmove.same.2.1]⟩

/-- A finalisation of a succeeded job is about a dispatch. -/
theorem Finalizes.updateFrom {f : Finalize} (h : Finalizes s f) (hok : f.succeeded = true) :
    ∃ k d completed, UpdateFrom s (f.dispatch, f.finishedJob) k d completed := by
  cases hk : f.dispatch with
  | none =>
      rw [(h.held hk).1] at hok
      cases hok
  | some k =>
      obtain ⟨d, hd, hf⟩ := h.dispatched k hk
      obtain ⟨completed, hreport, hjob⟩ := hf.succeeded hok
      exact ⟨k, d, completed, rfl, hd, hf.left, hreport, hjob⟩

theorem LearningInv.next (h : LearningInv s) (hf : FinalizingInv s) (ha : AccountingInv s)
    (hm : Move cfg ev s s') : LearningInv s' := by
  refine ⟨fun u hu => ?_, fun {k d' completed} hd' hreport hpos => ?_⟩
  · have hold : u ∈ s.updates → ∃ k d completed, UpdateFrom s' u k d completed := by
      intro hu
      obtain ⟨k, d, completed, hfrom⟩ := h.updates u hu
      obtain ⟨d', hfrom'⟩ := hfrom.next hm
      exact ⟨k, d', completed, hfrom'⟩
    rcases hm.learns with ⟨heq, -⟩ | ⟨f, hrun, hok, heq, -⟩
    · exact hold (heq ▸ hu)
    · rw [heq] at hu
      rcases List.mem_cons.mp hu with rfl | hu
      · obtain ⟨k, d, completed, hfrom⟩ := (hf.finalizes hrun).updateFrom hok
        obtain ⟨d', hfrom'⟩ := hfrom.next hm
        exact ⟨k, d', completed, hfrom'⟩
      · exact hold hu
  · rcases hm.dispatches.1 k d' hd' with ⟨d, hd, hmove⟩ | ⟨-, hfresh⟩
    · have hcall := hmove.same.1
      rw [hcall] at hpos
      have hold : 0 < finalizedCount s d.call → ∃ job, (some k, job) ∈ s'.updates := by
        intro hpos
        have hpast := hmove.past (ha.left_of_finalized hd hpos)
        obtain ⟨job, hjob⟩ := h.learned hd (hpast.report ▸ hreport) hpos
        exact ⟨job, hm.updates_mono hjob⟩
      rcases hm.finalizes with heq | ⟨f, hrun, hstage, heq⟩
      · exact hold (by rwa [finalizedCount, heq] at hpos)
      -- the job of `d` is finalised in this step, or another one is
      · by_cases hfcall : f.call = d.call
        · have hfin := hf.finalizes hrun
          obtain ⟨hk, hfd⟩ := hfin.dispatch_eq ha hd hfcall.symm
          have hok : f.succeeded = true := by
            by_contra hfail
            rw [(hmove.past hfd.left).report] at hreport
            exact hfd.failed (Bool.eq_false_iff.mpr hfail) completed hreport
          have hmem := hfin.learned hok (by simp [hstage])
          exact ⟨f.finishedJob, hm.updates_mono (hk ▸ hmem)⟩
        · rw [finalizedCount_cons heq] at hpos
          exact hold (by simpa [owns, hfcall] using hpos)
    · rw [hfresh.report] at hreport
      cases hreport

theorem learningInv_reach (hs : (balancer cfg).Reach anyEvent s) : LearningInv s :=
  hs.invariant ⟨nofun, nofun⟩ fun _ hr h _ hstep =>
    h.next (finalizingInv_reach hr) (accountingInv_reach hr) (step_move hstep)

/-! ## The buckets

An update counts in the bucket of the depth it carries. -/

/-- The update of this job goes to bucket `b` of this node. -/
def updateHits (cfg : BalancerConfig F) (node : NodeId) (b : Fin kMaxBuckets) (job : Job) : Bool :=
  CostModel.informative job && (job.executedBy == node &&
    CostModel.bucketOf cfg.costModel.degradation job.queueDepthAtDispatch == b)

/-- The buckets count the updates. -/
structure BucketsInv (cfg : BalancerConfig F) (s : State F) : Prop where
  config : s.m.mCostModel.mConfig = cfg.costModel
  shaped : s.m.mCostModel.Shaped
  count : ∀ node b, s.m.mCostModel.bucketCount node b =
    (s.updates.countP fun u => updateHits cfg node b u.2) % 2 ^ 32

theorem BucketsInv.update (h : BucketsInv cfg s) {key : Option Nat} {job : Job}
    (hu : s'.updates = (key, job) :: s.updates)
    (hc : s'.m.mCostModel = s.m.mCostModel.update job) : BucketsInv cfg s' := by
  have hconfig : (s.m.mCostModel.update job).mConfig = s.m.mCostModel.mConfig := by
    unfold CostModel.update
    split <;> rfl
  refine ⟨by rw [hc, hconfig, h.config], hc ▸ h.shaped.update job, fun node b => ?_⟩
  rw [hc, h.shaped.bucketCount_update, h.config, h.count, hu, List.countP_cons]
  by_cases hhits : updateHits cfg node b job = true
  · have hsplit : CostModel.informative job = true ∧ job.executedBy = node ∧
        CostModel.bucketOf cfg.costModel.degradation job.queueDepthAtDispatch = b := by
      simpa [updateHits] using hhits
    rw [if_pos hsplit, if_pos hhits, fetchAdd32]
    omega
  · have hsplit : ¬(CostModel.informative job = true ∧ job.executedBy = node ∧
        CostModel.bucketOf cfg.costModel.degradation job.queueDepthAtDispatch = b) := by
      simpa [updateHits] using hhits
    rw [if_neg hsplit, if_neg hhits, Nat.add_zero]

theorem BucketsInv.create (cfg : BalancerConfig F) : BucketsInv cfg (State.create cfg) where
  config := rfl
  shaped _ _ hst := by cases hst
  count _ _ := rfl

theorem bucketsInv_reach {ok : State F → Event → Prop} (hs : (balancer cfg).Reach ok s) :
    BucketsInv cfg s := by
  refine hs.invariant (.create cfg) fun _ _ h _ hstep => ?_
  rcases (step_move hstep).learns with ⟨hu, enabled, hc⟩ | ⟨f, -, -, hu, hc⟩
  · refine ⟨by rw [hc]; exact h.config, by rw [hc]; exact h.shaped, fun node b => ?_⟩
    rw [hu, hc]
    exact h.count node b
  · exact h.update hu hc

/-! ## Learning the reports

Compared with what the nodes have reported, job by job. -/

/-- The job value an update is handed, next to what was submitted and what the node reported. -/
structure CarriesReport (submitted completed job : Job) : Prop where
  jobClass : job.jobClass = submitted.jobClass
  estimatedCost : job.estimatedCost = submitted.estimatedCost
  observedCost : job.observedCost = completed.observedCost
  executedBy : job.executedBy = completed.executedBy
  queueDepth : job.queueDepthAtDispatch = completed.queueDepthAtDispatch

/-- This update is about a job that was submitted by the call `c` and that its node has reported as
succeeded, with the job value `completed`. -/
def Reports (s : State F) (u : Option Nat × Job) (completed : Job) (c : Call) : Prop :=
  ∃ k d, u.1 = some k ∧ s.dispatches[k]? = some d ∧ d.report = some (completed, true) ∧
    s.calls[d.call]? = some c

/-- The job value this update's node has reported. -/
def reportOf (s : State F) (u : Option Nat × Job) : Option Job :=
  u.1.bind fun k => (s.dispatches[k]?).bind fun d => d.report.map Prod.fst

/-- Every update carries the report of a succeeded dispatch, every succeeded dispatch that is
finalised has been learned, and the buckets count the reported queue depths. -/
structure LearnsReports (cfg : BalancerConfig F) (s : State F) : Prop where
  carries : ∀ u ∈ s.updates, ∃ completed c, Reports s u completed c ∧
    CarriesReport c.job completed u.2
  learned : ∀ (k : Nat) (d : Dispatch) (completed : Job), s.dispatches[k]? = some d →
    d.report = some (completed, true) → 0 < finalizedCount s d.call →
    ∃ job, (some k, job) ∈ s.updates
  buckets : ∀ node b, s.m.mCostModel.bucketCount node b =
    (s.updates.countP fun u => CostModel.informative u.2 &&
      (reportOf s u).any fun completed => completed.executedBy == node &&
        CostModel.bucketOf cfg.costModel.degradation completed.queueDepthAtDispatch == b) % 2 ^ 32

/-- Every job the model has learned from was submitted with the queue depth its node reports. -/
def DepthsAgree (s : State F) : Prop :=
  ∀ u ∈ s.updates, ∀ completed c, Reports s u completed c →
    c.job.queueDepthAtDispatch = completed.queueDepthAtDispatch

theorem Reports.unique {u : Option Nat × Job} {completed completed' : Job} {c c' : Call}
    (h : Reports s u completed c) (h' : Reports s u completed' c') :
    completed = completed' ∧ c = c' := by
  obtain ⟨k, d, hk, hd, hreport, hc⟩ := h
  obtain ⟨k', d', hk', hd', hreport', hc'⟩ := h'
  obtain rfl := Option.some.inj (hk.symm.trans hk')
  obtain rfl := Option.some.inj (hd.symm.trans hd')
  exact ⟨(Prod.mk.inj (Option.some.inj (hreport.symm.trans hreport'))).1,
    Option.some.inj (hc.symm.trans hc')⟩

theorem Reports.reportOf {u : Option Nat × Job} {completed : Job} {c : Call}
    (h : Reports s u completed c) : reportOf s u = some completed := by
  obtain ⟨k, d, hk, hd, hreport, -⟩ := h
  simp [FatpBalancer.reportOf, hk, hd, hreport]

/-- An update is a copy of the submitted job with the node's cost and identity: all that can be
wrong with it is the queue depth. -/
theorem LearningInv.reports (h : LearningInv s) (hcopies : CopiesInv s) {u : Option Nat × Job}
    (hu : u ∈ s.updates) : ∃ completed c, Reports s u completed c ∧
      u.2.executedBy = completed.executedBy ∧
      u.2.queueDepthAtDispatch = c.job.queueDepthAtDispatch ∧
      (c.job.queueDepthAtDispatch = completed.queueDepthAtDispatch →
        CarriesReport c.job completed u.2) := by
  obtain ⟨k, d, completed, hfrom⟩ := h.updates u hu
  obtain ⟨c, n, hc, -, hjob⟩ := hcopies.dispatches hfrom.dispatch
  have hu2 : u.2 = mergeCompleted d.capturedJob completed := hfrom.job
  rw [hjob] at hu2
  refine ⟨completed, c, ⟨k, d, hfrom.key, hfrom.dispatch, hfrom.report, hc⟩, ?_, ?_,
    fun heq => ⟨?_, ?_, ?_, ?_, ?_⟩⟩ <;> rw [hu2, mergeCompleted]
  exact heq

/-- **The model learns the reports if and only if the submitted queue depths are the reported
ones.**  In every reachable state every update carries the submitter's class and estimate and the
node's cost, identity and queue depth, and the buckets count accordingly, exactly when every job
learned from was submitted with the queue depth that its node reports. -/
theorem learns_reports_iff (hs : (balancer cfg).Reach anyEvent s) :
    LearnsReports cfg s ↔ DepthsAgree s := by
  have hlearn := learningInv_reach hs
  have hcopies := copiesInv_reach hs
  constructor
  · intro h u hu completed c hreports
    obtain ⟨completed', c', hreports', hcarries⟩ := h.carries u hu
    obtain ⟨completed₁, c₁, hreports₁, -, hdepth, -⟩ := hlearn.reports hcopies hu
    obtain ⟨rfl, rfl⟩ := hreports.unique hreports'
    obtain ⟨rfl, rfl⟩ := hreports.unique hreports₁
    exact hdepth.symm.trans hcarries.queueDepth
  · intro h
    refine ⟨fun u hu => ?_, fun k d completed => hlearn.learned, fun node b => ?_⟩
    · obtain ⟨completed, c, hreports, -, -, hcarries⟩ := hlearn.reports hcopies hu
      exact ⟨completed, c, hreports, hcarries (h u hu completed c hreports)⟩
    · rw [(bucketsInv_reach hs).count]
      congr 1
      apply List.countP_congr
      intro u hu
      obtain ⟨completed, c, hreports, hnode, hdepth, -⟩ := hlearn.reports hcopies hu
      rw [hreports.reportOf, updateHits, hnode, hdepth, h u hu completed c hreports,
        Option.any_some]

/-- A job submitted with queue depth 3 whose node reports depth 3. -/
theorem learns_reports_iff_depth : ∃ s : State Rat, s.updates.length = 1 ∧
    (LearnsReports oneNode s ↔ DepthsAgree s) := by
  obtain ⟨s, hs, hp⟩ := exists_reach (balancer oneNode) anyEvent
    (submitScript 0 { estimatedCost := 10, queueDepthAtDispatch := 3 } 13
        { selected := some 0, accepted := some 7 } ++
      [{ actor := .node 0,
         input := { completed := { observedCost := 20, queueDepthAtDispatch := 3 } } },
       { actor := .node 0 }, { actor := .node 0 }])
    (fun s => s.updates.length == 1) (by decide)
  exact ⟨s, by simpa using hp, learns_reports_iff hs⟩

/-- The node accepts a job at queue depth 5, and the model learns it at the submitter's depth 0. -/
theorem reported_depth_lost : ∃ s : State Rat, (balancer oneNode).Reach anyEvent s ∧
    ¬LearnsReports oneNode s := by
  obtain ⟨s, hs, hp⟩ := exists_reach (balancer oneNode) anyEvent
    (submitScript 0 { estimatedCost := 10 } 13 { selected := some 0, accepted := some 7 } ++
      [{ actor := .node 0,
         input := { completed := { observedCost := 20, queueDepthAtDispatch := 5 } } },
       { actor := .node 0 }, { actor := .node 0 }])
    (fun s => s.updates.any (fun u => u.2.queueDepthAtDispatch == 0) &&
      s.dispatches.all fun d => d.report.all fun r => r.1.queueDepthAtDispatch == 5) (by decide)
  refine ⟨s, hs, fun h => ?_⟩
  simp only [Bool.and_eq_true, List.any_eq_true, List.all_eq_true, beq_iff_eq] at hp
  obtain ⟨⟨u, hu, hzero⟩, hfive⟩ := hp
  obtain ⟨completed, c, ⟨k, d, -, hd, hreport, -⟩, hcarries⟩ := h.carries u hu
  have hdepth := hfive d (List.mem_of_getElem? hd)
  rw [hreport, Option.all_some, beq_iff_eq, ← hcarries.queueDepth, hzero] at hdepth
  cases hdepth

end FatpBalancer
