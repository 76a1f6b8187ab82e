/-
# What the cost model has learned

Three estimators are trained by every update: the average of the node, the cell of the affinity
matrix and the bucket of the degradation curve.  Each is the average of the ratios that it has seen,
from the run alone; `predict` compounds them.  All three learn the whole ratio, so that what they
compound to may pass the ratio that was observed.

* `Tracks` says of a single estimator that it holds the weighted average of a list of ratios and
  counts them in 32 bits; `Learned` says it of all estimators of a model at once, after any run of
  completions.
* `predict_eq` then writes a prediction as a function of the run: the estimate times the product of
  three averages, each neutral while its estimator is cold, rounded.
* `Calibrated` is the condition under which predictions after uniform completions stay between the
  estimate and what was observed.  It compares weights: each estimator has moved its own share of
  the way, and the shares add up.

Arithmetic is exact here; the floats of the source come close to it and no closer statement is
meant.
-/
import FatpBalancer.CostModel
import FatpBalancer.Lib.Ema
import Mathlib.Algebra.Order.Archimedean.Basic

universe u

namespace FatpBalancer

namespace CostModel

/-! ## The completions an estimator learns from

The three estimators see different parts of the run: a node, a cell of the matrix, a range of queue
depths on a node. -/

/-- The ratios of the completions that an estimator learns from, in order. -/
def ratios (learns : Job → Bool) (jobs : List Job) : List Rat :=
  (jobs.filter fun job => informative job && learns job).map ratio

/-- The completions on a node. -/
def onNode (n : NodeId) (job : Job) : Bool := job.executedBy = n

/-- The completions that share the affinity cell of a node and a class: ids past the edge of the
matrix share its last row, classes its last column. -/
def inCell (cfg : AffinityMatrixConfig Rat) (n : NodeId) (c : JobClass) (job : Job) : Bool :=
  AffinityMatrix.clampIndex cfg.maxNodes job.executedBy = AffinityMatrix.clampIndex cfg.maxNodes n &&
    AffinityMatrix.clampIndex cfg.maxJobClasses job.jobClass =
      AffinityMatrix.clampIndex cfg.maxJobClasses c

/-- The completions on a node that share the bucket of a queue depth. -/
def inBucket (cfg : DegradationCurveConfig Rat) (n : NodeId) (d : Nat) (job : Job) : Bool :=
  job.executedBy = n && bucketOf cfg job.queueDepthAtDispatch = bucketOf cfg d

/-- A completion is in the cell of a node and a class when its own clamped indices are. -/
theorem inCell_iff {cfg : AffinityMatrixConfig Rat} {n : NodeId} {c : JobClass} {job : Job} :
    inCell cfg n c job = true ↔
      AffinityMatrix.clampIndex cfg.maxNodes n =
          AffinityMatrix.clampIndex cfg.maxNodes job.executedBy ∧
        AffinityMatrix.clampIndex cfg.maxJobClasses c =
          AffinityMatrix.clampIndex cfg.maxJobClasses job.jobClass := by
  rw [inCell, Bool.and_eq_true, decide_eq_true_eq, decide_eq_true_eq, eq_comm]
  exact and_congr_right fun _ => eq_comm

/-- Ratios are appended as completions are. -/
theorem ratios_concat (learns : Job → Bool) (jobs : List Job) (job : Job) :
    ratios learns (jobs ++ [job]) =
      if informative job = true ∧ learns job = true then ratios learns jobs ++ [ratio job]
      else ratios learns jobs := by
  unfold ratios
  rw [List.filter_append, List.map_append, List.filter_singleton]
  by_cases h : informative job = true ∧ learns job = true
  · rw [if_pos h, h.1, h.2]
    rfl
  · have hskip : (informative job && learns job) = false := by simpa using h
    rw [if_neg h, hskip]
    exact List.append_nil _

/-- An informative completion has a positive ratio. -/
theorem ratio_pos {job : Job} (h : informative job = true) : (0 : Rat) < ratio job := by
  have hcosts : job.estimatedCost ≠ 0 ∧ job.observedCost ≠ 0 := by
    simp only [informative, Bool.not_eq_true', Bool.or_eq_false_iff] at h
    exact ⟨of_decide_eq_false h.1, of_decide_eq_false h.2⟩
  exact div_pos (Nat.cast_pos.mpr (Nat.pos_of_ne_zero hcosts.2))
    (Nat.cast_pos.mpr (Nat.pos_of_ne_zero hcosts.1))

/-- All ratios are positive. -/
theorem ratios_pos (learns : Job → Bool) (jobs : List Job) : ∀ ρ ∈ ratios learns jobs, 0 < ρ := by
  intro ρ hρ
  obtain ⟨job, hjob, rfl⟩ := List.mem_map.mp hρ
  have hlearns := (List.mem_filter.mp hjob).2
  rw [Bool.and_eq_true] at hlearns
  exact ratio_pos hlearns.1

/-! ## The state of an estimator

One observation moves the average and the count; an update makes one observation on each of the
three. -/

/-- An estimator holds the average of the ratios it has seen and counts them in 32 bits. -/
def Tracks (value : Rat) (observations : Nat) (α : Rat) (seen : List Rat) : Prop :=
  value = Ema.average α 1 seen ∧ observations = seen.length % 2 ^ 32

/-- Before the first observation the average is 1. -/
theorem tracks_nil (α : Rat) : Tracks 1 0 α [] := ⟨rfl, rfl⟩

/-- One observation more. -/
theorem Tracks.observe {value : Rat} {observations : Nat} {α : Rat} {seen : List Rat}
    (h : Tracks value observations α seen) (ρ : Rat) :
    Tracks (emaStep α ρ value) (fetchAdd32 observations) α (seen ++ [ρ]) := by
  obtain ⟨rfl, rfl⟩ := h
  refine ⟨(Ema.average_concat α 1 seen ρ).symm, ?_⟩
  rw [List.length_append, List.length_singleton]
  unfold fetchAdd32
  omega

/-- The curve of a node before it learns: `configure` runs while the count is 0. -/
theorem learnNode_degradation {cfg : CostModelConfig Rat} {st : NodeLearningState Rat}
    (h : st.observationCount ≠ 0 → st.degradation.Configured cfg.degradation) (depth : Nat)
    (r : Rat) :
    ∃ c : DegradationCurve Rat, c.Configured cfg.degradation ∧
      c.buckets = st.degradation.buckets ∧
      (learnNode cfg st depth r).degradation = c.update depth r := by
  unfold learnNode
  dsimp only
  by_cases hzero : st.observationCount = 0
  · rw [if_pos hzero]
    exact ⟨_, st.degradation.configured_configure cfg.degradation, rfl, rfl⟩
  · rw [if_neg hzero]
    exact ⟨_, h hzero, rfl, rfl⟩

/-- What a run of updates has taught the model. -/
structure Learned (cfg : CostModelConfig Rat) (jobs : List Job) (m : CostModel Rat) : Prop where
  mConfig : m.mConfig = cfg
  affinityConfig : m.mAffinityMatrix.mConfig = cfg.affinity
  unknown_iff : ∀ n, m.mNodeStates.lookup n = none ↔ ratios (onNode n) jobs = []
  configured : ∀ n st, m.mNodeStates.lookup n = some st →
    st.degradation.Configured cfg.degradation
  node : ∀ n, Tracks (m.nodeStateOrDefault n).throughputMultiplier.value
    (m.nodeStateOrDefault n).observationCount cfg.nodeAlpha (ratios (onNode n) jobs)
  bucket : ∀ n d,
    let b := (m.nodeStateOrDefault n).degradation.buckets (bucketOf cfg.degradation d)
    Tracks b.multiplier.value b.observations cfg.degradation.alpha
      (ratios (inBucket cfg.degradation n d) jobs)
  cell : ∀ n c, Tracks
    (m.mAffinityMatrix.mValues (m.mAffinityMatrix.clampRow n) (m.mAffinityMatrix.clampCol c))
    (m.mAffinityMatrix.observations n c) cfg.affinity.alpha
    (ratios (inCell cfg.affinity n c) jobs)

/-- A fresh model has learned nothing. -/
theorem learned_create (cfg : CostModelConfig Rat) : Learned cfg [] (create cfg) where
  mConfig := rfl
  affinityConfig := rfl
  unknown_iff _ := ⟨fun _ => rfl, fun _ => rfl⟩
  configured _ _ h := by cases h
  node _ := tracks_nil _
  bucket _ _ := tracks_nil _
  cell _ _ := tracks_nil _

namespace Learned

variable {cfg : CostModelConfig Rat} {jobs : List Job} {m : CostModel Rat}

/-- A state that has counted something is configured. -/
theorem configured_of_counted (h : Learned cfg jobs m) (n : NodeId)
    (hcount : (m.nodeStateOrDefault n).observationCount ≠ 0) :
    (m.nodeStateOrDefault n).degradation.Configured cfg.degradation := by
  unfold nodeStateOrDefault at hcount ⊢
  cases hst : m.mNodeStates.lookup n with
  | none =>
      rw [hst] at hcount
      exact absurd rfl hcount
  | some st => exact h.configured n st hst

/-- An informative completion is one more observation of its node. -/
theorem learn_node (h : Learned cfg jobs m) {job : Job} (hinf : informative job = true)
    (n : NodeId) :
    Tracks ((m.update job).nodeStateOrDefault n).throughputMultiplier.value
      ((m.update job).nodeStateOrDefault n).observationCount cfg.nodeAlpha
      (ratios (onNode n) (jobs ++ [job])) := by
  have hstate := m.nodeStateOrDefault_update hinf
  rw [h.mConfig] at hstate
  rw [hstate, ratios_concat]
  by_cases hn : n = job.executedBy
  · rw [if_pos hn, if_pos ⟨hinf, by simp [onNode, hn]⟩, hn]
    exact (h.node job.executedBy).observe (ratio job)
  · rw [if_neg hn, if_neg (by simp [onNode, Ne.symm hn])]
    exact h.node n

/-- It is one more observation of the bucket of its depth, on its node. -/
theorem learn_bucket (h : Learned cfg jobs m) {job : Job} (hinf : informative job = true)
    (n : NodeId) (d : Nat) :
    let b := ((m.update job).nodeStateOrDefault n).degradation.buckets (bucketOf cfg.degradation d)
    Tracks b.multiplier.value b.observations cfg.degradation.alpha
      (ratios (inBucket cfg.degradation n d) (jobs ++ [job])) := by
  obtain ⟨curve, hconfigured, hbuckets, hlearn⟩ :=
    learnNode_degradation (h.configured_of_counted job.executedBy) job.queueDepthAtDispatch
      (ratio job)
  have hstate := m.nodeStateOrDefault_update hinf
  rw [h.mConfig] at hstate
  rw [hstate, ratios_concat]
  by_cases hn : n = job.executedBy
  · subst hn
    rw [if_pos rfl, hlearn]
    have hindex : curve.bucketIndex job.queueDepthAtDispatch =
        bucketOf cfg.degradation job.queueDepthAtDispatch := hconfigured.bucketIndex_eq _
    simp only [DegradationCurve.update, hindex, Function.update_apply, hbuckets]
    by_cases hb : bucketOf cfg.degradation d = bucketOf cfg.degradation job.queueDepthAtDispatch
    · rw [if_pos hb, if_pos ⟨hinf, by simp [inBucket, hb]⟩, ← hb, ← hconfigured.alpha]
      have hobserved := (h.bucket job.executedBy d).observe (ratio job)
      rw [← hconfigured.alpha] at hobserved
      exact hobserved
    · rw [if_neg hb, if_neg (by simp [inBucket, Ne.symm hb])]
      exact h.bucket job.executedBy d
  · rw [if_neg hn, if_neg (by simp [inBucket, Ne.symm hn])]
    exact h.bucket n d

/-- It is one more observation of the cell that its node and its class are clamped into. -/
theorem learn_cell (h : Learned cfg jobs m) {job : Job} (hinf : informative job = true)
    (n : NodeId) (c : JobClass) :
    let a := (m.update job).mAffinityMatrix
    Tracks (a.mValues (a.clampRow n) (a.clampCol c)) (a.observations n c) cfg.affinity.alpha
      (ratios (inCell cfg.affinity n c) (jobs ++ [job])) := by
  have hupdate := m.update_of_informative hinf
  rw [h.mConfig] at hupdate
  rw [hupdate, ratios_concat]
  simp only [AffinityMatrix.update, AffinityMatrix.observations, AffinityMatrix.clampRow,
    AffinityMatrix.clampCol, AffinityMatrix.setCell_apply, h.affinityConfig]
  have hold := h.cell n c
  simp only [AffinityMatrix.observations, AffinityMatrix.clampRow, AffinityMatrix.clampCol,
    h.affinityConfig] at hold
  by_cases hcell : inCell cfg.affinity n c job = true
  · have hsame := inCell_iff.mp hcell
    rw [if_pos hsame, if_pos hsame, if_pos ⟨hinf, hcell⟩, ← hsame.1, ← hsame.2]
    exact hold.observe (ratio job)
  · have hother := fun hsame => hcell (inCell_iff.mpr hsame)
    rw [if_neg hother, if_neg hother, if_neg fun hc => hcell hc.2]
    exact hold

/-- An informative completion teaches its node, its bucket and its cell. -/
theorem learn (h : Learned cfg jobs m) {job : Job} (hinf : informative job = true) :
    Learned cfg (jobs ++ [job]) (m.update job) := by
  have hupdate := m.update_of_informative hinf
  rw [h.mConfig] at hupdate
  refine ⟨?_, ?_, ?_, ?_, h.learn_node hinf, h.learn_bucket hinf, h.learn_cell hinf⟩
  · rw [hupdate]
  · rw [hupdate]
    exact h.affinityConfig
  · intro n
    rw [hupdate, HashMap.lookup_insert_eq, ratios_concat]
    by_cases hn : n = job.executedBy
    · rw [if_pos hn, if_pos ⟨hinf, by simp [onNode, hn]⟩]
      simp
    · rw [if_neg hn, if_neg (by simp [onNode, Ne.symm hn])]
      exact h.unknown_iff n
  · obtain ⟨curve, hconfigured, -, hlearn⟩ :=
      learnNode_degradation (h.configured_of_counted job.executedBy) job.queueDepthAtDispatch
        (ratio job)
    intro n st hst
    rw [hupdate, HashMap.lookup_insert_eq] at hst
    by_cases hn : n = job.executedBy
    · rw [if_pos hn] at hst
      obtain rfl := Option.some.inj hst
      rw [hlearn]
      exact ⟨hconfigured.bucketCount, hconfigured.bucketSize, hconfigured.alpha,
        hconfigured.warmThreshold⟩
    · rw [if_neg hn] at hst
      exact h.configured n st hst

/-- A completion that says nothing changes nothing. -/
theorem update (h : Learned cfg jobs m) (job : Job) : Learned cfg (jobs ++ [job]) (m.update job) := by
  by_cases hinf : informative job = true
  · exact h.learn hinf
  · have hsame : ∀ learns, ratios learns (jobs ++ [job]) = ratios learns jobs := by
      intro learns
      rw [ratios_concat, if_neg fun hc => hinf hc.1]
    have hupdate : m.update job = m := if_neg hinf
    rw [hupdate]
    refine ⟨h.mConfig, h.affinityConfig, ?_, h.configured, ?_, ?_, ?_⟩
    all_goals simp only [hsame]
    · exact h.unknown_iff
    · exact h.node
    · exact h.bucket
    · exact h.cell

end Learned

/-- Whatever has completed: each estimator holds the average of what it has seen. -/
theorem learned_run (cfg : CostModelConfig Rat) (jobs : List Job) :
    Learned cfg jobs (jobs.foldl CostModel.update (create cfg)) := by
  induction jobs using List.reverseRecOn with
  | nil => exact learned_create cfg
  | append_singleton jobs job ih =>
      rw [List.foldl_append]
      exact ih.update job

/-! ## What a trained model predicts

From the run alone, without the model's state. -/

/-- The model after a run of completions, with the degradation curve switched on or off. -/
def trained {F : Type u} [FloatOps F] (cfg : CostModelConfig F) (jobs : List Job)
    (enabled : Bool) : CostModel F :=
  (jobs.foldl CostModel.update (create cfg)).setDegradationEnabled enabled

/-- The correction of an estimator is neutral while the estimator is cold. -/
def warmed (warmThreshold : Nat) (α : Rat) (seen : List Rat) : Rat :=
  if seen.length % 2 ^ 32 < warmThreshold then 1 else Ema.average α 1 seen

/-- A node that has completed `k` informative jobs is cold: its count is a 32-bit one. -/
def Cold (cfg : CostModelConfig Rat) (k : Nat) : Prop := k = 0 ∨ k % 2 ^ 32 < cfg.warmThreshold

instance (cfg : CostModelConfig Rat) (k : Nat) : Decidable (Cold cfg k) :=
  inferInstanceAs (Decidable (_ ∨ _))

/-- The product of the three corrections, from the run alone. -/
def corrections (cfg : CostModelConfig Rat) (jobs : List Job) (enabled : Bool) (n : NodeId)
    (c : JobClass) (d : Nat) : Rat :=
  Ema.average cfg.nodeAlpha 1 (ratios (onNode n) jobs) *
    warmed cfg.affinity.warmThreshold cfg.affinity.alpha (ratios (inCell cfg.affinity n c) jobs) *
    if enabled then
      warmed cfg.degradation.warmThreshold cfg.degradation.alpha
        (ratios (inBucket cfg.degradation n d) jobs)
    else 1

/-- No estimator reads the switch. -/
theorem learned_trained (cfg : CostModelConfig Rat) (jobs : List Job) (enabled : Bool) :
    Learned cfg jobs (trained cfg jobs enabled) := by
  have h := learned_run cfg jobs
  exact ⟨h.mConfig, h.affinityConfig, h.unknown_iff, h.configured, h.node, h.bucket, h.cell⟩

/-- The correction of an estimator that tracks what it has seen. -/
theorem Tracks.warmed {value : Rat} {observations : Nat} {α : Rat} {seen : List Rat}
    (h : Tracks value observations α seen) (warmThreshold : Nat) :
    (if observations < warmThreshold then 1 else value) = warmed warmThreshold α seen := by
  rw [h.1, h.2]
  rfl

namespace Learned

variable {cfg : CostModelConfig Rat} {jobs : List Job} {m : CostModel Rat}

/-- What the matrix answers. -/
theorem affinity_get (h : Learned cfg jobs m) (n : NodeId) (c : JobClass) :
    m.mAffinityMatrix.get n c =
      warmed cfg.affinity.warmThreshold cfg.affinity.alpha (ratios (inCell cfg.affinity n c) jobs) := by
  rw [← (h.cell n c).warmed, ← h.affinityConfig]
  rfl

/-- What the curve answers. -/
theorem degradation_get (h : Learned cfg jobs m) {n : NodeId} {st : NodeLearningState Rat}
    (hst : m.mNodeStates.lookup n = some st) (d : Nat) :
    st.degradation.get d =
      warmed cfg.degradation.warmThreshold cfg.degradation.alpha
        (ratios (inBucket cfg.degradation n d) jobs) := by
  have hconfigured := h.configured n st hst
  have hbucket := h.bucket n d
  unfold nodeStateOrDefault at hbucket
  rw [hst, Option.getD_some] at hbucket
  have hindex : st.degradation.bucketIndex d = bucketOf cfg.degradation d :=
    hconfigured.bucketIndex_eq d
  unfold DegradationCurve.get
  rw [hindex, hconfigured.warmThreshold]
  exact hbucket.warmed cfg.degradation.warmThreshold

theorem correction_eq (h : Learned cfg jobs m) {n : NodeId} {st : NodeLearningState Rat}
    (hst : m.mNodeStates.lookup n = some st) (job : Job) :
    m.correction st job n =
      clampf (corrections cfg jobs m.mDegradationEnabled n job.jobClass job.queueDepthAtDispatch)
        cfg.minMultiplier cfg.maxMultiplier := by
  have hnode := (h.node n).1
  unfold nodeStateOrDefault at hnode
  rw [hst, Option.getD_some] at hnode
  unfold correction corrections
  rw [h.affinity_get, h.degradation_get hst, hnode, h.mConfig]
  dsimp only
  split
  · rfl
  · rw [mul_one]

/-- A node that has a state is warm when its count is. -/
theorem isWarmState_iff (h : Learned cfg jobs m) {n : NodeId} {st : NodeLearningState Rat}
    (hst : m.mNodeStates.lookup n = some st) :
    m.isWarmState st = true ↔ ¬Cold cfg (ratios (onNode n) jobs).length := by
  have hnode := (h.node n).2
  unfold nodeStateOrDefault at hnode
  rw [hst, Option.getD_some] at hnode
  have hsome : (ratios (onNode n) jobs).length ≠ 0 := by
    intro hlength
    rw [(h.unknown_iff n).mpr (List.length_eq_zero_iff.mp hlength)] at hst
    cases hst
  unfold isWarmState Cold
  rw [decide_eq_true_eq, h.mConfig, hnode, not_or, not_lt]
  exact ⟨fun hle => ⟨hsome, hle⟩, And.right⟩

/-- A node without a state has completed nothing. -/
theorem cold_of_unknown (h : Learned cfg jobs m) {n : NodeId}
    (hst : m.mNodeStates.lookup n = none) : Cold cfg (ratios (onNode n) jobs).length := by
  rw [(h.unknown_iff n).mp hst]
  exact Or.inl rfl

/-- What `predict` answers, as a function of the run. -/
theorem predict_eq (h : Learned cfg jobs m) (job : Job) (n : NodeId) :
    m.predict job n =
      if Cold cfg (ratios (onNode n) jobs).length then job.estimatedCost
      else
        ⌊(job.estimatedCost : Rat) *
          clampf (corrections cfg jobs m.mDegradationEnabled n job.jobClass
            job.queueDepthAtDispatch) cfg.minMultiplier cfg.maxMultiplier + 1 / 2⌋.toNat := by
  unfold predict
  cases hst : m.mNodeStates.lookup n with
  -- an unknown node has no observations, and its jobs keep their estimate
  | none => rw [if_pos (h.cold_of_unknown hst)]
  | some st =>
      have hwarm := h.isWarmState_iff hst
      by_cases hcold : Cold cfg (ratios (onNode n) jobs).length
      · rw [if_pos hcold]
        exact if_neg fun htrue => hwarm.mp htrue hcold
      · rw [if_neg hcold, ← h.correction_eq hst]
        exact if_pos (hwarm.mpr hcold)

end Learned

/-! ## Between the estimate and what was observed

A prediction is an integer, so that it lies between two bounds up to its rounding. -/

/-- `predicted` is a rounded value between `a` and `b`. -/
def UpToRounding (predicted : Cost) (a b : Rat) : Prop :=
  ∃ x : Rat, min a b ≤ x ∧ x ≤ max a b ∧ |(predicted : Rat) - x| ≤ 1 / 2

/-- Rounding to the nearest integer is off by a half at most. -/
theorem abs_round_sub_le {x : Rat} (hx : 0 ≤ x) : |((⌊x + 1 / 2⌋.toNat : Nat) : Rat) - x| ≤ 1 / 2 := by
  have hfloor : 0 ≤ ⌊x + 1 / 2⌋ := Int.floor_nonneg.mpr (by linarith)
  have hcast : ((⌊x + 1 / 2⌋.toNat : Nat) : Rat) = (⌊x + 1 / 2⌋ : Int) := by
    rw [← Int.cast_natCast, Int.toNat_of_nonneg hfloor]
  have hle := Int.floor_le (x + 1 / 2)
  have hlt := Int.lt_floor_add_one (x + 1 / 2)
  rw [hcast, abs_le]
  exact ⟨by linarith, by linarith⟩

/-- Rounded products lie between the estimate and its multiple by `r`, for every estimate, exactly
when the multiplier lies between 1 and `r`. -/
theorem upToRounding_iff {m r : Rat} (hm : 0 < m) :
    (∀ e : Nat, UpToRounding ⌊(e : Rat) * m + 1 / 2⌋.toNat e (r * e)) ↔
      min 1 r ≤ m ∧ m ≤ max 1 r := by
  have hscale : ∀ e : Nat, min (e : Rat) (r * e) = e * min 1 r ∧
      max (e : Rat) (r * e) = e * max 1 r := by
    intro e
    have he : (0 : Rat) ≤ e := Nat.cast_nonneg e
    rw [mul_min_of_nonneg 1 r he, mul_max_of_nonneg 1 r he, mul_one, mul_comm r]
    exact ⟨rfl, rfl⟩
  constructor
  · intro h
    -- an estimate that makes the distance larger than the rounding
    constructor
    · by_contra hlt
      have hgap : 0 < min 1 r - m := sub_pos.mpr (not_le.mp hlt)
      obtain ⟨e, he⟩ := exists_nat_gt (1 / (min 1 r - m))
      rw [div_lt_iff₀ hgap] at he
      obtain ⟨x, hlow, -, hx⟩ := h e
      rw [(hscale e).1] at hlow
      have hround := abs_round_sub_le (mul_nonneg (Nat.cast_nonneg e) hm.le)
      rw [abs_le] at hx hround
      linarith
    · by_contra hlt
      have hgap : 0 < m - max 1 r := sub_pos.mpr (not_le.mp hlt)
      obtain ⟨e, he⟩ := exists_nat_gt (1 / (m - max 1 r))
      rw [div_lt_iff₀ hgap] at he
      obtain ⟨x, -, hhigh, hx⟩ := h e
      rw [(hscale e).2] at hhigh
      have hround := abs_round_sub_le (mul_nonneg (Nat.cast_nonneg e) hm.le)
      rw [abs_le] at hx hround
      linarith
  · rintro ⟨hlow, hhigh⟩ e
    have he : (0 : Rat) ≤ e := Nat.cast_nonneg e
    refine ⟨e * m, ?_, ?_, abs_round_sub_le (mul_nonneg he hm.le)⟩
    · rw [(hscale e).1]
      exact mul_le_mul_of_nonneg_left hlow he
    · rw [(hscale e).2]
      exact mul_le_mul_of_nonneg_left hhigh he

/-! ## When the corrections stay within what was observed

All completions on the node alike: the averages are then functions of the number of completions, and
the product of the three can be compared with the ratio. -/

/-- Learning rates and clamps as the configuration documents them. -/
structure LearningRates (cfg : CostModelConfig Rat) : Prop where
  node_pos : 0 < cfg.nodeAlpha
  node_le : cfg.nodeAlpha ≤ 1
  cell_pos : 0 < cfg.affinity.alpha
  cell_le : cfg.affinity.alpha ≤ 1
  bucket_pos : 0 < cfg.degradation.alpha
  bucket_le : cfg.degradation.alpha ≤ 1
  min_le : cfg.minMultiplier ≤ 1
  le_max : 1 ≤ cfg.maxMultiplier

/-- Every completion on the node has the class `c`, the depth `d` and the ratio `r`. -/
def Uniform (jobs : List Job) (n : NodeId) (c : JobClass) (d : Nat) (r : Rat) : Prop :=
  ∀ job ∈ jobs, informative job = true → job.executedBy = n →
    job.jobClass = c ∧ job.queueDepthAtDispatch = d ∧ (job.observedCost : Rat) = r * job.estimatedCost

/-- No completion of another node is clamped into the affinity cell of the node. -/
def OwnCell (cfg : CostModelConfig Rat) (jobs : List Job) (n : NodeId) (c : JobClass) : Prop :=
  ∀ job ∈ jobs, informative job = true → inCell cfg.affinity n c job = true → job.executedBy = n

/-- The number of informative completions on the node. -/
def completions (n : NodeId) (jobs : List Job) : Nat :=
  jobs.countP fun job => informative job && onNode n job

/-- The weights that `k` completions have given the node, the cell and the bucket. -/
def nodeWeight (cfg : CostModelConfig Rat) (k : Nat) : Rat := Ema.weight cfg.nodeAlpha k

/-- The weight of the cell, 0 while it is cold. -/
def cellWeight (cfg : CostModelConfig Rat) (k : Nat) : Rat :=
  if k % 2 ^ 32 < cfg.affinity.warmThreshold then 0 else Ema.weight cfg.affinity.alpha k

/-- The weight of the bucket, 0 while it is cold or the curve is switched off. -/
def bucketWeight (cfg : CostModelConfig Rat) (enabled : Bool) (k : Nat) : Rat :=
  if enabled then
    if k % 2 ^ 32 < cfg.degradation.warmThreshold then 0 else Ema.weight cfg.degradation.alpha k
  else 0

/-- The node is cold; or the ratio is the clamp on its side of 1, or 1 itself; or the three weights
together do not pass 1. -/
def Calibrated (cfg : CostModelConfig Rat) (enabled : Bool) (r : Rat) (k : Nat) : Prop :=
  Cold cfg k ∨ r = 1 ∨ r = (if 1 < r then cfg.maxMultiplier else cfg.minMultiplier) ∨
    Ema.compoundWeight (r - 1) (nodeWeight cfg k) (cellWeight cfg k) (bucketWeight cfg enabled k) ≤ 1

/-- The same when others share the cell: its average `a` is then no function of `k` and `r`. -/
def CalibratedWith (cfg : CostModelConfig Rat) (enabled : Bool) (r a : Rat) (k : Nat) : Prop :=
  let product := (1 + nodeWeight cfg k * (r - 1)) * a * (1 + bucketWeight cfg enabled k * (r - 1))
  Cold cfg k ∨
    (min 1 r ≤ product ∨ cfg.minMultiplier = min 1 r) ∧
      (product ≤ max 1 r ∨ cfg.maxMultiplier = max 1 r)

/-- As many ratios as completions. -/
theorem length_ratios (n : NodeId) (jobs : List Job) :
    (ratios (onNode n) jobs).length = completions n jobs := by
  unfold ratios completions
  rw [List.length_map, List.countP_eq_length_filter]

/-- Estimators that learn from the same completions have seen the same. -/
theorem ratios_congr {learns learns' : Job → Bool} {jobs : List Job}
    (h : ∀ job ∈ jobs, informative job = true → learns job = learns' job) :
    ratios learns jobs = ratios learns' jobs := by
  unfold ratios
  congr 1
  apply List.filter_congr
  intro job hjob
  by_cases hinf : informative job = true
  · rw [h job hjob hinf]
  · rw [Bool.not_eq_true] at hinf
    rw [hinf, Bool.false_and, Bool.false_and]

namespace Uniform

variable {cfg : CostModelConfig Rat} {jobs : List Job} {n : NodeId} {c : JobClass} {d : Nat}
  {r : Rat}

/-- Of the node, all alike. -/
theorem ratios_onNode (h : Uniform jobs n c d r) :
    ratios (onNode n) jobs = List.replicate (completions n jobs) r := by
  rw [← length_ratios, List.eq_replicate_iff]
  refine ⟨rfl, ?_⟩
  intro ρ hρ
  obtain ⟨job, hjob, rfl⟩ := List.mem_map.mp hρ
  obtain ⟨hmem, hlearns⟩ := List.mem_filter.mp hjob
  rw [Bool.and_eq_true] at hlearns
  obtain ⟨-, -, hratio⟩ := h job hmem hlearns.1 (of_decide_eq_true hlearns.2)
  have hcost : (job.estimatedCost : Rat) ≠ 0 := by
    intro hzero
    have hpos := ratio_pos hlearns.1
    show False
    simp only [ratio, FloatOps.ofUInt64, hzero, div_zero, lt_self_iff_false] at hpos
  exact (div_eq_iff hcost).mpr hratio

/-- Of the bucket, all alike. -/
theorem ratios_inBucket (h : Uniform jobs n c d r) (cfg : DegradationCurveConfig Rat) :
    ratios (inBucket cfg n d) jobs = ratios (onNode n) jobs := by
  apply ratios_congr
  intro job hjob hinf
  by_cases hn : job.executedBy = n
  · obtain ⟨-, hdepth, -⟩ := h job hjob hinf hn
    simp [inBucket, onNode, hdepth]
  · simp [inBucket, onNode, hn]

/-- Of the cell, all alike when nobody shares it. -/
theorem ratios_inCell (h : Uniform jobs n c d r) (hown : OwnCell cfg jobs n c) :
    ratios (inCell cfg.affinity n c) jobs = ratios (onNode n) jobs := by
  apply ratios_congr
  intro job hjob hinf
  by_cases hn : job.executedBy = n
  · obtain ⟨hclass, -, -⟩ := h job hjob hinf hn
    simp [inCell, onNode, hn, hclass]
  · have hout : inCell cfg.affinity n c job = false := by
      rw [← Bool.not_eq_true]
      exact fun hin => hn (hown job hjob hinf hin)
    simp [onNode, hn, hout]

/-- The ratio of a node that has completed something is positive. -/
theorem ratio_pos (h : Uniform jobs n c d r) (hk : completions n jobs ≠ 0) : 0 < r := by
  apply ratios_pos (onNode n) jobs
  rw [h.ratios_onNode]
  exact List.mem_replicate.mpr ⟨hk, rfl⟩

/-- What the three corrections have become. -/
theorem corrections_eq (h : Uniform jobs n c d r) (cfg : CostModelConfig Rat) (enabled : Bool) :
    corrections cfg jobs enabled n c d =
      (1 + nodeWeight cfg (completions n jobs) * (r - 1)) *
        warmed cfg.affinity.warmThreshold cfg.affinity.alpha
          (ratios (inCell cfg.affinity n c) jobs) *
        (1 + bucketWeight cfg enabled (completions n jobs) * (r - 1)) := by
  unfold corrections
  rw [h.ratios_inBucket, h.ratios_onNode, Ema.average_replicate]
  congr 1
  unfold bucketWeight warmed
  rw [List.length_replicate, Ema.average_replicate]
  split
  · split
    · rw [zero_mul, add_zero]
    · rfl
  · rw [zero_mul, add_zero]

/-- What the cell contributes. -/
theorem warmed_inCell (h : Uniform jobs n c d r) (hown : OwnCell cfg jobs n c) :
    warmed cfg.affinity.warmThreshold cfg.affinity.alpha (ratios (inCell cfg.affinity n c) jobs) =
      1 + cellWeight cfg (completions n jobs) * (r - 1) := by
  rw [h.ratios_inCell hown, h.ratios_onNode]
  unfold warmed cellWeight
  rw [List.length_replicate, Ema.average_replicate]
  split
  · rw [zero_mul, add_zero]
  · rfl

end Uniform

/-- A clamp whose bounds lie outside an interval leads into it only from inside, or when it is the
end of the interval itself. -/
theorem clampf_between_iff {v lo hi a b : Rat} (hlo : lo ≤ a) (hab : a ≤ b) (hhi : b ≤ hi) :
    a ≤ clampf v lo hi ∧ clampf v lo hi ≤ b ↔ (a ≤ v ∨ lo = a) ∧ (v ≤ b ∨ hi = b) := by
  have hclamp : clampf v lo hi = if v < lo then lo else if hi < v then hi else v := by
    simp only [clampf, FloatOps.lt, decide_eq_true_eq]
  rw [hclamp]
  -- below, above, or within the clamp
  by_cases hlow : v < lo
  · rw [if_pos hlow]
    constructor
    · rintro ⟨hle, -⟩
      exact ⟨Or.inr (le_antisymm hlo hle), Or.inl (by linarith)⟩
    · rintro ⟨hle | heq, -⟩
      · linarith
      · exact ⟨heq.ge, hlo.trans hab⟩
  · rw [if_neg hlow]
    by_cases hhigh : hi < v
    · rw [if_pos hhigh]
      constructor
      · rintro ⟨-, hle⟩
        exact ⟨Or.inl (by linarith), Or.inr (le_antisymm hle hhi)⟩
      · rintro ⟨-, hle | heq⟩
        · linarith
        · exact ⟨hab.trans hhi, heq.le⟩
    · rw [if_neg hhigh]
      constructor
      · rintro ⟨hle, hle'⟩
        exact ⟨Or.inl hle, Or.inl hle'⟩
      · rintro ⟨hle | heq, hle' | heq'⟩ <;> exact ⟨by linarith, by linarith⟩

/-- A positive number clamped into a positive range. -/
theorem clampf_pos {v lo hi : Rat} (hv : 0 < v) (hhi : 0 < hi) : 0 < clampf v lo hi := by
  simp only [clampf, FloatOps.lt, decide_eq_true_eq]
  split
  · next hlt => exact hv.trans hlt
  · split
    · exact hhi
    · exact hv

/-- All corrections are positive. -/
theorem LearningRates.corrections_pos {cfg : CostModelConfig Rat} (h : LearningRates cfg)
    (jobs : List Job) (enabled : Bool) (n : NodeId) (c : JobClass) (d : Nat) :
    0 < corrections cfg jobs enabled n c d := by
  have hwarmed : ∀ {α : Rat} (threshold : Nat) (learns : Job → Bool), 0 < α → α ≤ 1 →
      0 < warmed threshold α (ratios learns jobs) := by
    intro α threshold learns hpos hle
    unfold warmed
    split
    · exact zero_lt_one
    · exact Ema.average_pos hpos hle (ratios_pos learns jobs)
  unfold corrections
  apply mul_pos
  · exact mul_pos (Ema.average_pos h.node_pos h.node_le (ratios_pos _ jobs))
      (hwarmed _ _ h.cell_pos h.cell_le)
  · split
    · exact hwarmed _ _ h.bucket_pos h.bucket_le
    · exact zero_lt_one

/-- The weights of a run lie between 0 and 1. -/
theorem LearningRates.compoundWeight_nonneg {cfg : CostModelConfig Rat} (h : LearningRates cfg)
    (enabled : Bool) {r : Rat} (hr : 0 < r) (k : Nat) :
    0 ≤ Ema.compoundWeight (r - 1) (nodeWeight cfg k) (cellWeight cfg k)
      (bucketWeight cfg enabled k) := by
  have hcell : 0 ≤ cellWeight cfg k ∧ cellWeight cfg k ≤ 1 := by
    unfold cellWeight
    split
    · exact ⟨le_refl 0, zero_le_one⟩
    · exact ⟨Ema.weight_nonneg h.cell_pos h.cell_le k, Ema.weight_le_one h.cell_le k⟩
  have hbucket : 0 ≤ bucketWeight cfg enabled k ∧ bucketWeight cfg enabled k ≤ 1 := by
    unfold bucketWeight
    split
    · split
      · exact ⟨le_refl 0, zero_le_one⟩
      · exact ⟨Ema.weight_nonneg h.bucket_pos h.bucket_le k, Ema.weight_le_one h.bucket_le k⟩
    · exact ⟨le_refl 0, zero_le_one⟩
  exact Ema.compoundWeight_nonneg (by linarith) (Ema.weight_nonneg h.node_pos h.node_le k)
    (Ema.weight_le_one h.node_le k) hcell.1 hcell.2 hbucket.1 hbucket.2

/-- With a cell of its own the node's weights decide. -/
theorem calibratedWith_iff {cfg : CostModelConfig Rat} (hcfg : LearningRates cfg) (enabled : Bool)
    {r : Rat} {k : Nat} (hr : k ≠ 0 → 0 < r) :
    CalibratedWith cfg enabled r (1 + cellWeight cfg k * (r - 1)) k ↔
      Calibrated cfg enabled r k := by
  unfold CalibratedWith Calibrated
  dsimp only
  rw [Ema.compound_eq]
  by_cases hcold : Cold cfg k
  · exact ⟨fun _ => Or.inl hcold, fun _ => Or.inl hcold⟩
  · have hpos : 0 < r := hr fun hzero => hcold (Or.inl hzero)
    have hweight := hcfg.compoundWeight_nonneg enabled hpos k
    generalize Ema.compoundWeight (r - 1) (nodeWeight cfg k) (cellWeight cfg k)
      (bucketWeight cfg enabled k) = w at hweight
    rw [or_iff_right hcold, or_iff_right hcold]
    -- faster than estimated, as estimated, slower
    rcases lt_trichotomy r 1 with hlt | rfl | hgt
    · -- the estimate is never passed; the ratio is, unless the weight or the clamp forbids it
      have hbetween := Ema.between_iff hweight (sub_ne_zero.mpr hlt.ne)
      rw [add_sub_cancel] at hbetween
      have hle : 1 + w * (r - 1) ≤ max 1 r := by
        have hdown := mul_nonpos_of_nonneg_of_nonpos hweight (sub_nonpos.mpr hlt.le)
        exact le_max_of_le_left (by linarith)
      rw [← hbetween, if_neg hlt.not_gt, min_eq_right hlt.le]
      constructor
      · rintro ⟨hlow | heq, -⟩
        · exact Or.inr (Or.inr ⟨hlow, hle⟩)
        · exact Or.inr (Or.inl heq.symm)
      · rintro (heq | heq | hin)
        · exact absurd heq hlt.ne
        · exact ⟨Or.inr heq.symm, Or.inl hle⟩
        · exact ⟨Or.inl hin.1, Or.inl hle⟩
    · simp
    · have hbetween := Ema.between_iff hweight (sub_ne_zero.mpr hgt.ne')
      rw [add_sub_cancel] at hbetween
      have hge : min 1 r ≤ 1 + w * (r - 1) := by
        have hup := mul_nonneg hweight (sub_nonneg.mpr hgt.le)
        exact min_le_of_left_le (by linarith)
      rw [← hbetween, if_pos hgt, max_eq_right hgt.le]
      constructor
      · rintro ⟨-, hhigh | heq⟩
        · exact Or.inr (Or.inr ⟨hge, hhigh⟩)
        · exact Or.inr (Or.inl heq.symm)
      · rintro (heq | heq | hin)
        · exact absurd heq hgt.ne'
        · exact ⟨Or.inl hge, Or.inr heq.symm⟩
        · exact ⟨Or.inl hge, Or.inl hin.2⟩

/-- The predictions for the class and the depth lie between the estimate and `r` times it. -/
def PredictsWithin (m : CostModel Rat) (n : NodeId) (c : JobClass) (d : Nat) (r : Rat) : Prop :=
  ∀ job : Job, job.jobClass = c → job.queueDepthAtDispatch = d →
    UpToRounding (m.predict job n) job.estimatedCost (r * job.estimatedCost)

/-- **The compounded corrections pass the observed ratio unless their weights are small.**  After any
run in which the completions on a node agree, the predictions stay between the estimate and the
observed multiple of it exactly when the node is cold or the weights of the run keep the product
there; if no other node trains the affinity cell, that is decided by the learning rates, the ratio
and the number of completions. -/
theorem predictsWithin_iff {cfg : CostModelConfig Rat} (hcfg : LearningRates cfg) {jobs : List Job}
    {n : NodeId} {c : JobClass} {d : Nat} {r : Rat} (h : Uniform jobs n c d r)
    (hmin : cfg.minMultiplier ≤ r) (hmax : r ≤ cfg.maxMultiplier) (enabled : Bool) :
    (PredictsWithin (trained cfg jobs enabled) n c d r ↔
      CalibratedWith cfg enabled r
        (warmed cfg.affinity.warmThreshold cfg.affinity.alpha
          (ratios (inCell cfg.affinity n c) jobs)) (completions n jobs)) ∧
    (OwnCell cfg jobs n c →
      (PredictsWithin (trained cfg jobs enabled) n c d r ↔
        Calibrated cfg enabled r (completions n jobs))) := by
  have hwithin : PredictsWithin (trained cfg jobs enabled) n c d r ↔
      CalibratedWith cfg enabled r
        (warmed cfg.affinity.warmThreshold cfg.affinity.alpha
          (ratios (inCell cfg.affinity n c) jobs)) (completions n jobs) := by
    unfold CalibratedWith
    dsimp only
    rw [← h.corrections_eq cfg enabled]
    have hpredict : ∀ job : Job, job.jobClass = c → job.queueDepthAtDispatch = d →
        (trained cfg jobs enabled).predict job n =
          if Cold cfg (completions n jobs) then job.estimatedCost
          else
            ⌊(job.estimatedCost : Rat) * clampf (corrections cfg jobs enabled n c d)
              cfg.minMultiplier cfg.maxMultiplier + 1 / 2⌋.toNat := by
      rintro job rfl rfl
      rw [← length_ratios]
      exact (learned_trained cfg jobs enabled).predict_eq job n
    by_cases hcold : Cold cfg (completions n jobs)
    · refine ⟨fun _ => Or.inl hcold, fun _ job hclass hdepth => ?_⟩
      rw [hpredict job hclass hdepth, if_pos hcold]
      refine ⟨job.estimatedCost, min_le_left _ _, le_max_left _ _, ?_⟩
      rw [sub_self, abs_zero]
      norm_num
    · rw [or_iff_right hcold, ← clampf_between_iff (le_min hcfg.min_le hmin) (min_le_max)
        (max_le hcfg.le_max hmax), ← upToRounding_iff (clampf_pos
          (hcfg.corrections_pos jobs enabled n c d) (zero_lt_one.trans_le hcfg.le_max))]
      -- the estimate is any number, since a job may carry any
      constructor
      · intro hwithin e
        have he := hwithin { jobClass := c, queueDepthAtDispatch := d, estimatedCost := e } rfl rfl
        rw [hpredict _ rfl rfl, if_neg hcold] at he
        exact he
      · intro hall job hclass hdepth
        rw [hpredict job hclass hdepth, if_neg hcold]
        exact hall job.estimatedCost
  refine ⟨hwithin, fun hown => ?_⟩
  rw [hwithin, h.warmed_inCell hown]
  exact calibratedWith_iff hcfg enabled h.ratio_pos

/-- A completion that took twice its estimate. -/
def twiceAsSlow : Job :=
  { estimatedCost := 100, observedCost := 200, executedBy := 1 }

theorem uniform_twiceAsSlow (k : Nat) : Uniform (List.replicate k twiceAsSlow) 1 0 0 2 := by
  intro job hjob _ _
  rw [List.eq_of_mem_replicate hjob]
  refine ⟨rfl, rfl, ?_⟩
  show ((200 : Nat) : Rat) = 2 * (100 : Nat)
  norm_num

theorem ownCell_twiceAsSlow (cfg : CostModelConfig Rat) (k : Nat) :
    OwnCell cfg (List.replicate k twiceAsSlow) 1 0 := by
  intro job hjob _ _
  rw [List.eq_of_mem_replicate hjob]
  rfl

/-- Node, cell and bucket each learn a hundredth at a time. -/
def slowLearner : CostModelConfig Rat where
  nodeAlpha := 1 / 100
  affinity := { alpha := 1 / 100 }
  degradation := { alpha := 1 / 100 }

/-- Twenty completions warm all three, and together they stay below twice the estimate. -/
theorem predictsWithin_twenty :
    ¬Cold slowLearner 20 ∧ 0 < cellWeight slowLearner 20 ∧ 0 < bucketWeight slowLearner true 20 ∧
      PredictsWithin (trained slowLearner (List.replicate 20 twiceAsSlow) true) 1 0 0 2 := by
  have hcfg : LearningRates slowLearner := by constructor <;> decide +kernel
  refine ⟨by decide +kernel, by decide +kernel, by decide +kernel, ?_⟩
  apply ((predictsWithin_iff hcfg (uniform_twiceAsSlow 20) (by decide +kernel) (by decide +kernel)
    true).2 ?_).mpr
  · exact Or.inr (Or.inr (Or.inr (by decide +kernel)))
  · exact ownCell_twiceAsSlow _ 20

/-- 382 is no rounded value between 100 and 200. -/
theorem not_upToRounding_382 : ¬UpToRounding 382 ((100 : Nat) : Rat) (2 * ((100 : Nat) : Rat)) := by
  rintro ⟨x, -, hhigh, hx⟩
  have hmax : max ((100 : Nat) : Rat) (2 * ((100 : Nat) : Rat)) = 200 := by norm_num
  rw [hmax] at hhigh
  have hcast : ((382 : Cost) : Rat) = 382 := by norm_num
  rw [abs_le, hcast] at hx
  linarith

theorem predict_twiceAsSlow :
    (trained ({} : CostModelConfig Rat) (List.replicate 10 twiceAsSlow) true).predict
      { estimatedCost := 100 } 1 = 382 := by
  have huniform := uniform_twiceAsSlow 10
  have hcorrections := huniform.corrections_eq {} true
  rw [huniform.warmed_inCell (ownCell_twiceAsSlow {} 10)] at hcorrections
  have hpredict := (learned_trained {} (List.replicate 10 twiceAsSlow) true).predict_eq
    { estimatedCost := 100 } 1
  have hcompletions : completions 1 (List.replicate 10 twiceAsSlow) = 10 := by decide
  rw [length_ratios, hcompletions] at hpredict
  rw [hcompletions] at hcorrections
  rw [hpredict]
  have henabled : (trained ({} : CostModelConfig Rat) (List.replicate 10 twiceAsSlow)
      true).mDegradationEnabled = true := rfl
  rw [henabled]
  dsimp only
  rw [hcorrections]
  decide +kernel

/-- **The three corrections overshoot.**  With the default configuration ten completions at twice
the estimate make `predict` answer almost four times the estimate. -/
theorem predict_overshoots :
    LearningRates {} ∧ (1 / 10 : Rat) ≤ 2 ∧ (2 : Rat) ≤ 10 ∧
      Uniform (List.replicate 10 twiceAsSlow) 1 0 0 2 ∧
      (trained ({} : CostModelConfig Rat) (List.replicate 10 twiceAsSlow) true).predict
        { estimatedCost := 100 } 1 = 382 ∧
      ¬PredictsWithin (trained {} (List.replicate 10 twiceAsSlow) true) 1 0 0 2 := by
  have hcfg : LearningRates {} := by
    constructor <;> decide +kernel
  refine ⟨hcfg, by norm_num, by norm_num, uniform_twiceAsSlow 10, predict_twiceAsSlow,
    fun hwithin => ?_⟩
  have hbetween := hwithin { estimatedCost := 100 } rfl rfl
  rw [predict_twiceAsSlow] at hbetween
  exact not_upToRounding_382 hbetween

end CostModel

end FatpBalancer
