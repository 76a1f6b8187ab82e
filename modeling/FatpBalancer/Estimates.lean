/-
# What each estimator has learned from its own observations

Every update is routed three ways: to its node, to the affinity cell that the node and the class are
clamped into, and to the bucket of its queue depth.  Each estimator lies between 1 and the ratios
routed to it, and counts them in 32 bits.

`LearnsFrom` is what is asked of one estimator, and `Tracks`, from `Calibration`, what it satisfies;
the two differ where the count has wrapped, which makes a warm estimator cold again.  `CountsFit` is
therefore the exact condition, and it is on the run alone.
-/
import FatpBalancer.Calibration

namespace FatpBalancer

namespace CostModel

/-- The learning rates are in (0, 1]. -/
structure RatesInRange (cfg : CostModelConfig Rat) : Prop where
  node_pos : 0 < cfg.nodeAlpha
  node_le : cfg.nodeAlpha ≤ 1
  cell_pos : 0 < cfg.affinity.alpha
  cell_le : cfg.affinity.alpha ≤ 1
  bucket_pos : 0 < cfg.degradation.alpha
  bucket_le : cfg.degradation.alpha ≤ 1

/-- The completions on a node that share a bucket. -/
def inBucketAt (cfg : DegradationCurveConfig Rat) (n : NodeId) (b : Fin kMaxBuckets)
    (job : Job) : Bool :=
  job.executedBy = n && bucketOf cfg job.queueDepthAtDispatch = b

/-- An estimator that has learned from exactly these observations. -/
structure LearnsFrom (value : Rat) (observations : Nat) (α : Rat) (seen : List Rat) : Prop where
  spanned : Ema.Spanned value (1 :: seen)
  counted : observations = seen.length
  settled : ∀ r, (∀ ρ ∈ seen, ρ = r) → value = r + (1 - α) ^ seen.length * (1 - r)
  neutral : seen = [] → value = 1

/-- Every estimator has learned from the observations that are routed to it. -/
structure LearnsRouted (cfg : CostModelConfig Rat) (jobs : List Job) (m : CostModel Rat) : Prop where
  node : ∀ n, LearnsFrom (m.nodeStateOrDefault n).throughputMultiplier.value
    (m.nodeStateOrDefault n).observationCount cfg.nodeAlpha (ratios (onNode n) jobs)
  cell : ∀ r c, r < cfg.affinity.maxNodes → c < cfg.affinity.maxJobClasses →
    LearnsFrom (m.mAffinityMatrix.mValues r c) (m.mAffinityMatrix.mObservations r c)
      cfg.affinity.alpha (ratios (inCell cfg.affinity r c) jobs)
  bucket : ∀ n b,
    LearnsFrom ((m.nodeStateOrDefault n).degradation.buckets b).multiplier.value
      ((m.nodeStateOrDefault n).degradation.buckets b).observations cfg.degradation.alpha
      (ratios (inBucketAt cfg.degradation n b) jobs)

/-- No node and no cell receives more observations than its counter can hold. -/
structure CountsFit (cfg : CostModelConfig Rat) (jobs : List Job) : Prop where
  node : ∀ n, (ratios (onNode n) jobs).length < 2 ^ 32
  cell : ∀ r c, r < cfg.affinity.maxNodes → c < cfg.affinity.maxJobClasses →
    (ratios (inCell cfg.affinity r c) jobs).length < 2 ^ 32

/-! ## One estimator

With at most 2³² − 1 observations the count is their number. -/

theorem Tracks.settled {value : Rat} {observations : Nat} {α : Rat} {seen : List Rat}
    (h : Tracks value observations α seen) {r : Rat} (hr : ∀ ρ ∈ seen, ρ = r) :
    value = r + (1 - α) ^ seen.length * (1 - r) := by
  rw [h.1, List.eq_replicate_of_mem hr, Ema.average_replicate, List.length_replicate]
  unfold Ema.weight
  ring

/-- An estimator that tracks its observations has learned from them as long as its counter holds
their number. -/
theorem Tracks.learnsFrom_iff {value : Rat} {observations : Nat} {α : Rat} {seen : List Rat}
    (h : Tracks value observations α seen) (hpos : 0 < α) (hle : α ≤ 1) :
    LearnsFrom value observations α seen ↔ seen.length < 2 ^ 32 := by
  constructor
  · intro hlearns
    rw [← hlearns.counted, h.2]
    exact Nat.mod_lt _ (by decide)
  · intro hfit
    refine ⟨?_, ?_, fun r hr => h.settled hr, ?_⟩
    · rw [h.1]
      exact Ema.average_spanned hpos.le hle 1 seen
    · rw [h.2, Nat.mod_eq_of_lt hfit]
    · rintro rfl
      exact h.1

/-! ## Every bucket

Also those that no configured depth indexes, which stay as they were. -/

/-- A bucket that no queue depth indexes is left as it was. -/
theorem bucket_of_unused {cfg : CostModelConfig Rat} {b : Fin kMaxBuckets}
    (hb : ∀ d, bucketOf cfg.degradation d ≠ b) (jobs : List Job) (n : NodeId) :
    ((jobs.foldl CostModel.update (create cfg)).nodeStateOrDefault n).degradation.buckets b =
      {} := by
  induction jobs using List.reverseRecOn with
  | nil => rfl
  | append_singleton jobs job ih =>
      rw [List.foldl_append, List.foldl_cons, List.foldl_nil]
      have hlearned := learned_run cfg jobs
      generalize jobs.foldl CostModel.update (create cfg) = m at hlearned ih ⊢
      by_cases hinf : informative job = true
      · rw [m.nodeStateOrDefault_update hinf]
        split
        · next hn =>
            obtain ⟨curve, hconfigured, hbuckets, hlearn⟩ :=
              learnNode_degradation (hlearned.configured_of_counted job.executedBy)
                job.queueDepthAtDispatch (ratio job)
            have hother : b ≠ curve.bucketIndex job.queueDepthAtDispatch := by
              rw [hconfigured.bucketIndex_eq]
              exact (hb _).symm
            rw [hlearned.mConfig, hlearn]
            simp only [DegradationCurve.update, Function.update_apply, if_neg hother, hbuckets]
            rw [← hn]
            exact ih
        · exact ih
      · have hskip : m.update job = m := if_neg hinf
        rw [hskip]
        exact ih

theorem tracks_bucket (cfg : CostModelConfig Rat) (jobs : List Job) (n : NodeId)
    (b : Fin kMaxBuckets) :
    let bucket := ((jobs.foldl CostModel.update (create cfg)).nodeStateOrDefault n).degradation.buckets b
    Tracks bucket.multiplier.value bucket.observations cfg.degradation.alpha
      (ratios (inBucketAt cfg.degradation n b) jobs) := by
  by_cases hused : ∃ d, bucketOf cfg.degradation d = b
  · obtain ⟨d, rfl⟩ := hused
    exact (learned_run cfg jobs).bucket n d
  · have hb : ∀ d, bucketOf cfg.degradation d ≠ b := fun d hd => hused ⟨d, hd⟩
    have hnone : ratios (inBucketAt cfg.degradation n b) jobs = [] := by
      unfold ratios
      rw [List.filter_eq_nil_iff.mpr, List.map_nil]
      intro job _
      simp [inBucketAt, hb]
    rw [hnone, bucket_of_unused hb jobs n]
    exact tracks_nil _

/-- A node's bucket receives no more than the node. -/
theorem length_inBucketAt_le (cfg : CostModelConfig Rat) (jobs : List Job) (n : NodeId)
    (b : Fin kMaxBuckets) :
    (ratios (inBucketAt cfg.degradation n b) jobs).length ≤ (ratios (onNode n) jobs).length := by
  unfold ratios
  rw [List.length_map, List.length_map]
  apply (List.monotone_filter_right jobs _).length_le
  intro job hjob
  simp only [inBucketAt, onNode, Bool.and_eq_true] at hjob ⊢
  exact ⟨hjob.1, hjob.2.1⟩

/-! ## The whole model

All nodes, cells and buckets at once. -/

/-- **Every estimator learns from what is routed to it, as long as the counters hold.**  With rates
in (0, 1], after any updates: each node, cell and bucket lies between 1 and the ratios routed to it,
has counted them, and is where equal ratios leave it, if and only if no node and no cell has received
2^32 observations. -/
theorem learnsRouted_iff {cfg : CostModelConfig Rat} (hcfg : RatesInRange cfg) (jobs : List Job) :
    LearnsRouted cfg jobs (jobs.foldl CostModel.update (create cfg)) ↔ CountsFit cfg jobs := by
  have h := learned_run cfg jobs
  have hcell : ∀ r c, r < cfg.affinity.maxNodes → c < cfg.affinity.maxJobClasses →
      Tracks ((jobs.foldl CostModel.update (create cfg)).mAffinityMatrix.mValues r c)
        ((jobs.foldl CostModel.update (create cfg)).mAffinityMatrix.mObservations r c)
        cfg.affinity.alpha (ratios (inCell cfg.affinity r c) jobs) := by
    intro r c hr hc
    have hquery := h.cell r c
    simp only [AffinityMatrix.observations, AffinityMatrix.clampRow, AffinityMatrix.clampCol,
      AffinityMatrix.clampIndex, h.affinityConfig, if_pos hr, if_pos hc] at hquery
    exact hquery
  constructor
  · intro hlearns
    exact ⟨fun n => ((h.node n).learnsFrom_iff hcfg.node_pos hcfg.node_le).mp (hlearns.node n),
      fun r c hr hc => ((hcell r c hr hc).learnsFrom_iff hcfg.cell_pos hcfg.cell_le).mp
        (hlearns.cell r c hr hc)⟩
  · intro hfit
    refine ⟨fun n => ?_, fun r c hr hc => ?_, fun n b => ?_⟩
    · exact ((h.node n).learnsFrom_iff hcfg.node_pos hcfg.node_le).mpr (hfit.node n)
    · exact ((hcell r c hr hc).learnsFrom_iff hcfg.cell_pos hcfg.cell_le).mpr
        (hfit.cell r c hr hc)
    · apply ((tracks_bucket cfg jobs n b).learnsFrom_iff hcfg.bucket_pos hcfg.bucket_le).mpr
      exact (length_inBucketAt_le cfg jobs n b).trans_lt (hfit.node n)

theorem ratesInRange_default : RatesInRange {} := by
  constructor <;> decide +kernel

theorem ratios_replicate (learns : Job → Bool) {job : Job} (hinf : informative job = true)
    (hlearns : learns job = true) (k : Nat) :
    ratios learns (List.replicate k job) = List.replicate k (ratio job) := by
  unfold ratios
  rw [List.filter_replicate, hinf, hlearns]
  exact List.map_replicate ..

/-- Three completions at twice the estimate. -/
theorem learnsRouted_iff_three :
    LearnsRouted {} (List.replicate 3 twiceAsSlow)
      ((List.replicate 3 twiceAsSlow).foldl CostModel.update (create {})) := by
  have hle : ∀ learns : Job → Bool,
      (ratios learns (List.replicate 3 twiceAsSlow)).length < 2 ^ 32 := by
    intro learns
    have hfilter := List.length_filter_le (fun job => informative job && learns job)
      (List.replicate 3 twiceAsSlow)
    unfold ratios
    rw [List.length_map]
    rw [List.length_replicate] at hfilter
    omega
  exact (learnsRouted_iff ratesInRange_default _).mpr ⟨fun _ => hle _, fun _ _ _ _ => hle _⟩

/-- **The counters wrap.**  After 2^32 completions on a node its observation count reads 0. -/
theorem counts_wrap :
    RatesInRange {} ∧ informative twiceAsSlow = true ∧
      (((List.replicate (2 ^ 32) twiceAsSlow).foldl CostModel.update
        (create {} : CostModel Rat)).nodeStateOrDefault 1).observationCount = 0 ∧
      ¬LearnsRouted {} (List.replicate (2 ^ 32) twiceAsSlow)
        ((List.replicate (2 ^ 32) twiceAsSlow).foldl CostModel.update (create {})) := by
  have hinf : informative twiceAsSlow = true := by decide
  have hseen := ratios_replicate (onNode 1) hinf (by decide) (2 ^ 32)
  have hlength := congrArg List.length hseen
  rw [List.length_replicate] at hlength
  have htracks := ((learned_run {} (List.replicate (2 ^ 32) twiceAsSlow)).node 1).2
  rw [hlength, Nat.mod_self] at htracks
  refine ⟨ratesInRange_default, hinf, htracks, fun hlearns => ?_⟩
  have hcounted := (hlearns.node 1).counted
  rw [htracks, hlength] at hcounted
  exact absurd hcounted (by decide)

end CostModel

end FatpBalancer
