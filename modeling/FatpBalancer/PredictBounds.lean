/-
# What `predict` answers and when it can

The prediction of a warm node is its estimate times a clamped product, rounded, and so lies between
the rounded multiples of the two clamps.  The product is taken in `float` and cast to 64 bits at the
end, and nothing keeps a large estimate from passing the range of that cast.

`predict_bounds` is the two bounds, for an estimate whose product stays in range, and `FitsCost` the
exact condition on the estimate for that: the lower clamp has to stay in range, and the learned
product or else the upper clamp.  A learned product that is too large does no harm behind a clamp
that is not.
-/
import FatpBalancer.Calibration

universe u

namespace FatpBalancer

namespace CostModel

/-! ## The value that is cast

A cold node casts nothing: its prediction is the estimate. -/

/-- The floats that `static_cast<uint64_t>` can represent; any other has no defined result. -/
def Convertible (x : Rat) : Prop := -1 < x ∧ x < 2 ^ 64

/-- The float that `predict` casts for a warm node. -/
def scaled (m : CostModel Rat) (s : NodeLearningState Rat) (job : Job) (node : NodeId) : Rat :=
  FloatOps.ofUInt64 job.estimatedCost * m.correction s job node + FloatOps.lit (1 / 2)

/-- The three learned multipliers of a node, multiplied. -/
def learnedProduct (m : CostModel Rat) (job : Job) (node : NodeId) : Rat :=
  (m.nodeStateOrDefault node).throughputMultiplier.value * m.affinityScore node job.jobClass *
    if m.mDegradationEnabled then m.degradationMultiplier node job.queueDepthAtDispatch else 1

theorem isWarm_iff {m : CostModel Rat} {node : NodeId} :
    m.isWarm node = true ↔
      ∃ s, m.mNodeStates.lookup node = some s ∧ m.isWarmState s = true := by
  unfold isWarm
  rw [Option.any_eq_true]

/-- A cold node's jobs keep their estimate. -/
theorem predict_of_cold {F : Type u} [FloatOps F] {m : CostModel F} {node : NodeId}
    (hcold : m.isWarm node = false) (job : Job) : m.predict job node = job.estimatedCost := by
  unfold predict
  cases hs : m.mNodeStates.lookup node with
  | none => rfl
  | some s =>
      have hwarm : m.isWarmState s = false := by
        unfold isWarm at hcold
        rwa [hs, Option.any_some] at hcold
      simp only [hwarm, Bool.false_eq_true, if_false]

theorem predict_of_warm {m : CostModel Rat} {node : NodeId} {s : NodeLearningState Rat}
    (hs : m.mNodeStates.lookup node = some s) (hwarm : m.isWarmState s = true) (job : Job) :
    m.predict job node = ⌊m.scaled s job node⌋.toNat := by
  unfold predict
  rw [hs]
  simp only [hwarm, if_true]
  rfl

theorem scaled_eq {m : CostModel Rat} {node : NodeId} {s : NodeLearningState Rat}
    (hs : m.mNodeStates.lookup node = some s) (job : Job) :
    m.scaled s job node =
      job.estimatedCost * clampf (m.learnedProduct job node) m.mConfig.minMultiplier
        m.mConfig.maxMultiplier + 1 / 2 := by
  unfold scaled correction learnedProduct nodeStateOrDefault degradationMultiplier affinityScore
  rw [hs, Option.getD_some]
  dsimp only
  split
  · rfl
  · rw [mul_one]
    rfl

/-! ## The clamp

Two comparisons, which put the product between the bounds of a valid configuration.
-/

/-- `clampf` is `max lo (min hi v)` when the bounds are in order. -/
theorem clampf_eq {lo hi : Rat} (h : lo ≤ hi) (v : Rat) : clampf v lo hi = max lo (min v hi) := by
  simp only [clampf, FloatOps.lt, decide_eq_true_eq]
  split
  · next hlo => rw [max_eq_left (min_le_of_left_le hlo.le)]
  · next hlo =>
      split
      · next hhi => rw [min_eq_right hhi.le, max_eq_right h]
      · next hhi => rw [min_eq_left (not_lt.mp hhi), max_eq_right (not_lt.mp hlo)]

theorem le_clampf {lo hi : Rat} (h : lo ≤ hi) (v : Rat) : lo ≤ clampf v lo hi := by
  rw [clampf_eq h]
  exact le_max_left _ _

theorem clampf_le {lo hi : Rat} (h : lo ≤ hi) (v : Rat) : clampf v lo hi ≤ hi := by
  rw [clampf_eq h]
  exact max_le h (min_le_right _ _)

/-- A multiple of a clamped value is below a bound when the multiple of the lower clamp is, and that
of the value or that of the upper clamp. -/
theorem mul_clampf_lt_iff {lo hi : Rat} (h : lo ≤ hi) {e : Rat} (he : 0 ≤ e) (v bound : Rat) :
    e * clampf v lo hi < bound ↔ e * lo < bound ∧ (e * v < bound ∨ e * hi < bound) := by
  rw [clampf_eq h, mul_max_of_nonneg _ _ he, mul_min_of_nonneg _ _ he, max_lt_iff, min_lt_iff]

/-! ## The answer

Exact arithmetic up to the cast. -/

/-- What `predict` promises for one job on one node. -/
structure PredictsInBounds (m : CostModel Rat) (job : Job) (node : NodeId) : Prop where
  cold : m.isWarm node = false → m.predict job node = job.estimatedCost
  bounds : m.isWarm node = true →
    ⌊m.mConfig.minMultiplier * job.estimatedCost + 1 / 2⌋ ≤ (m.predict job node : Int) ∧
      (m.predict job node : Int) ≤ ⌊m.mConfig.maxMultiplier * job.estimatedCost + 1 / 2⌋
  convertible : ∀ s, m.mNodeStates.lookup node = some s → m.isWarmState s = true →
    Convertible (m.scaled s job node)

/-- The estimate is small enough for the clamp and the learned multipliers. -/
def FitsCost (m : CostModel Rat) (job : Job) (node : NodeId) : Prop :=
  m.mConfig.minMultiplier * job.estimatedCost + 1 / 2 < 2 ^ 64 ∧
    (m.learnedProduct job node * job.estimatedCost + 1 / 2 < 2 ^ 64 ∨
      m.mConfig.maxMultiplier * job.estimatedCost + 1 / 2 < 2 ^ 64)

section

variable {m : CostModel Rat} {job : Job} {node : NodeId} {s : NodeLearningState Rat}

theorem scaled_pos (job : Job) (hmin : 0 < m.mConfig.minMultiplier)
    (hle : m.mConfig.minMultiplier ≤ m.mConfig.maxMultiplier)
    (hs : m.mNodeStates.lookup node = some s) : 0 < m.scaled s job node := by
  rw [scaled_eq hs]
  have hclamp := hmin.trans_le (le_clampf hle (m.learnedProduct job node))
  positivity

/-- The bounds hold of the exact product, whether or not it can be cast. -/
theorem predict_bounds (hmin : 0 < m.mConfig.minMultiplier)
    (hle : m.mConfig.minMultiplier ≤ m.mConfig.maxMultiplier)
    (hs : m.mNodeStates.lookup node = some s) (hwarm : m.isWarmState s = true) :
    ⌊m.mConfig.minMultiplier * job.estimatedCost + 1 / 2⌋ ≤ (m.predict job node : Int) ∧
      (m.predict job node : Int) ≤ ⌊m.mConfig.maxMultiplier * job.estimatedCost + 1 / 2⌋ := by
  have hpos := scaled_pos job hmin hle hs
  have hcost : (0 : Rat) ≤ job.estimatedCost := Nat.cast_nonneg _
  rw [predict_of_warm hs hwarm, Int.toNat_of_nonneg (Int.floor_nonneg.mpr hpos.le), scaled_eq hs,
    mul_comm (m.mConfig.minMultiplier), mul_comm (m.mConfig.maxMultiplier)]
  constructor
  · apply Int.floor_le_floor
    have hlow := mul_le_mul_of_nonneg_left (le_clampf hle (m.learnedProduct job node)) hcost
    linarith
  · apply Int.floor_le_floor
    have hhigh := mul_le_mul_of_nonneg_left (clampf_le hle (m.learnedProduct job node)) hcost
    linarith

theorem convertible_iff (hmin : 0 < m.mConfig.minMultiplier)
    (hle : m.mConfig.minMultiplier ≤ m.mConfig.maxMultiplier)
    (hs : m.mNodeStates.lookup node = some s) :
    Convertible (m.scaled s job node) ↔ m.FitsCost job node := by
  have hpos := scaled_pos job hmin hle hs
  have hcost : (0 : Rat) ≤ job.estimatedCost := Nat.cast_nonneg _
  have hlow : -1 < m.scaled s job node := by linarith
  unfold Convertible FitsCost
  rw [and_iff_right hlow, scaled_eq hs, ← lt_sub_iff_add_lt, ← lt_sub_iff_add_lt,
    ← lt_sub_iff_add_lt, ← lt_sub_iff_add_lt, mul_clampf_lt_iff hle hcost,
    mul_comm (m.mConfig.minMultiplier), mul_comm (m.mConfig.maxMultiplier),
    mul_comm (m.learnedProduct job node)]

end

/-- **Predictions are in bounds exactly when the estimate is small enough.**  Whatever the model has
learned: a cold node answers the estimate, a warm one a value between the rounded multiples of the
clamps, and the cast is defined if and only if the node is cold or the estimate times the lower clamp
and one of the learned product and the upper clamp is in range. -/
theorem predictsInBounds_iff {m : CostModel Rat} (hmin : 0 < m.mConfig.minMultiplier)
    (hle : m.mConfig.minMultiplier ≤ m.mConfig.maxMultiplier) (job : Job) (node : NodeId) :
    m.PredictsInBounds job node ↔ m.isWarm node = false ∨ m.FitsCost job node := by
  constructor
  · intro h
    by_cases hwarm : m.isWarm node = true
    · obtain ⟨s, hs, hstate⟩ := isWarm_iff.mp hwarm
      exact Or.inr ((convertible_iff hmin hle hs).mp (h.convertible s hs hstate))
    · exact Or.inl (Bool.not_eq_true _ ▸ hwarm)
  · intro h
    refine ⟨fun hcold => predict_of_cold hcold job, fun hwarm => ?_, fun s hs hstate => ?_⟩
    · obtain ⟨s, hs, hstate⟩ := isWarm_iff.mp hwarm
      exact predict_bounds hmin hle hs hstate
    · rcases h with hcold | hfits
      · rw [isWarm_iff.mpr ⟨s, hs, hstate⟩] at hcold
        cases hcold
      · exact (convertible_iff hmin hle hs).mpr hfits

/-- Node 1 has run one job at twice its estimate and is warm. -/
theorem predictsInBounds_iff_warm :
    (trained ({ warmThreshold := 1 } : CostModelConfig Rat) [twiceAsSlow] true).isWarm 1 = true ∧
      (trained ({ warmThreshold := 1 } : CostModelConfig Rat) [twiceAsSlow] true).PredictsInBounds
        { estimatedCost := 2 ^ 60 } 1 := by
  have hfits : (trained ({ warmThreshold := 1 } : CostModelConfig Rat) [twiceAsSlow] true).FitsCost
      { estimatedCost := 2 ^ 60 } 1 := by
    unfold FitsCost
    decide +kernel
  exact ⟨by decide +kernel, (predictsInBounds_iff (by decide +kernel) (by decide +kernel) _ _).mpr
    (Or.inr hfits)⟩

/-! ## After updates

The learned product of a run, for a concrete one that leaves the range. -/

/-- The learned product is the one that the run determines. -/
theorem Learned.learnedProduct_eq {cfg : CostModelConfig Rat} {jobs : List Job}
    {m : CostModel Rat} (h : Learned cfg jobs m) {node : NodeId} {s : NodeLearningState Rat}
    (hs : m.mNodeStates.lookup node = some s) (job : Job) :
    m.learnedProduct job node =
      corrections cfg jobs m.mDegradationEnabled node job.jobClass job.queueDepthAtDispatch := by
  have hnode := (h.node node).1
  unfold learnedProduct corrections degradationMultiplier affinityScore
  rw [hs, h.affinity_get, hnode]
  dsimp only
  rw [h.degradation_get hs]

theorem corrections_twiceAsSlow :
    2 ≤ corrections {} (List.replicate 10 twiceAsSlow) true 1 0 0 := by
  have huniform := uniform_twiceAsSlow 10
  have hcompletions : completions 1 (List.replicate 10 twiceAsSlow) = 10 := by decide
  rw [huniform.corrections_eq {} true, huniform.warmed_inCell (ownCell_twiceAsSlow {} 10),
    hcompletions]
  decide +kernel

/-- **A large estimate does not fit.**  With the default configuration, ten completions at twice the
estimate make the prediction for an estimate of 2^63 pass the range of the cast. -/
theorem predict_out_of_range :
    ¬(trained ({} : CostModelConfig Rat) (List.replicate 10 twiceAsSlow) true).PredictsInBounds
      { estimatedCost := 2 ^ 63 } 1 := by
  have hlearned := learned_trained {} (List.replicate 10 twiceAsSlow) true
  have hlength : (ratios (onNode 1) (List.replicate 10 twiceAsSlow)).length = 10 := by
    rw [length_ratios]
    decide
  have henabled : (trained ({} : CostModelConfig Rat) (List.replicate 10 twiceAsSlow)
      true).mDegradationEnabled = true := rfl
  generalize trained ({} : CostModelConfig Rat) (List.replicate 10 twiceAsSlow) true = m
    at hlearned henabled ⊢
  intro h
  cases hs : m.mNodeStates.lookup 1 with
  | none =>
      have hcold := hlearned.cold_of_unknown hs
      rw [hlength] at hcold
      exact absurd hcold (by decide)
  | some s =>
      have hwarm : m.isWarmState s = true := by
        rw [hlearned.isWarmState_iff hs, hlength]
        decide
      have hmin : (1 / 10 : Rat) ≤ m.mConfig.minMultiplier ∧
          m.mConfig.minMultiplier ≤ m.mConfig.maxMultiplier ∧
          (10 : Rat) ≤ m.mConfig.maxMultiplier := by
        rw [hlearned.mConfig]
        decide +kernel
      obtain ⟨-, hproduct | hmax⟩ :=
        (convertible_iff (by linarith) hmin.2.1 hs).mp (h.convertible s hs hwarm)
      · have htwo := corrections_twiceAsSlow
        rw [hlearned.learnedProduct_eq hs, henabled] at hproduct
        norm_num at hproduct
        linarith
      · norm_num at hmax
        linarith

end CostModel

end FatpBalancer
