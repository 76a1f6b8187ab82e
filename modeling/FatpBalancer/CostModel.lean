/-
# The cost model

The online learning model: per-node throughput multipliers, the affinity matrix and the per-node
degradation curves, with `predict` and `update`.

The model is generic in its arithmetic: `FloatOps` has the operations the source uses on `float`,
and the statements take the instance they need, the 32-bit floats where rounding may matter and
exact rationals where a statement is about real numbers.

An update teaches three estimators the same ratio: the node's average, one cell of the affinity
matrix and one bucket of the node's degradation curve.  `predict` multiplies the estimate by their
product, once the node is warm, and rounds it to an integer.  The model keeps the invariant of its
curves inside them, so that an index into the buckets is a `Fin`.
-/
import FatpBalancer.AffinityMatrix
import FatpBalancer.Lib.HashMap

universe u

namespace FatpBalancer

variable {F : Type u} [FloatOps F]

/-! ## Degradation curve

Buckets of equal width over the queue depth at dispatch; the last one takes all that is deeper. -/

/-- How many buckets, how wide, how fast they learn and from when on they count. -/
structure DegradationCurveConfig (F : Type u) [FloatOps F] where
  bucketCount : Nat := 8
  bucketSize : Nat := 4
  alpha : F := FloatOps.lit (1 / 10)
  warmThreshold : Nat := 5

/-- An exponential moving average with its learning rate. -/
structure EMA (F : Type u) [FloatOps F] where
  value : F := FloatOps.lit 1
  alpha : F := FloatOps.lit (1 / 10)

/-- The first observation is treated as every other one: the average starts at 1. -/
def EMA.update (e : EMA F) (observation : F) : EMA F :=
  { e with value := emaStep e.alpha observation e.value }

/-- The learned multiplier of one range of depths. -/
structure Bucket (F : Type u) [FloatOps F] where
  multiplier : EMA F := {}
  observations : Nat := 0

/-- Hard upper bound on the number of buckets. -/
def kMaxBuckets : Nat := 32

/-- The curve carries what keeps its indexing in range: `configure` establishes it. -/
structure DegradationCurve (F : Type u) [FloatOps F] where
  buckets : Fin kMaxBuckets → Bucket F := fun _ => {}
  bucketCount : Nat := 8
  bucketSize : Nat := 4
  alpha : F := FloatOps.lit (1 / 10)
  warmThreshold : Nat := 5
  bucketCount_pos : 0 < bucketCount := by decide
  bucketCount_le : bucketCount ≤ kMaxBuckets := by decide
  bucketSize_pos : 0 < bucketSize := by decide

namespace DegradationCurve

/-- Configuration clamps the number of buckets and their width into range. -/
def configure (c : DegradationCurve F) (cfg : DegradationCurveConfig F) : DegradationCurve F where
  -- a count of 0 or past the bound falls back to the bound, a size of 0 to 1
  buckets := c.buckets
  bucketCount :=
    if 0 < cfg.bucketCount ∧ cfg.bucketCount ≤ kMaxBuckets then cfg.bucketCount else kMaxBuckets
  bucketSize := if 0 < cfg.bucketSize then cfg.bucketSize else 1
  alpha := cfg.alpha
  warmThreshold := cfg.warmThreshold
  bucketCount_pos := by
    split
    · next h => exact h.1
    · decide
  bucketCount_le := by
    split
    · next h => exact h.2
    · exact le_rfl
  bucketSize_pos := by
    split
    · next h => exact h
    · decide

/-- The bucket of a depth, the last configured one for all that is deeper. -/
def bucketIndex (c : DegradationCurve F) (depth : Nat) : Fin kMaxBuckets :=
  ⟨if depth / c.bucketSize < c.bucketCount then depth / c.bucketSize else c.bucketCount - 1, by
    have := c.bucketCount_pos
    have := c.bucketCount_le
    split <;> omega⟩

/-- The bucket after one observation: the EMA takes over the curve's rate first. -/
def observe (c : DegradationCurve F) (b : Bucket F) (ratio : F) : Bucket F where
  multiplier := { b.multiplier with alpha := c.alpha }.update ratio
  observations := fetchAdd32 b.observations

def update (c : DegradationCurve F) (depth : Nat) (ratio : F) : DegradationCurve F :=
  let idx := c.bucketIndex depth
  { c with buckets := Function.update c.buckets idx (c.observe (c.buckets idx) ratio) }

def get (c : DegradationCurve F) (depth : Nat) : F :=
  let b := c.buckets (c.bucketIndex depth)
  if b.observations < c.warmThreshold then FloatOps.lit 1 else b.multiplier.value

def bucketObservations (c : DegradationCurve F) (depth : Nat) : Nat :=
  (c.buckets (c.bucketIndex depth)).observations

end DegradationCurve

/-- The curve is laid out as the configuration says. -/
structure DegradationCurve.Configured (c : DegradationCurve F) (cfg : DegradationCurveConfig F) :
    Prop where
  bucketCount : c.bucketCount = (DegradationCurve.configure {} cfg).bucketCount
  bucketSize : c.bucketSize = (DegradationCurve.configure {} cfg).bucketSize
  alpha : c.alpha = cfg.alpha
  warmThreshold : c.warmThreshold = cfg.warmThreshold

theorem DegradationCurve.configured_configure (c : DegradationCurve F)
    (cfg : DegradationCurveConfig F) : (c.configure cfg).Configured cfg :=
  ⟨rfl, rfl, rfl, rfl⟩

theorem DegradationCurve.Configured.bucketIndex_eq {c : DegradationCurve F}
    {cfg : DegradationCurveConfig F} (h : c.Configured cfg) (depth : Nat) :
    c.bucketIndex depth = (DegradationCurve.configure {} cfg).bucketIndex depth := by
  simp only [bucketIndex, h.bucketCount, h.bucketSize]

/-! ## The model

`mNodeStates` is a hash map, created on demand: a node that was never heard of has no entry and is
cold. -/

/-- What has been learned of one node. -/
structure NodeLearningState (F : Type u) [FloatOps F] where
  throughputMultiplier : EMA F := { value := FloatOps.lit 1, alpha := FloatOps.lit (1 / 20) }
  observationCount : Nat := 0
  degradation : DegradationCurve F := {}

instance : Inhabited (NodeLearningState F) := ⟨{}⟩

/-- Rates, thresholds and clamps, with the configurations of the matrix and of the curves. -/
structure CostModelConfig (F : Type u) [FloatOps F] where
  warmThreshold : Nat := 10
  nodeAlpha : F := FloatOps.lit (1 / 20)
  maxMultiplier : F := FloatOps.lit 10
  minMultiplier : F := FloatOps.lit (1 / 10)
  degradation : DegradationCurveConfig F := {}
  affinity : AffinityMatrixConfig F := {}

/-- The members of the class. -/
structure CostModel (F : Type u) [FloatOps F] where
  mConfig : CostModelConfig F
  mDegradationEnabled : Bool
  mNodeStates : HashMap NodeId (NodeLearningState F)
  mAffinityMatrix : AffinityMatrix F

namespace CostModel

/-- The constructor. -/
def create (config : CostModelConfig F) : CostModel F where
  mConfig := config
  mDegradationEnabled := true
  mNodeStates := ∅
  mAffinityMatrix := .create config.affinity

/-- Whether a completed job teaches the model anything. -/
def informative (job : Job) : Bool :=
  !(job.estimatedCost = 0 || job.observedCost = kUnknownCost)

/-- The observed-to-estimated ratio of a completed job. -/
def ratio (job : Job) : F :=
  FloatOps.ofUInt64 job.observedCost / FloatOps.ofUInt64 job.estimatedCost

/-- `mNodeStates[key]`: the state of the node, a default one when it has none. -/
def nodeStateOrDefault (m : CostModel F) (node : NodeId) : NodeLearningState F :=
  (m.mNodeStates.lookup node).getD {}

/-- The state of the executing node after one observation. -/
def learnNode (cfg : CostModelConfig F) (state : NodeLearningState F) (depth : Nat) (r : F) :
    NodeLearningState F :=
  let degradation :=
    -- the first observation lays the curve out; a wrapped count would do it again
    if state.observationCount = 0 then state.degradation.configure cfg.degradation
    else state.degradation
  { throughputMultiplier := { state.throughputMultiplier with alpha := cfg.nodeAlpha }.update r
    observationCount := fetchAdd32 state.observationCount
    degradation := degradation.update depth r }

def update (m : CostModel F) (completedJob : Job) : CostModel F :=
  if informative completedJob then
    let r : F := ratio completedJob
    let state := m.nodeStateOrDefault completedJob.executedBy
    { m with
      mNodeStates := m.mNodeStates.insert completedJob.executedBy
        (learnNode m.mConfig state completedJob.queueDepthAtDispatch r)
      mAffinityMatrix :=
        m.mAffinityMatrix.update completedJob.executedBy completedJob.jobClass r }
  else m

theorem update_of_informative (m : CostModel F) {job : Job} (h : informative job = true) :
    m.update job =
      { m with
        mNodeStates := m.mNodeStates.insert job.executedBy
          (learnNode m.mConfig (m.nodeStateOrDefault job.executedBy) job.queueDepthAtDispatch
            (ratio job))
        mAffinityMatrix := m.mAffinityMatrix.update job.executedBy job.jobClass (ratio job) } :=
  if_pos h

/-- An informative completion changes the state of its own node. -/
theorem nodeStateOrDefault_update (m : CostModel F) {job : Job} (h : informative job = true)
    (n : NodeId) :
    (m.update job).nodeStateOrDefault n =
      if n = job.executedBy then
        learnNode m.mConfig (m.nodeStateOrDefault job.executedBy) job.queueDepthAtDispatch
          (ratio job)
      else m.nodeStateOrDefault n := by
  rw [m.update_of_informative h]
  unfold nodeStateOrDefault
  rw [HashMap.lookup_insert_eq]
  split
  · rfl
  · rfl

/-- The node has been observed often enough. -/
def isWarmState (m : CostModel F) (s : NodeLearningState F) : Bool :=
  decide (m.mConfig.warmThreshold ≤ s.observationCount)

def clampf (v lo hi : F) : F :=
  if FloatOps.lt v lo then lo else if FloatOps.lt hi v then hi else v

/-- The compounded correction `predict` multiplies the estimate of a warm node with. -/
def correction (m : CostModel F) (s : NodeLearningState F) (job : Job) (node : NodeId) : F :=
  let multiplier := s.throughputMultiplier.value * m.mAffinityMatrix.get node job.jobClass
  -- the curve alone has a switch; the other two factors are always in
  let multiplier :=
    if m.mDegradationEnabled then multiplier * s.degradation.get job.queueDepthAtDispatch
    else multiplier
  clampf multiplier m.mConfig.minMultiplier m.mConfig.maxMultiplier

/-- The estimate itself for a cold node; otherwise the estimate times the correction, converted
back. -/
def predict (m : CostModel F) (job : Job) (node : NodeId) : Cost :=
  match m.mNodeStates.lookup node with
  | none => job.estimatedCost
  | some s =>
      if m.isWarmState s then
        FloatOps.toUInt64
          (FloatOps.ofUInt64 job.estimatedCost * m.correction s job node + FloatOps.lit (1 / 2))
      else job.estimatedCost

/-- A node without a state is cold. -/
def isWarm (m : CostModel F) (node : NodeId) : Bool :=
  (m.mNodeStates.lookup node).any m.isWarmState

def observationCount (m : CostModel F) (node : NodeId) : Nat :=
  match m.mNodeStates.lookup node with
  | none => 0
  | some s => s.observationCount

/-- The multiplier of a node without a state is 1. -/
def nodeMultiplier (m : CostModel F) (node : NodeId) : F :=
  match m.mNodeStates.lookup node with
  | none => FloatOps.lit 1
  | some s =>
      if m.isWarmState s then
        clampf s.throughputMultiplier.value m.mConfig.minMultiplier m.mConfig.maxMultiplier
      else FloatOps.lit 1

def affinityScore (m : CostModel F) (node : NodeId) (jobClass : JobClass) : F :=
  m.mAffinityMatrix.get node jobClass

def affinityObservations (m : CostModel F) (node : NodeId) (jobClass : JobClass) : Nat :=
  m.mAffinityMatrix.observations node jobClass

def isAffinityCellWarm (m : CostModel F) (node : NodeId) (jobClass : JobClass) : Bool :=
  m.mAffinityMatrix.isCellWarm node jobClass

def degradationMultiplier (m : CostModel F) (node : NodeId) (queueDepth : Nat) : F :=
  match m.mNodeStates.lookup node with
  | none => FloatOps.lit 1
  | some s => s.degradation.get queueDepth

def degradationBucketObservations (m : CostModel F) (node : NodeId) (queueDepth : Nat) : Nat :=
  match m.mNodeStates.lookup node with
  | none => 0
  | some s => s.degradation.bucketObservations queueDepth

def setDegradationEnabled (m : CostModel F) (enabled : Bool) : CostModel F :=
  { m with mDegradationEnabled := enabled }

/-- Everything learned is forgotten; the configuration and the switch stay. -/
def reset (m : CostModel F) : CostModel F :=
  { m with mNodeStates := ∅, mAffinityMatrix := m.mAffinityMatrix.reset }

/-! ### What an update does to the buckets

Which bucket an update counts in, for the statements about what the balancer has taught the model.
-/

/-- The bucket of a configured curve that holds this queue depth. -/
def bucketOf (cfg : DegradationCurveConfig F) (depth : Nat) : Fin kMaxBuckets :=
  (DegradationCurve.configure {} cfg).bucketIndex depth

/-- The observations in one bucket of one node. -/
def bucketCount (m : CostModel F) (node : NodeId) (b : Fin kMaxBuckets) : Nat :=
  ((m.nodeStateOrDefault node).degradation.buckets b).observations

/-- The curve of every node that has a state is laid out as the configuration says. -/
def Shaped (m : CostModel F) : Prop :=
  ∀ node st, m.mNodeStates.lookup node = some st → 0 < st.observationCount →
    ∀ depth, st.degradation.bucketIndex depth = bucketOf m.mConfig.degradation depth

theorem learnNode_bucketIndex {cfg : CostModelConfig F} {st : NodeLearningState F}
    (h : 0 < st.observationCount →
      ∀ depth, st.degradation.bucketIndex depth = bucketOf cfg.degradation depth)
    (depth : Nat) (r : F) (depth' : Nat) :
    (learnNode cfg st depth r).degradation.bucketIndex depth' =
      bucketOf cfg.degradation depth' := by
  unfold learnNode
  dsimp only
  split
  · rfl
  · next hne => exact h (Nat.pos_of_ne_zero hne) depth'

theorem learnNode_buckets {cfg : CostModelConfig F} {st : NodeLearningState F}
    (h : 0 < st.observationCount →
      ∀ depth, st.degradation.bucketIndex depth = bucketOf cfg.degradation depth)
    (depth : Nat) (r : F) (b : Fin kMaxBuckets) :
    ((learnNode cfg st depth r).degradation.buckets b).observations =
      if b = bucketOf cfg.degradation depth then
        fetchAdd32 (st.degradation.buckets b).observations
      else (st.degradation.buckets b).observations := by
  unfold learnNode
  dsimp only
  split
  · have hindex : (st.degradation.configure cfg.degradation).bucketIndex depth =
        bucketOf cfg.degradation depth := rfl
    simp only [DegradationCurve.update, hindex, Function.update_apply]
    split
    · next heq => rw [heq]; rfl
    · rfl
  · next hne =>
      simp only [DegradationCurve.update, h (Nat.pos_of_ne_zero hne), Function.update_apply]
      split
      · next heq => rw [heq]; rfl
      · rfl

theorem Shaped.state {m : CostModel F} (h : m.Shaped) (node : NodeId)
    (hpos : 0 < (m.nodeStateOrDefault node).observationCount) (depth : Nat) :
    (m.nodeStateOrDefault node).degradation.bucketIndex depth =
      bucketOf m.mConfig.degradation depth := by
  unfold nodeStateOrDefault at hpos ⊢
  cases hl : m.mNodeStates.lookup node with
  | none => simp [hl] at hpos
  | some st =>
      rw [hl] at hpos
      exact h node st hl hpos depth

theorem Shaped.update {m : CostModel F} (h : m.Shaped) (job : Job) : (m.update job).Shaped := by
  unfold CostModel.update
  split
  · intro node st hst _ depth
    simp only [HashMap.lookup_insert_eq] at hst
    split at hst
    · obtain rfl := Option.some.inj hst
      exact learnNode_bucketIndex (h.state job.executedBy) _ _ depth
    · next hne => exact h node st hst ‹_› depth
  · exact h

/-- An informative job adds one observation, to the bucket of its queue depth on its node. -/
theorem Shaped.bucketCount_update {m : CostModel F} (h : m.Shaped) (job : Job) (node : NodeId)
    (b : Fin kMaxBuckets) :
    (m.update job).bucketCount node b =
      if informative job ∧ job.executedBy = node ∧
          bucketOf m.mConfig.degradation job.queueDepthAtDispatch = b then
        fetchAdd32 (m.bucketCount node b)
      else m.bucketCount node b := by
  unfold CostModel.update
  split
  · next hinf =>
      by_cases hnode : job.executedBy = node
      · subst hnode
        have hlearn := learnNode_buckets (h.state job.executedBy) job.queueDepthAtDispatch
          (ratio job : F) b
        simp only [nodeStateOrDefault] at hlearn
        simp only [bucketCount, nodeStateOrDefault, HashMap.lookup_insert_eq, if_true,
          Option.getD_some, hlearn, hinf, true_and, eq_comm (a := b)]
      · simp [bucketCount, nodeStateOrDefault, Ne.symm hnode, hnode]
  · next hinf => simp [hinf]

end CostModel

end FatpBalancer
