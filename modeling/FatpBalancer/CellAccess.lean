/-
# Which cells and buckets the cost model touches

The tensors of the affinity matrix and the buckets of a degradation curve as they lie in memory, and
the operations of the model with every access checked against it.  A curve is always within its
bounds, whatever the configuration.  The clamping of the matrix has no cell to fall back to when one
of the two dimensions is 0: there the first access is outside.

The unchecked operations of `AffinityMatrix` and `CostModel` work on functions from indices, so that
they are defined for any configuration; here are their twins on lists, which answer `none` where the
source would read or write outside of an array or divide by zero.  The main lemmas say that a twin
answers `some` of what its original does exactly when the dimensions are positive, or when no cell
is touched.

`LaidOut` is the invariant that carries this over to runs: whatever is updated, reset or loaded, the
tensors and the curves keep the dimensions of the configuration.
-/
import FatpBalancer.ModelLoad

universe u v w

namespace FatpBalancer

open Machine

variable {F : Type u} [FloatOps F]

/-! ## The affinity matrix in memory

`mValues` and `mObservations` are two vectors of `maxNodes * maxJobClasses` entries, row after row. -/

namespace AffinityMatrix

variable {a : AffinityMatrix F}

/-- The two tensors, row by row. -/
structure Memory (F : Type u) where
  values : List F
  observations : List Nat

def memory (a : AffinityMatrix F) : Memory F where
  values := RowMajor.toList a.mConfig.maxNodes a.mConfig.maxJobClasses a.mValues
  observations := RowMajor.toList a.mConfig.maxNodes a.mConfig.maxJobClasses a.mObservations

/-- The index that the clamped arguments address. -/
def cellIndex (a : AffinityMatrix F) (nodeIdx classIdx : Nat) : Nat :=
  a.clampRow nodeIdx * a.mConfig.maxJobClasses + a.clampCol classIdx

/-! ### The operations, with every access checked

Index arithmetic and clamping as in the source, where a dimension of zero makes the clamped index
the one before the first. -/

def update? (a : AffinityMatrix F) (nodeIdx classIdx : Nat) (ratio : F) : Option (Memory F) :=
  let i := a.cellIndex nodeIdx classIdx
  (a.memory.values[i]?).bind fun current =>
  (a.memory.observations[i]?).map fun count =>
    { values := a.memory.values.set i (emaStep a.mConfig.alpha ratio current)
      observations := a.memory.observations.set i (fetchAdd32 count) }

def observations? (a : AffinityMatrix F) (nodeIdx classIdx : Nat) : Option Nat :=
  a.memory.observations[a.cellIndex nodeIdx classIdx]?

def get? (a : AffinityMatrix F) (nodeIdx classIdx : Nat) : Option F :=
  (a.observations? nodeIdx classIdx).bind fun count =>
    if count < a.mConfig.warmThreshold then some (FloatOps.lit 1)
    else a.memory.values[a.cellIndex nodeIdx classIdx]?

def isCellWarm? (a : AffinityMatrix F) (nodeIdx classIdx : Nat) : Option Bool :=
  (a.observations? nodeIdx classIdx).map fun count => decide (a.mConfig.warmThreshold ≤ count)

end AffinityMatrix

/-- The tensors have a cell. -/
def AffinityMatrixConfig.HasCells (config : AffinityMatrixConfig F) : Prop :=
  0 < config.maxNodes ∧ 0 < config.maxJobClasses

instance (config : AffinityMatrixConfig F) : Decidable config.HasCells :=
  inferInstanceAs (Decidable (_ ∧ _))

namespace AffinityMatrix

variable {a : AffinityMatrix F}

/-- A tensor without a cell has no index, and any other one has the clamped one. -/
theorem getElem?_cellIndex {α : Type v} (t : Nat → Nat → α) (nodeIdx classIdx : Nat) :
    (RowMajor.toList a.mConfig.maxNodes a.mConfig.maxJobClasses t)[a.cellIndex nodeIdx classIdx]? =
      if a.mConfig.HasCells then some (t (a.clampRow nodeIdx) (a.clampCol classIdx)) else none := by
  split
  · next hcells =>
      exact RowMajor.getElem?_toList t (clampIndex_lt hcells.1 nodeIdx)
        (clampIndex_lt hcells.2 classIdx)
  · next hempty =>
      have hlength : a.mConfig.maxNodes * a.mConfig.maxJobClasses = 0 := by
        rw [Nat.mul_eq_zero]
        unfold AffinityMatrixConfig.HasCells at hempty
        omega
      apply List.getElem?_eq_none
      rw [RowMajor.length_toList, hlength]
      exact Nat.zero_le _

theorem observations?_eq (nodeIdx classIdx : Nat) :
    a.observations? nodeIdx classIdx =
      if a.mConfig.HasCells then some (a.observations nodeIdx classIdx) else none :=
  getElem?_cellIndex a.mObservations nodeIdx classIdx

theorem isCellWarm?_eq (nodeIdx classIdx : Nat) :
    a.isCellWarm? nodeIdx classIdx =
      if a.mConfig.HasCells then some (a.isCellWarm nodeIdx classIdx) else none := by
  rw [isCellWarm?, observations?_eq]
  split <;> rfl

theorem get?_eq (nodeIdx classIdx : Nat) :
    a.get? nodeIdx classIdx =
      if a.mConfig.HasCells then some (a.get nodeIdx classIdx) else none := by
  rw [get?, observations?_eq]
  split
  · next hcells =>
      have hvalue := getElem?_cellIndex (a := a) a.mValues nodeIdx classIdx
      rw [if_pos hcells] at hvalue
      rw [Option.bind_some, get]
      split
      · rfl
      · exact hvalue
  · rfl

/-- A checked update leaves the memory of the updated matrix. -/
theorem update?_eq (nodeIdx classIdx : Nat) (ratio : F) :
    a.update? nodeIdx classIdx ratio =
      if a.mConfig.HasCells then some (a.update nodeIdx classIdx ratio).memory else none := by
  have hvalue := getElem?_cellIndex (a := a) a.mValues nodeIdx classIdx
  have hcount := getElem?_cellIndex (a := a) a.mObservations nodeIdx classIdx
  unfold update?
  split
  · next hcells =>
      have hr : a.clampRow nodeIdx < a.mConfig.maxNodes := clampIndex_lt hcells.1 nodeIdx
      have hc : a.clampCol classIdx < a.mConfig.maxJobClasses := clampIndex_lt hcells.2 classIdx
      rw [if_pos hcells] at hvalue hcount
      simp only [memory, hvalue, hcount, Option.bind_some, Option.map_some, update, setCell]
      rw [← RowMajor.set_toList _ hr hc, ← RowMajor.set_toList _ hr hc]
      rfl
  · next hempty =>
      rw [if_neg hempty] at hvalue
      simp only [memory, hvalue, Option.bind_none]

end AffinityMatrix

/-! ## The degradation curve in memory

An array of a fixed number of buckets, of which the configured ones are used. -/

namespace DegradationCurve

variable {c : DegradationCurve F}

/-- The array of buckets. -/
def memory (c : DegradationCurve F) : List (Bucket F) := List.ofFn c.buckets

/-- `bucketIndex` in the arithmetic of the source; `none` is a division by zero. -/
def bucketIndex? (c : DegradationCurve F) (depth : Nat) : Option Nat :=
  if c.bucketSize = 0 then none
  else
    let idx := depth / c.bucketSize
    some (if idx < c.bucketCount then idx else fetchSub32 c.bucketCount)

def update? (c : DegradationCurve F) (depth : Nat) (ratio : F) : Option (List (Bucket F)) :=
  (c.bucketIndex? depth).bind fun idx =>
  (c.memory[idx]?).map fun b => c.memory.set idx (c.observe b ratio)

def get? (c : DegradationCurve F) (depth : Nat) : Option F :=
  (c.bucketIndex? depth).bind fun idx =>
  (c.memory[idx]?).map fun b =>
    if b.observations < c.warmThreshold then FloatOps.lit 1 else b.multiplier.value

def bucketObservations? (c : DegradationCurve F) (depth : Nat) : Option Nat :=
  (c.bucketIndex? depth).bind fun idx => (c.memory[idx]?).map fun b => b.observations

/-- The last bucket takes every depth that is past the others. -/
theorem bucketIndex_eq_min (depth : Nat) :
    (c.bucketIndex depth : Nat) = min (depth / c.bucketSize) (c.bucketCount - 1) := by
  have hpos := c.bucketCount_pos
  rw [bucketIndex]
  dsimp only
  split <;> omega

theorem bucketIndex?_eq (depth : Nat) :
    c.bucketIndex? depth = some (c.bucketIndex depth : Nat) := by
  rw [bucketIndex?, if_neg (Nat.ne_of_gt c.bucketSize_pos), fetchSub32_of_pos c.bucketCount_pos]
  rfl

theorem getElem?_memory (b : Fin kMaxBuckets) : c.memory[(b : Nat)]? = some (c.buckets b) := by
  rw [memory, List.getElem?_ofFn]
  exact dif_pos b.isLt

theorem set_memory (b : Fin kMaxBuckets) (x : Bucket F) :
    c.memory.set b x = List.ofFn (Function.update c.buckets b x) := by
  apply List.ext_getElem?
  intro i
  rw [memory, List.getElem?_set, List.getElem?_ofFn, List.getElem?_ofFn, List.length_ofFn]
  by_cases hi : i < kMaxBuckets
  · by_cases hb : (b : Nat) = i
    · subst hb
      simp
    · have hne : (⟨i, hi⟩ : Fin kMaxBuckets) ≠ b := fun h => hb (congrArg Fin.val h).symm
      rw [if_neg hb, dif_pos hi, dif_pos hi, Function.update_of_ne hne]
  · rw [if_neg (by omega), dif_neg hi, dif_neg hi]

theorem get?_eq (depth : Nat) : c.get? depth = some (c.get depth) := by
  simp only [get?, bucketIndex?_eq, Option.bind_some, getElem?_memory, Option.map_some]
  rfl

theorem bucketObservations?_eq (depth : Nat) :
    c.bucketObservations? depth = some (c.bucketObservations depth) := by
  simp only [bucketObservations?, bucketIndex?_eq, Option.bind_some, getElem?_memory,
    Option.map_some]
  rfl

theorem update?_eq (depth : Nat) (ratio : F) :
    c.update? depth ratio = some (c.update depth ratio).memory := by
  simp only [update?, bucketIndex?_eq, Option.bind_some, getElem?_memory, Option.map_some,
    set_memory]
  rfl

end DegradationCurve

/-! ## The model

One type for all the calls that read or write what was learned, so that one statement speaks of all
of them. -/

/-- The calls that read or write what was learned. -/
inductive ModelCall
  | update (completedJob : Job)
  | predict (job : Job) (node : NodeId)
  | isWarm (node : NodeId)
  | observationCount (node : NodeId)
  | nodeMultiplier (node : NodeId)
  | affinityScore (node : NodeId) (jobClass : JobClass)
  | affinityObservations (node : NodeId) (jobClass : JobClass)
  | isAffinityCellWarm (node : NodeId) (jobClass : JobClass)
  | degradationMultiplier (node : NodeId) (queueDepth : Nat)
  | degradationBucketObservations (node : NodeId) (queueDepth : Nat)

/-- What a query answers, and what an update leaves in memory. -/
inductive ModelAnswer (F : Type u) [FloatOps F]
  | learned (matrix : AffinityMatrix.Memory F) (curve : List (Bucket F))
  | cost (units : Cost)
  | factor (multiplier : F)
  | count (n : Nat)
  | flag (b : Bool)

namespace CostModel

variable {m m' : CostModel F} {cfg : CostModelConfig F}

def answer (m : CostModel F) : ModelCall → ModelAnswer F
  | .update job =>
      .learned (m.update job).mAffinityMatrix.memory
        ((m.update job).nodeStateOrDefault job.executedBy).degradation.memory
  | .predict job node => .cost (m.predict job node)
  | .isWarm node => .flag (m.isWarm node)
  | .observationCount node => .count (m.observationCount node)
  | .nodeMultiplier node => .factor (m.nodeMultiplier node)
  | .affinityScore node jobClass => .factor (m.affinityScore node jobClass)
  | .affinityObservations node jobClass => .count (m.affinityObservations node jobClass)
  | .isAffinityCellWarm node jobClass => .flag (m.isAffinityCellWarm node jobClass)
  | .degradationMultiplier node depth => .factor (m.degradationMultiplier node depth)
  | .degradationBucketObservations node depth =>
      .count (m.degradationBucketObservations node depth)

/-! ### The same with every access checked

Each call goes through the twins of the matrix and of the curve of its node. -/

def update? (m : CostModel F) (completedJob : Job) : Option (ModelAnswer F) :=
  let state := m.nodeStateOrDefault completedJob.executedBy
  if informative completedJob then
    let r : F := ratio completedJob
    let degradation :=
      if state.observationCount = 0 then state.degradation.configure m.mConfig.degradation
      else state.degradation
    (m.mAffinityMatrix.update? completedJob.executedBy completedJob.jobClass r).bind fun matrix =>
    (degradation.update? completedJob.queueDepthAtDispatch r).map fun curve =>
      .learned matrix curve
  else some (.learned m.mAffinityMatrix.memory state.degradation.memory)

def correction? (m : CostModel F) (s : NodeLearningState F) (job : Job) (node : NodeId) :
    Option F :=
  (m.mAffinityMatrix.get? node job.jobClass).bind fun affinity =>
  let multiplier := s.throughputMultiplier.value * affinity
  (if m.mDegradationEnabled then
    (s.degradation.get? job.queueDepthAtDispatch).map fun degradation => multiplier * degradation
  else some multiplier).map fun multiplier =>
    clampf multiplier m.mConfig.minMultiplier m.mConfig.maxMultiplier

def predict? (m : CostModel F) (job : Job) (node : NodeId) : Option Cost :=
  match m.mNodeStates.lookup node with
  | none => some job.estimatedCost
  | some s =>
      if m.isWarmState s then
        (m.correction? s job node).map fun correction =>
          FloatOps.toUInt64
            (FloatOps.ofUInt64 job.estimatedCost * correction + FloatOps.lit (1 / 2))
      else some job.estimatedCost

def degradationMultiplier? (m : CostModel F) (node : NodeId) (queueDepth : Nat) : Option F :=
  match m.mNodeStates.lookup node with
  | none => some (FloatOps.lit 1)
  | some s => s.degradation.get? queueDepth

def degradationBucketObservations? (m : CostModel F) (node : NodeId) (queueDepth : Nat) :
    Option Nat :=
  match m.mNodeStates.lookup node with
  | none => some 0
  | some s => s.degradation.bucketObservations? queueDepth

/-- `none` is an access outside of an array, or a division by zero. -/
def answer? (m : CostModel F) : ModelCall → Option (ModelAnswer F)
  | .update job => m.update? job
  | .predict job node => (m.predict? job node).map .cost
  -- these read the node state alone
  | .isWarm node => some (.flag (m.isWarm node))
  | .observationCount node => some (.count (m.observationCount node))
  | .nodeMultiplier node => some (.factor (m.nodeMultiplier node))
  | .affinityScore node jobClass => (m.mAffinityMatrix.get? node jobClass).map .factor
  | .affinityObservations node jobClass =>
      (m.mAffinityMatrix.observations? node jobClass).map .count
  | .isAffinityCellWarm node jobClass => (m.mAffinityMatrix.isCellWarm? node jobClass).map .flag
  | .degradationMultiplier node depth => (m.degradationMultiplier? node depth).map .factor
  | .degradationBucketObservations node depth =>
      (m.degradationBucketObservations? node depth).map .count

/-- The call reads or writes a cell of the affinity matrix. -/
def touchesCell (m : CostModel F) : ModelCall → Bool
  | .update job => informative job
  | .predict _ node => m.isWarm node
  | .affinityScore _ _ | .affinityObservations _ _ | .isAffinityCellWarm _ _ => true
  | _ => false

/-! ### Where the checks pass

A call that touches no cell passes whatever the dimensions. -/

theorem update?_eq (job : Job) :
    m.update? job =
      if informative job = true ∧ ¬m.mAffinityMatrix.mConfig.HasCells then none
      else some (m.answer (.update job)) := by
  rw [update?]
  by_cases hinf : informative job = true
  · rw [if_pos hinf]
    dsimp only
    rw [AffinityMatrix.update?_eq]
    by_cases hcells : m.mAffinityMatrix.mConfig.HasCells
    · have hsafe : ¬(informative job = true ∧ ¬m.mAffinityMatrix.mConfig.HasCells) :=
        fun h => h.2 hcells
      rw [if_pos hcells, if_neg hsafe, Option.bind_some, DegradationCurve.update?_eq,
        Option.map_some, answer, nodeStateOrDefault_update m hinf, if_pos rfl,
        m.update_of_informative hinf]
      rfl
    · have hfails : informative job = true ∧ ¬m.mAffinityMatrix.mConfig.HasCells := ⟨hinf, hcells⟩
      rw [if_neg hcells, if_pos hfails, Option.bind_none]
  · rw [if_neg hinf, if_neg fun h => hinf h.1, answer]
    have hsame : m.update job = m := if_neg hinf
    rw [hsame]

theorem correction?_eq (s : NodeLearningState F) (job : Job) (node : NodeId) :
    m.correction? s job node =
      if m.mAffinityMatrix.mConfig.HasCells then some (m.correction s job node) else none := by
  rw [correction?, AffinityMatrix.get?_eq]
  split
  · rw [Option.bind_some, DegradationCurve.get?_eq, correction]
    dsimp only
    split <;> rfl
  · rfl

theorem predict?_eq (job : Job) (node : NodeId) :
    m.predict? job node =
      if m.isWarm node = true ∧ ¬m.mAffinityMatrix.mConfig.HasCells then none
      else some (m.predict job node) := by
  unfold predict? predict isWarm
  cases hs : m.mNodeStates.lookup node with
  | none => rfl
  | some s =>
      dsimp only
      rw [correction?_eq]
      by_cases hwarm : m.isWarmState s = true <;>
        by_cases hcells : m.mAffinityMatrix.mConfig.HasCells <;> simp [hwarm, hcells]

/-- **A call fails exactly when it wants a cell and there is none**, and otherwise answers what the
unchecked call does. -/
theorem answer?_eq (call : ModelCall) :
    m.answer? call =
      if m.touchesCell call = true ∧ ¬m.mAffinityMatrix.mConfig.HasCells then none
      else some (m.answer call) := by
  cases call with
  | update job => exact update?_eq job
  | predict job node =>
      rw [answer?, predict?_eq, touchesCell, answer]
      by_cases hempty : m.isWarm node = true ∧ ¬m.mAffinityMatrix.mConfig.HasCells
      · rw [if_pos hempty, if_pos hempty, Option.map_none]
      · rw [if_neg hempty, if_neg hempty, Option.map_some]
  | affinityScore node jobClass | affinityObservations node jobClass
  | isAffinityCellWarm node jobClass =>
      simp only [answer?, touchesCell, answer, AffinityMatrix.get?_eq,
        AffinityMatrix.observations?_eq, AffinityMatrix.isCellWarm?_eq, true_and, ite_not]
      split <;> rfl
  | degradationMultiplier node depth | degradationBucketObservations node depth =>
      simp only [answer?, touchesCell, answer, degradationMultiplier?, degradationMultiplier,
        degradationBucketObservations?, degradationBucketObservations]
      cases m.mNodeStates.lookup node with
      | none => rfl
      | some s =>
          simp only [DegradationCurve.get?_eq, DegradationCurve.bucketObservations?_eq]
          rfl
  | _ => rfl

end CostModel

/-! ## Runs

The dimensions are the configuration's in every reachable state, so whether accesses are inside is
decided by the configuration alone. -/

/-- The operations that change a model. -/
inductive ModelOp (Text : Type w)
  | update (completedJob : Job)
  | reset
  | load (file : Option Text)
  | setDegradationEnabled (enabled : Bool)

theorem DegradationCurve.Configured.update {c : DegradationCurve F} {cfg : DegradationCurveConfig F}
    (h : c.Configured cfg) (depth : Nat) (ratio : F) : (c.update depth ratio).Configured cfg :=
  ⟨h.bucketCount, h.bucketSize, h.alpha, h.warmThreshold⟩

namespace CostModel

variable {D : Type v} [DoubleOps D] [FloatCasts F D] {Text : Type w} {json : JsonText Text D}
  {m m' : CostModel F} {cfg : CostModelConfig F}

/-- A model under any sequence of operations. -/
def runs (json : JsonText Text D) (cfg : CostModelConfig F) :
    Machine (CostModel F) (ModelOp Text) where
  init := create cfg
  step m
    | .update job => some (m.update job)
    | .reset => some m.reset
    | .load file => some (m.load json file).2
    | .setDegradationEnabled enabled => some (m.setDegradationEnabled enabled)

/-- The matrix has the dimensions of the configuration, and so have all curves. -/
structure LaidOut (cfg : CostModelConfig F) (m : CostModel F) : Prop where
  mConfig : m.mConfig = cfg
  affinity : m.mAffinityMatrix.mConfig = cfg.affinity
  curves : ∀ node st, m.mNodeStates.lookup node = some st →
    st.degradation.Configured cfg.degradation

/-- A new model has the dimensions of its configuration. -/
theorem LaidOut.create (cfg : CostModelConfig F) : LaidOut cfg (create cfg) where
  mConfig := rfl
  affinity := rfl
  curves _ _ h := by cases h

/-- Resetting neutralises the cells and keeps their number. -/
theorem LaidOut.reset (h : LaidOut cfg m) : LaidOut cfg m.reset where
  mConfig := h.mConfig
  affinity := h.affinity
  curves _ _ h := by cases h

/-- A model with other node states and cells that are laid out as well. -/
theorem LaidOut.replaced (h : LaidOut cfg m) {nodes : HashMap NodeId (NodeLearningState F)}
    {a : AffinityMatrix F} (haffinity : a.mConfig = cfg.affinity)
    (hcurves : ∀ node st, nodes.lookup node = some st →
      st.degradation.Configured cfg.degradation) :
    LaidOut cfg { m with mNodeStates := nodes, mAffinityMatrix := a } :=
  ⟨h.mConfig, haffinity, hcurves⟩

/-- The state that an update learns into has its curve laid out by then. -/
theorem LaidOut.learnNode (h : LaidOut cfg m) (node : NodeId) (depth : Nat) (r : F) :
    (learnNode m.mConfig (m.nodeStateOrDefault node) depth r).degradation.Configured
      cfg.degradation := by
  unfold CostModel.learnNode
  dsimp only
  split
  · have hlaid := DegradationCurve.configured_configure
      (m.nodeStateOrDefault node).degradation m.mConfig.degradation
    rw [h.mConfig] at hlaid ⊢
    exact hlaid.update depth r
  · next hcounted =>
      refine DegradationCurve.Configured.update ?_ depth r
      unfold nodeStateOrDefault at hcounted ⊢
      cases hs : m.mNodeStates.lookup node with
      | some st => exact h.curves node st hs
      | none =>
          rw [hs] at hcounted
          exact absurd rfl hcounted

/-- An update writes inside and changes no dimension. -/
theorem LaidOut.update (h : LaidOut cfg m) (job : Job) : LaidOut cfg (m.update job) := by
  by_cases hinf : informative job = true
  · rw [m.update_of_informative hinf]
    refine h.replaced h.affinity fun node st hs => ?_
    rw [HashMap.lookup_insert_eq] at hs
    split at hs
    · obtain rfl := Option.some.inj hs
      exact h.learnNode job.executedBy _ _
    · exact h.curves node st hs
  · have hsame : m.update job = m := if_neg hinf
    rw [hsame]
    exact h

/-- A loaded curve is laid out before its buckets are read. -/
theorem configured_load {ns : JsonObject D} {st : NodeLearningState F}
    (h : NodeLearningState.load cfg ns = some st) : st.degradation.Configured cfg.degradation := by
  obtain ⟨tm, -, h⟩ := Option.bind_eq_some_iff.mp h
  obtain ⟨oc, -, h⟩ := Option.bind_eq_some_iff.mp h
  obtain rfl := Option.some.inj h
  unfold DegradationCurve.load
  dsimp only
  split <;> exact ⟨rfl, rfl, rfl, rfl⟩

/-- Loaded curves are configured before they are filled. -/
theorem configured_loadNodes {tmpNodes loaded : HashMap NodeId (NodeLearningState F)}
    {nodes : JsonObject D} (h : loadNodes cfg tmpNodes nodes = some loaded)
    (htmp : ∀ node st, tmpNodes.lookup node = some st → st.degradation.Configured cfg.degradation) :
    ∀ node st, loaded.lookup node = some st → st.degradation.Configured cfg.degradation := by
  induction nodes generalizing tmpNodes with
  | nil =>
      obtain rfl := Option.some.inj h
      exact htmp
  | cons entry rest ih =>
      obtain ⟨keyStr, nodeVal⟩ := entry
      rw [loadNodes] at h
      obtain ⟨state, hstate, h⟩ := Option.bind_eq_some_iff.mp h
      obtain ⟨ns, -, hstate⟩ := Option.bind_eq_some_iff.mp hstate
      obtain ⟨key, -, h⟩ := Option.bind_eq_some_iff.mp h
      refine ih h fun node st hs => ?_
      rw [HashMap.lookup_insert_eq] at hs
      split at hs
      · obtain rfl := Option.some.inj hs
        exact configured_load hstate
      · exact htmp node st hs

/-- What `parse` has loaded, it has loaded with `loadNodes`. -/
theorem loadNodes_of_parse {content : Text}
    {r : AffinityMatrix F × HashMap NodeId (NodeLearningState F)}
    (h : parse json cfg content = .ok r) :
    ∃ nodes : JsonObject D, loadNodes cfg ∅ nodes = some r.2 := by
  unfold parse at h
  split at h
  · cases h
  · split at h
    · cases h
    · split at h
      · cases h
      · split at h
        · cases h
        · next tmpNodes hloop =>
            obtain rfl := Except.ok.inj h
            obtain ⟨nodes, -, hloop⟩ := Option.bind_eq_some_iff.mp hloop
            exact ⟨nodes, hloop⟩

/-- However a load ends. -/
theorem LaidOut.load (h : LaidOut cfg m) (file : Option Text) :
    LaidOut cfg (m.load json file).2 := by
  cases file with
  | none => exact h
  | some content =>
      cases hparse : parse json m.mConfig content with
      | error e =>
          rw [load_of_parse_error hparse]
          exact h.reset
      | ok r =>
          rw [load_of_parse_ok hparse]
          obtain ⟨nodes, hnodes⟩ := loadNodes_of_parse hparse
          rw [h.mConfig] at hnodes
          have haffinity := m.mAffinityMatrix.reset.load_mConfig (r.1.save D)
          exact h.replaced (haffinity.trans h.affinity)
            (configured_loadNodes hnodes fun _ _ hs => by cases hs)

/-- In every reachable state. -/
theorem laidOut_reach {ok : CostModel F → ModelOp Text → Prop}
    (hm : (runs json cfg).Reach ok m) : LaidOut cfg m := by
  refine hm.invariant (.create cfg) fun op _ h _ hstep => ?_
  cases op with
  | update job =>
      obtain rfl := Option.some.inj hstep
      exact h.update job
  | reset =>
      obtain rfl := Option.some.inj hstep
      exact h.reset
  | load file =>
      obtain rfl := Option.some.inj hstep
      exact h.load file
  | setDegradationEnabled enabled =>
      obtain rfl := Option.some.inj hstep
      exact ⟨h.mConfig, h.affinity, h.curves⟩

/-- **Every access of the cost model is inside if and only if the matrix has a cell.**  A call that
touches no cell is always safe; on a matrix without one the others are not, in no reachable state.
The curve of every node divides by a positive size and maps a depth to one of its buckets, whatever
the configuration. -/
theorem accesses_inside_iff (json : JsonText Text D) (cfg : CostModelConfig F) :
    ((∀ m, (runs json cfg).Reach anyEvent m → ∀ call, m.answer? call = some (m.answer call)) ↔
        cfg.affinity.HasCells) ∧
      ∀ m, (runs json cfg).Reach anyEvent m →
        (∀ call, m.answer? call = some (m.answer call) ↔
          cfg.affinity.HasCells ∨ m.touchesCell call = false) ∧
        ∀ node st, m.mNodeStates.lookup node = some st →
          st.degradation.Configured cfg.degradation ∧ st.degradation.bucketSize ≠ 0 ∧
            ∀ depth, st.degradation.bucketIndex? depth =
                some (min (depth / st.degradation.bucketSize) (st.degradation.bucketCount - 1)) ∧
              min (depth / st.degradation.bucketSize) (st.degradation.bucketCount - 1) <
                kMaxBuckets := by
  have hcalls : ∀ m, (runs json cfg).Reach anyEvent m → ∀ call,
      (m.answer? call = some (m.answer call) ↔
        cfg.affinity.HasCells ∨ m.touchesCell call = false) := by
    intro m hm call
    rw [answer?_eq, (laidOut_reach hm).affinity]
    by_cases hcells : cfg.affinity.HasCells <;> cases htouch : m.touchesCell call <;>
      simp [hcells]
  refine ⟨⟨fun hsafe => ?_, fun hcells m hm call => (hcalls m hm call).mpr (.inl hcells)⟩,
    fun m hm => ⟨hcalls m hm, fun node st hst => ?_⟩⟩
  · have hfirst := hsafe _ .init (.affinityScore 0 0)
    exact ((hcalls _ .init _).mp hfirst).resolve_right fun htouch => by cases htouch
  · refine ⟨(laidOut_reach hm).curves node st hst, Nat.ne_of_gt st.degradation.bucketSize_pos,
      fun depth => ?_⟩
    rw [← DegradationCurve.bucketIndex_eq_min]
    exact ⟨DegradationCurve.bucketIndex?_eq depth, (st.degradation.bucketIndex depth).isLt⟩

/-- **A matrix without rows has no last row to clamp to.**  The first job that completes writes past
the end of an array without cells. -/
theorem update_outside : ¬∀ m, (runs (JsonText.tree Rat)
    { affinity := { maxNodes := 0 } : CostModelConfig Rat }).Reach anyEvent m → ∀ call,
      m.answer? call = some (m.answer call) := by
  intro hsafe
  have hfirst := hsafe _ .init (.update twiceAsSlow)
  rw [answer?_eq, if_pos ⟨by decide, by decide⟩] at hfirst
  cases hfirst

end CostModel

end FatpBalancer
