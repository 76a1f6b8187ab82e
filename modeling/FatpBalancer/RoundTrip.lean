/-
# A saved model comes back

Saving a model that updates have reached and loading the text into a fresh model gives a model that
no query tells from the original, now or after any further updates.  The two differ at most in the
learning rates stored inside the averages, which every update overwrites before it uses them.

Three things meet here.

* `Agrees` is the relation that the queries and the updates respect; it forgets the rates and
  nothing else.
* `Saved` is an invariant of all models that updates reach from a fresh one: counts fit 32 bits, and
  the buckets and cells outside the configured tensors are neutral, so that the text leaves nothing
  out.
* `parse` is then followed through the text that `save` writes, section by section: the affinity
  matrix, the node states with their degradation buckets, and the object that holds the two.

The JSON library enters only through `JsonValue.readBack`: what was written is read back, with whole
doubles coming back as integers, which every reader of a number accepts.
-/
import FatpBalancer.Persistence
import Mathlib.Data.List.TakeWhile

universe u v w

namespace FatpBalancer

open JsonValue

variable {F : Type u} [FloatOps F]

/-! ## Models that queries cannot tell apart

The stored rate of an average is set anew by each update from the configuration, before the average
is moved, so two models that differ in stored rates only stay so for ever. -/

/-- The same curve, up to the rates stored in the buckets. -/
structure DegradationCurve.Agrees (c c' : DegradationCurve F) : Prop where
  value : ∀ b, (c.buckets b).multiplier.value = (c'.buckets b).multiplier.value
  observations : ∀ b, (c.buckets b).observations = (c'.buckets b).observations
  bucketCount : c.bucketCount = c'.bucketCount
  bucketSize : c.bucketSize = c'.bucketSize
  alpha : c.alpha = c'.alpha
  warmThreshold : c.warmThreshold = c'.warmThreshold

namespace DegradationCurve.Agrees

variable {c c' : DegradationCurve F}

theorem bucketIndex_eq (h : c.Agrees c') (depth : Nat) :
    c.bucketIndex depth = c'.bucketIndex depth := by
  simp only [bucketIndex, h.bucketSize, h.bucketCount]

theorem get_eq (h : c.Agrees c') (depth : Nat) : c.get depth = c'.get depth := by
  simp only [DegradationCurve.get, h.bucketIndex_eq, h.observations, h.value, h.warmThreshold]

theorem bucketObservations_eq (h : c.Agrees c') (depth : Nat) :
    c.bucketObservations depth = c'.bucketObservations depth := by
  simp only [bucketObservations, h.bucketIndex_eq, h.observations]

theorem configure (h : c.Agrees c') (cfg : DegradationCurveConfig F) :
    (c.configure cfg).Agrees (c'.configure cfg) where
  value := h.value
  observations := h.observations
  bucketCount := rfl
  bucketSize := rfl
  alpha := rfl
  warmThreshold := rfl

theorem update (h : c.Agrees c') (depth : Nat) (ratio : F) :
    (c.update depth ratio).Agrees (c'.update depth ratio) where
  value := by
    intro b
    simp only [DegradationCurve.update, h.bucketIndex_eq, Function.update_apply]
    split
    · simp only [observe, EMA.update, h.value, h.alpha]
    · exact h.value b
  observations := by
    intro b
    simp only [DegradationCurve.update, h.bucketIndex_eq, Function.update_apply]
    split
    · simp only [observe, h.observations]
    · exact h.observations b
  bucketCount := h.bucketCount
  bucketSize := h.bucketSize
  alpha := h.alpha
  warmThreshold := h.warmThreshold

end DegradationCurve.Agrees

/-- The same node state, up to the stored rates. -/
structure NodeLearningState.Agrees (s s' : NodeLearningState F) : Prop where
  value : s.throughputMultiplier.value = s'.throughputMultiplier.value
  observationCount : s.observationCount = s'.observationCount
  degradation : s.degradation.Agrees s'.degradation

/-- A node state agrees with itself. -/
theorem NodeLearningState.Agrees.refl (s : NodeLearningState F) : s.Agrees s :=
  ⟨rfl, rfl, fun _ => rfl, fun _ => rfl, rfl, rfl, rfl, rfl⟩

/-- Learning one completion keeps the agreement, since it overwrites the rate first. -/
theorem NodeLearningState.Agrees.learnNode {s s' : NodeLearningState F} (h : s.Agrees s')
    (cfg : CostModelConfig F) (depth : Nat) (r : F) :
    (CostModel.learnNode cfg s depth r).Agrees (CostModel.learnNode cfg s' depth r) where
  value := by simp only [CostModel.learnNode, EMA.update, h.value]
  observationCount := by simp only [CostModel.learnNode, h.observationCount]
  degradation := by
    simp only [CostModel.learnNode, h.observationCount]
    split
    · exact (h.degradation.configure _).update depth r
    · exact h.degradation.update depth r

/-- The two maps have states for the same nodes, and they agree. -/
def NodesAgree (nodes nodes' : HashMap NodeId (NodeLearningState F)) : Prop :=
  ∀ node, Option.Rel NodeLearningState.Agrees (nodes.lookup node) (nodes'.lookup node)

/-- A node is known to both maps, with states that agree, or to neither. -/
theorem NodesAgree.cases {nodes nodes' : HashMap NodeId (NodeLearningState F)}
    (h : NodesAgree nodes nodes') (node : NodeId) :
    (nodes.lookup node = none ∧ nodes'.lookup node = none) ∨
      ∃ s s', nodes.lookup node = some s ∧ nodes'.lookup node = some s' ∧ s.Agrees s' := by
  have hrel := h node
  cases hs : nodes.lookup node <;> cases hs' : nodes'.lookup node <;> rw [hs, hs'] at hrel
  case none.none => exact .inl ⟨rfl, rfl⟩
  case some.some s s' =>
    cases hrel with
    | some hagree => exact .inr ⟨s, s', rfl, rfl, hagree⟩
  all_goals cases hrel

namespace CostModel

/-- Two models with the same configuration whose parts agree. -/
structure Agrees (m m' : CostModel F) : Prop where
  mConfig : m.mConfig = m'.mConfig
  mDegradationEnabled : m.mDegradationEnabled = m'.mDegradationEnabled
  mAffinityMatrix : m.mAffinityMatrix = m'.mAffinityMatrix
  mNodeStates : NodesAgree m.mNodeStates m'.mNodeStates

/-- No query of the cost model tells the two apart. -/
structure Indistinguishable (m m' : CostModel F) : Prop where
  predict : ∀ job node, m.predict job node = m'.predict job node
  nodeMultiplier : ∀ node, m.nodeMultiplier node = m'.nodeMultiplier node
  isWarm : ∀ node, m.isWarm node = m'.isWarm node
  observationCount : ∀ node, m.observationCount node = m'.observationCount node
  affinityScore : ∀ node jobClass, m.affinityScore node jobClass = m'.affinityScore node jobClass
  affinityObservations : ∀ node jobClass,
    m.affinityObservations node jobClass = m'.affinityObservations node jobClass
  degradationMultiplier : ∀ node depth,
    m.degradationMultiplier node depth = m'.degradationMultiplier node depth
  degradationBucketObservations : ∀ node depth,
    m.degradationBucketObservations node depth = m'.degradationBucketObservations node depth

namespace Agrees

variable {m m' : CostModel F}

/-- Warmth is a matter of the counts. -/
theorem isWarmState_eq (h : m.Agrees m') {s s' : NodeLearningState F} (hs : s.Agrees s') :
    m.isWarmState s = m'.isWarmState s' := by
  simp only [isWarmState, h.mConfig, hs.observationCount]

/-- The compounded correction reads values and counts, and no rate. -/
theorem correction_eq (h : m.Agrees m') {s s' : NodeLearningState F} (hs : s.Agrees s')
    (job : Job) (node : NodeId) : m.correction s job node = m'.correction s' job node := by
  simp only [correction, h.mConfig, h.mAffinityMatrix, h.mDegradationEnabled, hs.value,
    hs.degradation.get_eq]

/-- The queries read nothing in which the two differ. -/
theorem indistinguishable (h : m.Agrees m') : m.Indistinguishable m' where
  predict := by
    intro job node
    unfold predict
    obtain ⟨hs, hs'⟩ | ⟨s, s', hs, hs', hagree⟩ := h.mNodeStates.cases node <;> rw [hs, hs']
    simp only [h.isWarmState_eq hagree, h.correction_eq hagree]
  nodeMultiplier := by
    intro node
    unfold nodeMultiplier
    obtain ⟨hs, hs'⟩ | ⟨s, s', hs, hs', hagree⟩ := h.mNodeStates.cases node <;> rw [hs, hs']
    simp only [h.isWarmState_eq hagree, hagree.value, h.mConfig]
  isWarm := by
    intro node
    unfold isWarm
    obtain ⟨hs, hs'⟩ | ⟨s, s', hs, hs', hagree⟩ := h.mNodeStates.cases node <;> rw [hs, hs']
    · rfl
    · simp only [Option.any_some, h.isWarmState_eq hagree]
  observationCount := by
    intro node
    unfold observationCount
    obtain ⟨hs, hs'⟩ | ⟨s, s', hs, hs', hagree⟩ := h.mNodeStates.cases node <;> rw [hs, hs']
    exact hagree.observationCount
  affinityScore := by
    intro node jobClass
    simp only [affinityScore, h.mAffinityMatrix]
  affinityObservations := by
    intro node jobClass
    simp only [affinityObservations, h.mAffinityMatrix]
  degradationMultiplier := by
    intro node depth
    unfold degradationMultiplier
    obtain ⟨hs, hs'⟩ | ⟨s, s', hs, hs', hagree⟩ := h.mNodeStates.cases node <;> rw [hs, hs']
    exact hagree.degradation.get_eq depth
  degradationBucketObservations := by
    intro node depth
    unfold degradationBucketObservations
    obtain ⟨hs, hs'⟩ | ⟨s, s', hs, hs', hagree⟩ := h.mNodeStates.cases node <;> rw [hs, hs']
    exact hagree.degradation.bucketObservations_eq depth

/-- An unknown node has the default state in both. -/
theorem nodeStateOrDefault (h : m.Agrees m') (node : NodeId) :
    (m.nodeStateOrDefault node).Agrees (m'.nodeStateOrDefault node) := by
  unfold CostModel.nodeStateOrDefault
  obtain ⟨hs, hs'⟩ | ⟨s, s', hs, hs', hagree⟩ := h.mNodeStates.cases node <;> rw [hs, hs']
  · exact .refl _
  · exact hagree

/-- One update keeps the two models together. -/
theorem update (h : m.Agrees m') (job : Job) : (m.update job).Agrees (m'.update job) := by
  unfold CostModel.update
  split
  · refine ⟨h.mConfig, h.mDegradationEnabled, ?_, ?_⟩
    · simp only [h.mAffinityMatrix]
    · intro node
      simp only [HashMap.lookup_insert_eq]
      split
      · rw [h.mConfig]
        exact .some ((h.nodeStateOrDefault _).learnNode _ _ _)
      · exact h.mNodeStates node
  · exact h

/-- So does any sequence of them. -/
theorem foldl_update (h : m.Agrees m') (jobs : List Job) :
    (jobs.foldl CostModel.update m).Agrees (jobs.foldl CostModel.update m') := by
  induction jobs generalizing m m' with
  | nil => exact h
  | cons job jobs ih => exact ih (h.update job)

end Agrees

end CostModel

/-! ## What updates can reach

A text holds only the configured buckets and cells.  What lies outside them has to be neutral for
the text to tell everything, and this is so in every model that updates have reached. -/

/-- The buckets hold 32-bit counts, and those that a configured curve never indexes are neutral. -/
structure DegradationCurve.Fits (c : DegradationCurve F) (cfg : DegradationCurveConfig F) :
    Prop where
  observations_lt : ∀ b, (c.buckets b).observations < 2 ^ 32
  unused : ∀ b, (DegradationCurve.configure {} cfg).bucketCount ≤ b.val →
    (c.buckets b).multiplier.value = FloatOps.lit 1 ∧ (c.buckets b).observations = 0

/-- The index of a depth is inside the configured buckets. -/
theorem DegradationCurve.bucketIndex_lt (c : DegradationCurve F) (depth : Nat) :
    (c.bucketIndex depth).val < c.bucketCount := by
  have hpos := c.bucketCount_pos
  unfold bucketIndex
  dsimp only
  split <;> omega

/-- An update writes one bucket, inside the configured ones. -/
theorem DegradationCurve.Fits.update {c : DegradationCurve F} {cfg : DegradationCurveConfig F}
    (h : c.Fits cfg) (hshape : c.Configured cfg) (depth : Nat) (r : F) :
    (c.update depth r).Fits cfg where
  observations_lt := by
    intro b
    simp only [DegradationCurve.update, Function.update_apply]
    split
    · exact fetchAdd32_lt _
    · exact h.observations_lt b
  unused := by
    intro b hb
    have hne : b ≠ c.bucketIndex depth := by
      rintro rfl
      have hlt := c.bucketIndex_lt depth
      rw [hshape.bucketCount] at hlt
      omega
    simp only [DegradationCurve.update, Function.update_apply, if_neg hne]
    exact h.unused b hb

/-- A node state that the model can hold, and that a text can carry. -/
structure NodeLearningState.Saved (s : NodeLearningState F) (cfg : CostModelConfig F) : Prop where
  count_lt : s.observationCount < 2 ^ 32
  configured : s.degradation.Configured cfg.degradation
  fits : s.degradation.Fits cfg.degradation

/-- An observation makes a saved state of a saved one, and of the default one, which it configures
first. -/
theorem CostModel.saved_learnNode {cfg : CostModelConfig F} {s : NodeLearningState F}
    (hfits : s.degradation.Fits cfg.degradation)
    (hconfigured : s.observationCount ≠ 0 → s.degradation.Configured cfg.degradation)
    (depth : Nat) (r : F) : (learnNode cfg s depth r).Saved cfg := by
  have hcurve : ∀ c : DegradationCurve F, c.Fits cfg.degradation → c.Configured cfg.degradation →
      (c.update depth r).Configured cfg.degradation ∧ (c.update depth r).Fits cfg.degradation := by
    intro c hc hshape
    exact ⟨⟨hshape.bucketCount, hshape.bucketSize, hshape.alpha, hshape.warmThreshold⟩,
      hc.update hshape depth r⟩
  have hfresh := hcurve (s.degradation.configure cfg.degradation)
    ⟨hfits.observations_lt, hfits.unused⟩ (s.degradation.configured_configure cfg.degradation)
  refine ⟨fetchAdd32_lt _, ?_, ?_⟩ <;> simp only [learnNode] <;> split
  · exact hfresh.1
  · next hne => exact (hcurve _ hfits (hconfigured hne)).1
  · exact hfresh.2
  · next hne => exact (hcurve _ hfits (hconfigured hne)).2

/-- A matrix whose cells are 32-bit counts, and neutral outside the tensors. -/
structure AffinityMatrix.Saved (a : AffinityMatrix F) : Prop where
  observations_lt : ∀ r c, a.mObservations r c < 2 ^ 32
  outside : ∀ r c, ¬(r < a.mConfig.maxNodes ∧ c < a.mConfig.maxJobClasses) →
    a.mValues r c = FloatOps.lit 1 ∧ a.mObservations r c = 0

/-- A new matrix is neutral everywhere. -/
theorem AffinityMatrix.saved_create (config : AffinityMatrixConfig F) : (create config).Saved where
  observations_lt _ _ := by
    show 0 < 2 ^ 32
    decide
  outside _ _ _ := ⟨rfl, rfl⟩

/-- An update writes one cell, inside the tensors. -/
theorem AffinityMatrix.Saved.update {a : AffinityMatrix F} (h : a.Saved)
    (hrows : 0 < a.mConfig.maxNodes) (hcols : 0 < a.mConfig.maxJobClasses) (node cls : Nat)
    (ratio : F) : (a.update node cls ratio).Saved where
  observations_lt := by
    intro r c
    simp only [AffinityMatrix.update, setCell_apply]
    split
    · exact fetchAdd32_lt _
    · exact h.observations_lt r c
  outside := by
    intro r c hout
    have hne : ¬(r = a.clampRow node ∧ c = a.clampCol cls) := by
      rintro ⟨rfl, rfl⟩
      exact hout ⟨clampIndex_lt hrows node, clampIndex_lt hcols cls⟩
    simp only [AffinityMatrix.update, setCell_apply, if_neg hne]
    exact h.outside r c hout

namespace CostModel

/-- What every model reached by updates satisfies. -/
structure Saved (m : CostModel F) (cfg : CostModelConfig F) : Prop where
  mConfig : m.mConfig = cfg
  mDegradationEnabled : m.mDegradationEnabled = true
  affinityConfig : m.mAffinityMatrix.mConfig = cfg.affinity
  affinity : m.mAffinityMatrix.Saved
  key_lt : ∀ node s, m.mNodeStates.lookup node = some s → node < 2 ^ 32
  state : ∀ node s, m.mNodeStates.lookup node = some s → s.Saved cfg

/-- A fresh model knows no node. -/
theorem saved_create (cfg : CostModelConfig F) : (create cfg).Saved cfg where
  mConfig := rfl
  mDegradationEnabled := rfl
  affinityConfig := rfl
  affinity := AffinityMatrix.saved_create _
  key_lt _ _ h := absurd h nofun
  state _ _ h := absurd h nofun

/-- One informative completion, in the three places it is learned. -/
theorem Saved.learned {m : CostModel F} {cfg : CostModelConfig F} (h : m.Saved cfg)
    (node : NodeId) (depth : Nat) (r : F) :
    (learnNode m.mConfig (m.nodeStateOrDefault node) depth r).Saved cfg := by
  rw [h.mConfig]
  unfold nodeStateOrDefault
  cases hs : m.mNodeStates.lookup node with
  | some s =>
      have hsaved := h.state node s hs
      exact saved_learnNode hsaved.fits (fun _ => hsaved.configured) depth r
  | none =>
      refine saved_learnNode ⟨fun _ => ?_, fun _ _ => ⟨rfl, rfl⟩⟩ (fun hne => absurd rfl hne) depth r
      show 0 < 2 ^ 32
      decide

/-- A completion that tells nothing changes nothing. -/
theorem Saved.update {m : CostModel F} {cfg : CostModelConfig F} (h : m.Saved cfg)
    (hrows : 0 < cfg.affinity.maxNodes) (hcols : 0 < cfg.affinity.maxJobClasses) {job : Job}
    (hjob : job.executedBy < 2 ^ 32) : (m.update job).Saved cfg := by
  unfold CostModel.update
  split
  · refine ⟨h.mConfig, h.mDegradationEnabled, h.affinityConfig, ?_, ?_, ?_⟩
    · rw [← h.affinityConfig] at hrows hcols
      exact h.affinity.update hrows hcols _ _ _
    · intro node s hs
      simp only [HashMap.lookup_insert_eq] at hs
      split at hs
      · next heq => exact heq ▸ hjob
      · exact h.key_lt node s hs
    · intro node s hs
      simp only [HashMap.lookup_insert_eq] at hs
      split at hs
      · obtain rfl := Option.some.inj hs
        exact h.learned _ _ _
      · exact h.state node s hs
  · exact h

/-- By induction on the completions. -/
theorem Saved.foldl_update {m : CostModel F} {cfg : CostModelConfig F} (h : m.Saved cfg)
    (hrows : 0 < cfg.affinity.maxNodes) (hcols : 0 < cfg.affinity.maxJobClasses) {jobs : List Job}
    (hjobs : ∀ job ∈ jobs, job.executedBy < 2 ^ 32) : (jobs.foldl CostModel.update m).Saved cfg := by
  induction jobs generalizing m with
  | nil => exact h
  | cons job jobs ih =>
      rw [List.forall_mem_cons] at hjobs
      exact ih (h.update hrows hcols hjobs.1) hjobs.2

end CostModel

/-! ## Loading what was saved

Counts and node identities go through decimal text, and `stoul` reads back what `to_string` has
written. -/

/-- Nothing is skipped in front of digits, and no sign is taken off them. -/
theorem splitSign_dropWhile_of_digits {cs : List Char} (h : ∀ c ∈ cs, c.isDigit = true) :
    splitSign (cs.dropWhile isSpace) = (false, cs) := by
  cases cs with
  | nil => rfl
  | cons d ds =>
      have hd : d.isDigit = true := h d List.mem_cons_self
      have hspace : isSpace d = false := by
        by_contra hsp
        simp only [isSpace, Bool.not_eq_false, Bool.or_eq_true, decide_eq_true_eq] at hsp
        obtain ((((rfl | rfl) | rfl) | rfl) | rfl) | rfl := hsp <;> exact absurd hd (by decide)
      rw [List.dropWhile_cons_of_neg (by rw [hspace]; decide)]
      unfold splitSign
      split
      · next heq =>
          obtain ⟨rfl, -⟩ := List.cons.inj heq
          exact absurd hd (by decide)
      · next heq =>
          obtain ⟨rfl, -⟩ := List.cons.inj heq
          exact absurd hd (by decide)
      · rfl

/-- A printed node key reads back as the node. -/
theorem stoul_toString {n : Nat} (h : n < 2 ^ 64) : stoul (toString n) = some n := by
  have hlist : (toString n).toList = Nat.toDigits 10 n := Nat.toList_repr
  have hdigit : ∀ c ∈ Nat.toDigits 10 n, c.isDigit = true := fun c hc =>
    Nat.isDigit_of_mem_toDigits (by decide) (by decide) hc
  have htake : (Nat.toDigits 10 n).takeWhile Char.isDigit = Nat.toDigits 10 n :=
    List.takeWhile_eq_self_iff.mpr hdigit
  have hne : (Nat.toDigits 10 n).isEmpty = false := by
    simp [Nat.toDigits_ne_nil]
  simp only [stoul, hlist, splitSign_dropWhile_of_digits hdigit, htake, hne,
    Nat.ofDigitChars_ten_toDigits]
  rw [if_neg (by decide), if_neg (by omega), if_neg (by decide)]

/-- A saved count is an integer in range, which `readU32` takes as it is. -/
theorem readU32_eq {D : Type v} {fs : JsonObject D} {key : String} {n : Nat} (hn : n < 2 ^ 32)
    (h : find fs key = some (.int64 (toInt64 n))) : AffinityMatrix.readU32 fs key = some n := by
  rw [AffinityMatrix.readU32, h]
  simp only [Option.bind_some, getInt, Option.map_some]
  rw [toInt64_of_lt (by omega), toUInt32_of_lt hn]

section Load

variable {D : Type v} [DoubleOps D] [FloatCasts F D]

/-! ### The affinity matrix

The two tensors are written row by row and read with the same indices. -/

/-- `load` restores a matrix from any value whose fields read as that matrix. -/
theorem AffinityMatrix.loadCells_eq {a b : AffinityMatrix F} (hconfig : a.mConfig = b.mConfig)
    (hsaved : b.Saved) {j : JsonValue D} {fs : JsonObject D} (hobj : j.getObject = some fs)
    (hrows : readU32 fs "maxNodes" = some b.mConfig.maxNodes)
    (hcols : readU32 fs "maxJobClasses" = some b.mConfig.maxJobClasses)
    {vals obs : Nat → Nat → JsonValue D}
    (hvals : (find fs "values").bind getArray =
      some (RowMajor.toList b.mConfig.maxNodes b.mConfig.maxJobClasses vals))
    (hobs : (find fs "observations").bind getArray =
      some (RowMajor.toList b.mConfig.maxNodes b.mConfig.maxJobClasses obs))
    (hvalue : ∀ r c, getFloat (FloatOps.lit 1) (vals r c) = b.mValues r c)
    (hcount : ∀ r c, getUInt32 0 (obs r c) = b.mObservations r c) :
    a.loadCells j = some b := by
  have hfill : a.fill (RowMajor.toList b.mConfig.maxNodes b.mConfig.maxJobClasses vals)
      (RowMajor.toList b.mConfig.maxNodes b.mConfig.maxJobClasses obs) = b := by
    obtain ⟨config, values, observations⟩ := b
    simp only [fill, reset, create, mk.injEq]
    refine ⟨hconfig, funext fun r => funext fun c => ?_, funext fun r => funext fun c => ?_⟩ <;>
      rw [hconfig] <;> split
    · next hin => rw [List.getD_eq_getElem?_getD, RowMajor.getElem?_toList _ hin.1 hin.2,
        Option.getD_some, hvalue]
    -- outside the matrix nothing is saved, and nothing has ever been learned
    · next hout => exact (hsaved.outside r c hout).1.symm
    · next hin => rw [List.getD_eq_getElem?_getD, RowMajor.getElem?_toList _ hin.1 hin.2,
        Option.getD_some, hcount]
    · next hout => exact (hsaved.outside r c hout).2.symm
  simp only [loadCells, hobj, hrows, hcols, hvals, hobs, Option.bind_some, hconfig,
    RowMajor.length_toList, ne_eq, not_true_eq_false, or_self, if_false, hfill]

/-- A count survives the trip through the text. -/
theorem readU32_readBackObject {fs : JsonObject D} {key : String} {n : Nat} (hn : n < 2 ^ 32)
    (h : find fs key = some (.int64 (toInt64 n))) :
    AffinityMatrix.readU32 (readBackObject fs) key = some n := by
  refine readU32_eq hn ?_
  rw [find_readBackObject, h]
  rfl

/-- A saved matrix loads into any matrix of its configuration, from memory. -/
theorem AffinityMatrix.load_save {a b : AffinityMatrix F} (hconfig : a.mConfig = b.mConfig)
    (hsaved : b.Saved) (hrows : b.mConfig.maxNodes < 2 ^ 32)
    (hcols : b.mConfig.maxJobClasses < 2 ^ 32) : a.load (b.save D) = (true, b) := by
  have hcells : a.loadCells (b.save D) = some b :=
    loadCells_eq hconfig hsaved rfl (readU32_eq hrows rfl) (readU32_eq hcols rfl) rfl rfl
      (fun r c => FloatCasts.toFloat_toDouble _)
      (fun r c => by
        rw [getUInt32, getInt]
        have hlt := hsaved.observations_lt r c
        simp only
        rw [toInt64_of_lt (by omega), toUInt32_of_lt hlt])
  rw [load, hcells]

/-- Element by element. -/
theorem readBack_toList (rows cols : Nat) (f : Nat → Nat → JsonValue D) :
    (JsonValue.array (RowMajor.toList rows cols f)).readBack =
      .array (RowMajor.toList rows cols fun r c => (f r c).readBack) := by
  rw [readBack, readBackArray_eq_map, RowMajor.map_toList]

/-- And from its text. -/
theorem AffinityMatrix.load_readBack {a b : AffinityMatrix F} (hconfig : a.mConfig = b.mConfig)
    (hsaved : b.Saved) (hrows : b.mConfig.maxNodes < 2 ^ 32)
    (hcols : b.mConfig.maxJobClasses < 2 ^ 32) : a.load (b.save D).readBack = (true, b) := by
  have hcells : a.loadCells (b.save D).readBack = some b := by
    refine loadCells_eq hconfig hsaved rfl (readU32_readBackObject hrows rfl)
      (readU32_readBackObject hcols rfl) ?_ ?_ (fun r c => getFloat_readBack _ _)
      (fun r c => getUInt32_readBack _ (hsaved.observations_lt r c))
    · rw [find_readBackObject]
      exact congrArg getArray (readBack_toList ..)
    · rw [find_readBackObject]
      exact congrArg getArray (readBack_toList ..)
  rw [load, hcells]

/-! ### Node states

The buckets of a node are written as an array of small objects and read back into the same
positions. -/

/-- The fields of a saved bucket, as they come back. -/
def Bucket.textFields (D : Type v) [DoubleOps D] [FloatCasts F D] (b : Bucket F) : JsonObject D :=
  readBackObject
    [("value", .double (FloatCasts.toDouble b.multiplier.value)),
     ("observations", .int64 (toInt64 b.observations))]

/-- The value of a bucket comes back. -/
theorem Bucket.load_textFields_value (b₀ b : Bucket F) :
    (b₀.load (b.textFields D)).multiplier.value = b.multiplier.value := by
  have hfind : find (b.textFields D) "value" =
      some (JsonValue.double (FloatCasts.toDouble b.multiplier.value)).readBack :=
    find_readBackObject _ _
  simp only [load, hfind]
  exact getFloat_readBack _ _

/-- The count of a bucket comes back. -/
theorem Bucket.load_textFields_observations (b₀ : Bucket F) {b : Bucket F}
    (h : b.observations < 2 ^ 32) : (b₀.load (b.textFields D)).observations = b.observations := by
  have hfind : find (b.textFields D) "observations" =
      some (JsonValue.int64 (toInt64 b.observations)).readBack :=
    find_readBackObject _ _
  simp only [load, hfind]
  exact getUInt32_readBack _ h

/-- The bucket loop over a list of objects fills the buckets in order, and no others. -/
theorem loadBuckets_apply (objs : List (JsonObject D)) (buckets : Fin kMaxBuckets → Bucket F)
    (b : Nat) (hfit : b + objs.length ≤ kMaxBuckets) (i : Fin kMaxBuckets) :
    loadBuckets buckets b (objs.map .object) i =
      if b ≤ i.val then
        match objs[i.val - b]? with
        | some obj => (buckets i).load obj
        | none => buckets i
      else buckets i := by
  induction objs generalizing buckets b with
  | nil => simp [loadBuckets]
  | cons obj objs ih =>
      rw [List.length_cons] at hfit
      have hb : b < kMaxBuckets := by omega
      rw [List.map_cons, loadBuckets, dif_pos hb]
      simp only [getObject]
      rw [ih _ (b + 1) (by omega)]
      -- before the bucket loaded first, that bucket, and the ones after it
      rcases Nat.lt_trichotomy i.val b with hlt | heq | hgt
      · have hne : i ≠ ⟨b, hb⟩ := by
          rintro rfl
          exact Nat.lt_irrefl _ hlt
        rw [if_neg (by omega), if_neg (by omega), Function.update_of_ne hne]
      · obtain rfl : i = ⟨b, hb⟩ := Fin.ext heq
        rw [if_neg (by simp), if_pos (by simp)]
        simp
      · have hne : i ≠ ⟨b, hb⟩ := by
          rintro rfl
          exact Nat.lt_irrefl _ hgt
        rw [if_pos (by omega), if_pos (by omega), Function.update_of_ne hne,
          show i.val - b = (i.val - (b + 1)) + 1 by omega, List.getElem?_cons_succ]

/-- The saved buckets of a curve, as they come back. -/
theorem DegradationCurve.readBack_toJson (c : DegradationCurve F) :
    (c.toJson D).readBack.getArray =
      some ((List.ofFn fun b : Fin c.bucketCount =>
        (c.buckets (b.castLE c.bucketCount_le)).textFields D).map .object) := by
  simp only [toJson, readBack, getArray, readBackArray_eq_map, List.map_ofFn]
  rfl

/-- Loading a saved curve into a freshly configured one gives the same curve. -/
theorem DegradationCurve.load_readBack {c : DegradationCurve F} {cfg : DegradationCurveConfig F}
    (hshape : c.Configured cfg) (hfits : c.Fits cfg) :
    c.Agrees ((DegradationCurve.configure {} cfg).load (some (c.toJson D).readBack)) := by
  have hle : 0 + (List.ofFn fun b : Fin c.bucketCount =>
      (c.buckets (b.castLE c.bucketCount_le)).textFields D).length ≤ kMaxBuckets := by
    rw [List.length_ofFn, Nat.zero_add]
    exact c.bucketCount_le
  have hbucket : ∀ i : Fin kMaxBuckets,
      ((DegradationCurve.configure {} cfg).load (some (c.toJson D).readBack)).buckets i =
        if i.val < c.bucketCount then
          Bucket.load {} ((c.buckets i).textFields D) else {} := by
    intro i
    simp only [load, Option.bind_some, readBack_toJson, loadBuckets_apply _ _ _ hle,
      Nat.zero_le, if_true, Nat.sub_zero, List.getElem?_ofFn]
    by_cases hi : i.val < c.bucketCount
    · rw [dif_pos hi, if_pos hi]
      rfl
    · rw [dif_neg hi, if_neg hi]
      rfl
  have hunused : ∀ i : Fin kMaxBuckets, ¬i.val < c.bucketCount →
      (c.buckets i).multiplier.value = FloatOps.lit 1 ∧ (c.buckets i).observations = 0 := by
    intro i hi
    refine hfits.unused i ?_
    rw [← hshape.bucketCount]
    exact Nat.le_of_not_lt hi
  refine ⟨fun i => ?_, fun i => ?_, hshape.bucketCount, hshape.bucketSize, hshape.alpha,
    hshape.warmThreshold⟩
  · rw [hbucket]
    split
    · exact (Bucket.load_textFields_value _ _).symm
    · next hi => exact (hunused i hi).1
  · rw [hbucket]
    split
    · exact (Bucket.load_textFields_observations _ (hfits.observations_lt i)).symm
    · next hi => exact (hunused i hi).2

/-- The fields of a saved node state, as they come back. -/
def NodeLearningState.textFields (D : Type v) [DoubleOps D] [FloatCasts F D]
    (s : NodeLearningState F) : JsonObject D :=
  readBackObject
    [("throughputMultiplier", .double (FloatCasts.toDouble s.throughputMultiplier.value)),
     ("observationCount", .int64 (toInt64 s.observationCount)),
     ("degradationBuckets", s.degradation.toJson D)]

/-- What the text of a node state reads back as. -/
theorem NodeLearningState.readBack_toJson (s : NodeLearningState F) :
    (s.toJson D).readBack = .object (s.textFields D) := by
  rw [toJson, readBack, textFields]

/-- Loading a node state, field by field. -/
theorem NodeLearningState.load_eq {cfg : CostModelConfig F} {ns : JsonObject D}
    {tm oc : JsonValue D} (htm : find ns "throughputMultiplier" = some tm)
    (hoc : find ns "observationCount" = some oc) :
    NodeLearningState.load cfg ns = some {
      throughputMultiplier :=
        { value := getFloat (FloatOps.lit 1) tm, alpha := FloatOps.lit (1 / 20) }
      observationCount := getUInt32 0 oc
      degradation :=
        (DegradationCurve.configure {} cfg.degradation).load (find ns "degradationBuckets") } := by
  rw [NodeLearningState.load, htm, hoc, Option.bind_some, Option.bind_some]
  rfl

/-- A saved node state comes back up to its stored rates. -/
theorem NodeLearningState.load_textFields {s : NodeLearningState F} {cfg : CostModelConfig F}
    (h : s.Saved cfg) :
    ∃ s', NodeLearningState.load cfg (s.textFields D) = some s' ∧ s.Agrees s' := by
  have htm : find (s.textFields D) "throughputMultiplier" =
      some (JsonValue.double (FloatCasts.toDouble s.throughputMultiplier.value)).readBack :=
    find_readBackObject _ _
  have hoc : find (s.textFields D) "observationCount" =
      some (JsonValue.int64 (toInt64 s.observationCount)).readBack :=
    find_readBackObject _ _
  have hdb : find (s.textFields D) "degradationBuckets" =
      some (s.degradation.toJson D).readBack :=
    find_readBackObject _ _
  refine ⟨_, NodeLearningState.load_eq htm hoc, ?_, ?_, ?_⟩
  · exact (getFloat_readBack _ _).symm
  · have hcount := getUInt32_readBack (D := D) 0 h.count_lt
    dsimp only
    rw [hcount]
  · rw [hdb]
    exact DegradationCurve.load_readBack h.configured h.fits

/-- The node loop over the saved states of nodes with distinct 32-bit keys. -/
theorem loadNodes_textFields {cfg : CostModelConfig F}
    (l : List (Sigma fun _ : NodeId => NodeLearningState F)) (hkeys : l.NodupKeys)
    (hlt : ∀ e ∈ l, e.1 < 2 ^ 32) (hsaved : ∀ e ∈ l, e.2.Saved cfg)
    (acc : HashMap NodeId (NodeLearningState F)) :
    ∃ nodes, loadNodes cfg acc (l.map fun e => (toString e.1, .object (e.2.textFields D))) =
        some nodes ∧
      ∀ node, match l.dlookup node with
        | some s => ∃ s', nodes.lookup node = some s' ∧ s.Agrees s'
        | none => nodes.lookup node = acc.lookup node := by
  induction l generalizing acc with
  | nil => exact ⟨acc, rfl, fun _ => rfl⟩
  | cons e l ih =>
      obtain ⟨key, s⟩ := e
      rw [List.nodupKeys_cons] at hkeys
      rw [List.forall_mem_cons] at hlt hsaved
      obtain ⟨s', hload, hagree⟩ := NodeLearningState.load_textFields (D := D) hsaved.1
      have hkey_lt : key < 2 ^ 32 := hlt.1
      -- a key is printed in decimal, and read back as the same 32-bit number
      have hkey : stoul (toString key) = some key := stoul_toString (Nat.lt_trans hkey_lt (by decide))
      have hmod : key % 2 ^ 32 = key := Nat.mod_eq_of_lt hkey_lt
      obtain ⟨nodes, hnodes, hlookup⟩ := ih hkeys.2 hlt.2 hsaved.2 (acc.insert key s')
      refine ⟨nodes, ?_, fun node => ?_⟩
      · simp only [List.map_cons, loadNodes, getObject, Option.bind_some, hload, hkey, hmod, hnodes]
      · have hrest := hlookup node
        -- the keys are distinct, so the rest of the list leaves this entry alone
        by_cases hnode : node = key
        · subst hnode
          rw [List.dlookup_eq_none.mpr hkeys.1] at hrest
          rw [List.dlookup_cons_eq]
          exact ⟨s', hrest.trans (AList.lookup_insert _), hagree⟩
        · rw [List.dlookup_cons_ne l ⟨key, s⟩ hnode]
          split at hrest
          · exact hrest
          · rw [hrest, AList.lookup_insert_ne hnode]

end Load

/-! ## The round trip

`parse` looks for the two sections under their names, the matrix first, and reads each with the
configuration of the model it loads for. -/

namespace CostModel

variable {D : Type v} [DoubleOps D] [FloatCasts F D] {Text : Type w}

/-- The fields of a saved model, as they come back. -/
def textFields (D : Type v) [DoubleOps D] [FloatCasts F D] (m : CostModel F) : JsonObject D :=
  readBackObject
    [("version", .int64 1),
     ("nodes", .object (m.mNodeStates.entries.map fun e => (toString e.1, e.2.toJson D))),
     ("affinity", m.mAffinityMatrix.save D)]

/-- The nodes of a saved model, as they come back. -/
def textNodes (D : Type v) [DoubleOps D] [FloatCasts F D] (m : CostModel F) : JsonObject D :=
  m.mNodeStates.entries.map fun e => (toString e.1, .object (e.2.textFields D))

/-- The first section is found under its name. -/
theorem find_textFields_affinity (m : CostModel F) :
    find (m.textFields D) "affinity" = some (m.mAffinityMatrix.save D).readBack := by
  rw [textFields, find_readBackObject]
  simp [find, List.lookup_cons]

/-- The second section is found under its name. -/
theorem find_textFields_nodes (m : CostModel F) :
    find (m.textFields D) "nodes" = some (.object (m.textNodes D)) := by
  have hfind : find (m.textFields D) "nodes" = some (JsonValue.object
      (m.mNodeStates.entries.map fun e => (toString e.1, e.2.toJson D))).readBack := by
    rw [textFields, find_readBackObject]
    simp [find, List.lookup_cons]
  rw [hfind, readBack, readBackObject_eq_map, List.map_map, textNodes]
  simp only [Function.comp_def, NodeLearningState.readBack_toJson]

/-- `parse` on a text whose sections are there and well formed. -/
theorem parse_eq {json : JsonText Text D} {cfg : CostModelConfig F} {content : Text}
    {rootObj nodesObj : JsonObject D} {affinity : JsonValue D} {tmpAffinity : AffinityMatrix F}
    {tmpNodes : HashMap NodeId (NodeLearningState F)}
    (hcontent : json.parse_json content = some (.object rootObj))
    (haffinity : find rootObj "affinity" = some affinity)
    (hload : (AffinityMatrix.create cfg.affinity).load affinity = (true, tmpAffinity))
    (hnodes : (find rootObj "nodes").bind getObject = some nodesObj)
    (hread : loadNodes cfg ∅ nodesObj = some tmpNodes) :
    parse json cfg content = .ok (tmpAffinity, tmpNodes) := by
  simp only [parse, hcontent, Option.bind_some, getObject, haffinity, hload]
  rw [hnodes, Option.bind_some, hread]

/-- Parsing the text of a saved model gives its matrix, and node states that agree with its own. -/
theorem parse_textFields (json : JsonText Text D) {m : CostModel F} {cfg : CostModelConfig F}
    (h : m.Saved cfg) (hrows : cfg.affinity.maxNodes < 2 ^ 32)
    (hcols : cfg.affinity.maxJobClasses < 2 ^ 32) {content : Text}
    (hcontent : json.parse_json content = some (.object (m.textFields D))) :
    ∃ nodes, parse json cfg content = .ok (m.mAffinityMatrix, nodes) ∧
      NodesAgree m.mNodeStates nodes := by
  have hload : (AffinityMatrix.create cfg.affinity).load (m.mAffinityMatrix.save D).readBack =
      (true, m.mAffinityMatrix) := by
    rw [← h.affinityConfig] at hrows hcols
    exact AffinityMatrix.load_readBack h.affinityConfig.symm h.affinity hrows hcols
  have hmem : ∀ e ∈ m.mNodeStates.entries, m.mNodeStates.lookup e.1 = some e.2 := fun e he =>
    AList.mem_lookup_iff.mpr he
  obtain ⟨nodes, hread, hlookup⟩ := loadNodes_textFields (D := D) m.mNodeStates.entries
    m.mNodeStates.nodupKeys (fun e he => h.key_lt e.1 e.2 (hmem e he))
    (fun e he => h.state e.1 e.2 (hmem e he)) ∅
  refine ⟨nodes, ?_, fun node => ?_⟩
  · have hnodes : (find (m.textFields D) "nodes").bind getObject = some (m.textNodes D) := by
      rw [find_textFields_nodes, Option.bind_some, getObject]
    exact parse_eq hcontent m.find_textFields_affinity hload hnodes hread
  · have hnode := hlookup node
    cases hs : m.mNodeStates.lookup node with
    | some s =>
        rw [show m.mNodeStates.entries.dlookup node = some s from hs] at hnode
        obtain ⟨s', hs', hagree⟩ := hnode
        rw [hs']
        exact .some hagree
    | none =>
        rw [show m.mNodeStates.entries.dlookup node = none from hs] at hnode
        rw [hnode]
        exact .none

/-- A saved model loads into a fresh one of its configuration as a model that agrees with it. -/
theorem load_save_agrees (json : JsonText Text D) {m : CostModel F} {cfg : CostModelConfig F}
    (h : m.Saved cfg) (hrows : cfg.affinity.maxNodes < 2 ^ 32)
    (hcols : cfg.affinity.maxJobClasses < 2 ^ 32) :
    ∃ text m', m.save json true = .ok text ∧
      (create cfg).load json (some text) = (.ok (), m') ∧ m.Agrees m' := by
  have hcontent : json.parse_json (json.to_json_string (m.toJson D) true) =
      some (.object (m.textFields D)) := by
    rw [json.parse_json_to_json_string, toJson, readBack, textFields]
  obtain ⟨nodes, hparse, hnodes⟩ := parse_textFields json h hrows hcols hcontent
  have haffinity : ((create cfg).mAffinityMatrix.reset.load (m.mAffinityMatrix.save D)).2 =
      m.mAffinityMatrix := by
    rw [← h.affinityConfig] at hrows hcols
    rw [AffinityMatrix.load_save h.affinityConfig.symm h.affinity hrows hcols]
  refine ⟨_, { create cfg with mNodeStates := nodes, mAffinityMatrix := m.mAffinityMatrix },
    rfl, ?_, h.mConfig, h.mDegradationEnabled, rfl, hnodes⟩
  have hconfig : (create cfg).mConfig = cfg := rfl
  simp only [load, hconfig, hparse, haffinity]

/-- Saving a model that updates have reached and loading it into a fresh model of the same
configuration succeeds, and no further updates and no query tell the two models apart. -/
theorem load_save_indistinguishable (json : JsonText Text D) (cfg : CostModelConfig F)
    (hrows : 0 < cfg.affinity.maxNodes ∧ cfg.affinity.maxNodes < 2 ^ 32)
    (hcols : 0 < cfg.affinity.maxJobClasses ∧ cfg.affinity.maxJobClasses < 2 ^ 32)
    (jobs : List Job) (hjobs : ∀ job ∈ jobs, job.executedBy < 2 ^ 32) :
    ∃ text loaded,
      (jobs.foldl CostModel.update (create cfg)).save json true = .ok text ∧
      (create cfg).load json (some text) = (.ok (), loaded) ∧
      ∀ more : List Job, (more.foldl CostModel.update (jobs.foldl CostModel.update
        (create cfg))).Indistinguishable (more.foldl CostModel.update loaded) := by
  have hsaved := (saved_create cfg).foldl_update hrows.1 hcols.1 hjobs
  obtain ⟨text, loaded, hsave, hload, hagree⟩ := load_save_agrees json hsaved hrows.2 hcols.2
  exact ⟨text, loaded, hsave, hload, fun more => (hagree.foldl_update more).indistinguishable⟩

/-- Two nodes, one of them with two observations, in exact arithmetic. -/
theorem load_save_indistinguishable_two :
    let cfg : CostModelConfig Rat := { affinity := { maxNodes := 4, maxJobClasses := 2 } }
    let m := [{ estimatedCost := 2, observedCost := 3, executedBy := 1, jobClass := 1 },
      { estimatedCost := 4, observedCost := 1, executedBy := 2, queueDepthAtDispatch := 9 },
      { estimatedCost := 5, observedCost := 5, executedBy := 1 }].foldl CostModel.update (create cfg)
    ∃ text loaded,
      m.save (JsonText.tree Rat) true = .ok text ∧
      (create cfg).load (JsonText.tree Rat) (some text) = (.ok (), loaded) ∧
      ∀ more : List Job, (more.foldl CostModel.update m).Indistinguishable
        (more.foldl CostModel.update loaded) :=
  load_save_indistinguishable (JsonText.tree Rat) _ (by decide) (by decide) _ (by decide)

end CostModel

end FatpBalancer
