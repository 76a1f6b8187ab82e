/-
# The demo's cluster and its cost model

`SimulatedCluster` numbers its nodes from 1, the affinity matrix numbers its rows from 0, and
`BalancerDemo` gives the matrix as many rows as the cluster has nodes.  The last node is past the
edge and shares the row of the node before it.
-/
import FatpBalancer.Balancer.State

universe u

namespace FatpBalancer

variable {F : Type u} [FloatOps F]

/-- The identities of the nodes: `NodeId{i + 1}` for `i` from 0. -/
def SimulatedCluster.nodes (nodeCount : Nat) : List NodeId :=
  (List.range nodeCount).map fun i => i + 1

theorem SimulatedCluster.mem_nodes {nodeCount node : Nat} :
    node ∈ nodes nodeCount ↔ 1 ≤ node ∧ node ≤ nodeCount := by
  simp only [nodes, List.mem_map, List.mem_range]
  constructor
  · rintro ⟨i, hi, rfl⟩
    omega
  · rintro ⟨hpos, hle⟩
    exact ⟨node - 1, by omega, by omega⟩

/-- The configuration of the demo's balancer. -/
def BalancerDemo.config (numNodes numClasses : Nat) : BalancerConfig F where
  admission := { capacity_lt := AdmissionConfig.default_lt }
  costModel := { affinity := { maxNodes := numNodes, maxJobClasses := numClasses } }
  nodes := SimulatedCluster.nodes numNodes

namespace CostModel

/-- Every query about a node answers the same. -/
structure SameAnswers (m m' : CostModel F) (node : NodeId) : Prop where
  predict : ∀ job, m'.predict job node = m.predict job node
  nodeMultiplier : m'.nodeMultiplier node = m.nodeMultiplier node
  affinityScore : ∀ jobClass, m'.affinityScore node jobClass = m.affinityScore node jobClass
  affinityObservations : ∀ jobClass,
    m'.affinityObservations node jobClass = m.affinityObservations node jobClass
  degradationMultiplier : ∀ depth,
    m'.degradationMultiplier node depth = m.degradationMultiplier node depth

/-! ## What an update leaves alone -/

/-- Another node's state is left alone. -/
theorem lookup_update_ne (m : CostModel F) {job : Job} {node : NodeId}
    (hne : node ≠ job.executedBy) :
    (m.update job).mNodeStates.lookup node = m.mNodeStates.lookup node := by
  unfold update
  split
  · exact AList.lookup_insert_ne hne
  · rfl

theorem update_mConfig (m : CostModel F) (job : Job) : (m.update job).mConfig = m.mConfig := by
  unfold update
  split <;> rfl

theorem update_mDegradationEnabled (m : CostModel F) (job : Job) :
    (m.update job).mDegradationEnabled = m.mDegradationEnabled := by
  unfold update
  split <;> rfl

theorem affinityConfig_update (m : CostModel F) (job : Job) :
    (m.update job).mAffinityMatrix.mConfig = m.mAffinityMatrix.mConfig := by
  unfold update
  split <;> rfl

/-- A row that the executing node is not clamped into is left alone. -/
theorem row_update_ne (m : CostModel F) {job : Job} {node : NodeId}
    (hrow : m.mAffinityMatrix.clampRow node ≠ m.mAffinityMatrix.clampRow job.executedBy)
    (col : Nat) :
    (m.update job).mAffinityMatrix.mValues (m.mAffinityMatrix.clampRow node) col =
        m.mAffinityMatrix.mValues (m.mAffinityMatrix.clampRow node) col ∧
      (m.update job).mAffinityMatrix.mObservations (m.mAffinityMatrix.clampRow node) col =
        m.mAffinityMatrix.mObservations (m.mAffinityMatrix.clampRow node) col := by
  unfold update
  split
  · simp only [AffinityMatrix.update, AffinityMatrix.setCell_apply]
    rw [if_neg fun h => hrow h.1, if_neg fun h => hrow h.1]
    exact ⟨rfl, rfl⟩
  · exact ⟨rfl, rfl⟩

/-- A node with a state and a row of its own answers as before. -/
theorem sameAnswers_of_row_ne (m : CostModel F) {job : Job} {node : NodeId}
    (hne : node ≠ job.executedBy)
    (hrow : m.mAffinityMatrix.clampRow node ≠ m.mAffinityMatrix.clampRow job.executedBy) :
    SameAnswers m (m.update job) node := by
  have hlookup := m.lookup_update_ne hne
  have hcfg := m.update_mConfig job
  have hrowcfg := m.affinityConfig_update job
  have hobs : ∀ c, (m.update job).mAffinityMatrix.observations node c =
      m.mAffinityMatrix.observations node c := by
    intro c
    simp only [AffinityMatrix.observations, AffinityMatrix.clampRow, AffinityMatrix.clampCol,
      hrowcfg]
    exact (m.row_update_ne hrow _).2
  have hget : ∀ c, (m.update job).mAffinityMatrix.get node c = m.mAffinityMatrix.get node c := by
    intro c
    have hvalue := (m.row_update_ne hrow (m.mAffinityMatrix.clampCol c)).1
    simp only [AffinityMatrix.clampRow, AffinityMatrix.clampCol] at hvalue
    simp only [AffinityMatrix.get, hobs, hrowcfg, AffinityMatrix.clampRow,
      AffinityMatrix.clampCol, hvalue]
  have hwarm : ∀ s, (m.update job).isWarmState s = m.isWarmState s := by
    intro s
    simp only [isWarmState, hcfg]
  refine ⟨fun query => ?_, ?_, hget, hobs, fun depth => ?_⟩
  · unfold predict
    rw [hlookup]
    cases m.mNodeStates.lookup node with
    | none => rfl
    | some s => simp only [hwarm, correction, hcfg, hget, m.update_mDegradationEnabled job]
  · unfold nodeMultiplier
    rw [hlookup]
    cases m.mNodeStates.lookup node with
    | none => rfl
    | some s => simp only [hwarm, hcfg]
  · unfold degradationMultiplier
    rw [hlookup]

/-- A node that shares the row of the executing node sees one observation more. -/
theorem not_sameAnswers_of_row_eq (m : CostModel F) {job : Job} {node : NodeId}
    (hinf : informative job = true)
    (hrow : m.mAffinityMatrix.clampRow node = m.mAffinityMatrix.clampRow job.executedBy) :
    ¬SameAnswers m (m.update job) node := by
  intro hsame
  have hobs := hsame.affinityObservations job.jobClass
  simp only [AffinityMatrix.clampRow] at hrow
  simp only [affinityObservations, m.update_of_informative hinf, AffinityMatrix.update,
    AffinityMatrix.observations, AffinityMatrix.clampRow, AffinityMatrix.clampCol,
    AffinityMatrix.setCell_apply, hrow, and_self, if_true] at hobs
  unfold fetchAdd32 at hobs
  omega

/-! ## The demo's rows -/

/-- Two nodes of the cluster share a row when they are its last two. -/
theorem clampIndex_eq_iff {n a b : Nat} (ha : a ∈ SimulatedCluster.nodes n)
    (hb : b ∈ SimulatedCluster.nodes n) (hne : b ≠ a) :
    AffinityMatrix.clampIndex n b = AffinityMatrix.clampIndex n a ↔ n ≤ a + 1 ∧ n ≤ b + 1 := by
  rw [SimulatedCluster.mem_nodes] at ha hb
  unfold AffinityMatrix.clampIndex
  rw [fetchSub32_of_pos (by omega)]
  split <;> split <;> omega

/-- **Nodes are isolated up to the last two.**  In the demo's cluster, a completion on one node
leaves every answer about another node as it was if and only if it teaches the model nothing or the
two are not the last two nodes of the cluster. -/
theorem update_isolated_iff (numNodes numClasses : Nat) {m : CostModel F} {job : Job}
    {node : NodeId}
    (hrows : m.mAffinityMatrix.mConfig.maxNodes =
      (BalancerDemo.config numNodes numClasses : BalancerConfig F).costModel.affinity.maxNodes)
    (hexecuted : job.executedBy ∈ SimulatedCluster.nodes numNodes)
    (hnode : node ∈ SimulatedCluster.nodes numNodes) (hne : node ≠ job.executedBy) :
    SameAnswers m (m.update job) node ↔
      informative job = false ∨ ¬(numNodes ≤ job.executedBy + 1 ∧ numNodes ≤ node + 1) := by
  have hshared : m.mAffinityMatrix.clampRow node = m.mAffinityMatrix.clampRow job.executedBy ↔
      numNodes ≤ job.executedBy + 1 ∧ numNodes ≤ node + 1 := by
    simp only [AffinityMatrix.clampRow, hrows]
    exact clampIndex_eq_iff hexecuted hnode hne
  constructor
  · intro hsame
    by_contra hnot
    rw [not_or, not_not, Bool.not_eq_false] at hnot
    exact m.not_sameAnswers_of_row_eq hnot.1 (hshared.mpr hnot.2) hsame
  · rintro (hinf | hlast)
    · have hupdate : m.update job = m := if_neg (by simp [hinf])
      rw [hupdate]
      exact ⟨fun _ => rfl, rfl, fun _ => rfl, fun _ => rfl, fun _ => rfl⟩
    · exact m.sameAnswers_of_row_ne hne fun h => hlast (hshared.mp h)

/-- A completion that took twice its estimate, on the last node of a cluster of three. -/
def slowOnThree : Job := { estimatedCost := 100, observedCost := 200, executedBy := 3 }

/-- The first node does not see it. -/
theorem update_isolated_iff_first :
    SameAnswers (create (BalancerDemo.config 3 4 : BalancerConfig Rat).costModel)
      ((create (BalancerDemo.config 3 4).costModel).update slowOnThree) 1 :=
  (update_isolated_iff 3 4 rfl (by decide) (by decide) (by decide)).mpr (Or.inr (by decide))

/-- **The last two nodes share a row.**  The completion is counted for the second node too. -/
theorem last_two_share_a_row :
    slowOnThree.executedBy ∈ SimulatedCluster.nodes 3 ∧ 2 ∈ SimulatedCluster.nodes 3 ∧
      2 ≠ slowOnThree.executedBy ∧
      ¬SameAnswers (create (BalancerDemo.config 3 4 : BalancerConfig Rat).costModel)
        ((create (BalancerDemo.config 3 4).costModel).update slowOnThree) 2 := by
  refine ⟨by decide, by decide, by decide, fun hsame => ?_⟩
  have hobs := hsame.affinityObservations 0
  revert hobs
  decide

end CostModel

end FatpBalancer
