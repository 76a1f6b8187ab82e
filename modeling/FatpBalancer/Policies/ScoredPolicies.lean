/-
# Four policies that select by a score

`LeastLoaded`, `ShortestJobFirst`, `WeightedCapacity` and `EarliestDeadlineFirst` make the same pass,
each with a score of its own.  The scores of the first three are 32-bit floats and are computed and
compared as such; that of the fourth is a 64-bit integer.  Where the higher score is the better one
the comparison is turned round.  What the policies select is said at the end over exact arithmetic,
in which no two different scores round to the same float.

A policy is its score and its comparison; everything else is `Selection`.  `EarliestDeadlineFirst`
has two scores and goes by the job: with a deadline the longest slack, in the wrapping arithmetic of
64-bit counts and 32-bit weights, and without one the shallowest queue.  `NoOverflow` is the
condition under which the slack is the difference it stands for.
-/
import FatpBalancer.Policies.Selection

universe u

namespace FatpBalancer

open OrderDual (toDual)

namespace LeastLoaded

variable {F : Type u} [FloatOps F]

/-- The 32-bit queue weight times the learned multiplier. -/
def effectiveLoad (view : ClusterView F) (m : LoadMetrics) : F :=
  FloatOps.ofUInt64 (fetchAdd32 m.queueDepth) * view.nodeMultiplier m.nodeId

def selectNode (job : Job) (view : ClusterView F) : Except SelectError NodeId :=
  Selection.selectBy FloatOps.lt FloatOps.eq (FloatOps.lit floatMax) (effectiveLoad view) job
    view.nodes

end LeastLoaded

namespace ShortestJobFirst

variable {F : Type u} [FloatOps F]

/-- Both factors are rounded to a float, and so is their product. -/
def completion (view : ClusterView F) (job : Job) (m : LoadMetrics) : F :=
  FloatOps.ofUInt64 (view.predictCost job m.nodeId) * FloatOps.ofUInt64 (fetchAdd32 m.queueDepth)

def selectNode (job : Job) (view : ClusterView F) : Except SelectError NodeId :=
  Selection.selectBy FloatOps.lt FloatOps.eq (FloatOps.lit floatMax) (completion view job) job
    view.nodes

end ShortestJobFirst

namespace WeightedCapacity

variable {F : Type u} [FloatOps F]

/-- The first entry of the node counts; what is not positive is replaced by 1. -/
def weightFor : List (NodeId × F) → NodeId → F
  | [], _ => FloatOps.lit 1
  | (nodeId, weight) :: rest, id =>
      if nodeId = id then
        if FloatOps.lt (FloatOps.lit 0) weight then weight else FloatOps.lit 1
      else weightFor rest id

/-- The utilisation of a snapshot is a float already, and is kept as its value. -/
def availableCapacity (mWeights : List (NodeId × F)) (m : LoadMetrics) : F :=
  weightFor mWeights m.nodeId * (FloatOps.lit 1 - FloatOps.lit m.utilization)

/-- The higher capacity is the better one. -/
def selectNode (mWeights : List (NodeId × F)) (job : Job) (view : ClusterView F) :
    Except SelectError NodeId :=
  Selection.selectBy (fun a b => FloatOps.lt b a) FloatOps.eq (FloatOps.lit (-floatMax))
    (availableCapacity mWeights) job view.nodes

/-- The weight of a node is its configured one, if there is one and it is positive, and else 1. -/
theorem weightFor_eq (mWeights : List (NodeId × Rat)) (id : NodeId) :
    weightFor mWeights id = ((mWeights.lookup id).filter (0 < ·)).getD 1 := by
  induction mWeights with
  | nil => rfl
  | cons entry rest ih =>
      obtain ⟨nodeId, weight⟩ := entry
      have hlt : FloatOps.lt (FloatOps.lit 0) weight = decide (0 < weight) := rfl
      rw [weightFor, List.lookup_cons, hlt]
      by_cases hnode : nodeId = id
      · subst hnode
        by_cases hpos : 0 < weight
        · simp [hpos, Option.filter_some]
        · have hone : (FloatOps.lit 1 : Rat) = 1 := rfl
          simp [hpos, hone, Option.filter_some]
      · have hbeq : (id == nodeId) = false := by simpa using Ne.symm hnode
        rw [if_neg hnode, hbeq, ih]

end WeightedCapacity

namespace EarliestDeadlineFirst

variable {F : Type u} [FloatOps F]

/-- The time the node would have left, in 64-bit arithmetic.  The cost counts as microseconds and
the clock ticks in nanoseconds. -/
def slack (now deadline : TimePoint) (view : ClusterView F) (job : Job) (m : LoadMetrics) :
    Duration :=
  let totalWork := wrapInt64
    (toInt64 (view.predictCost job m.nodeId) * toInt64 (fetchAdd32 m.queueDepth))
  let estimatedDuration := wrapInt64 (totalWork * 1000)
  wrapInt64 (deadline - wrapInt64 (now + estimatedDuration))

/-- The longer slack is the better one; it is compared with `Duration::min()` at first. -/
def selectForDeadlineJob (now deadline : TimePoint) (job : Job) (view : ClusterView F)
    (nodes : List LoadMetrics) : Except SelectError NodeId :=
  Selection.pick (toDual (-2 ^ 63 : Int)) (fun m => toDual (slack now deadline view job m)) job nodes

def selectForNonDeadlineJob (job : Job) (nodes : List LoadMetrics) : Except SelectError NodeId :=
  Selection.pick (2 ^ 32 - 1) LoadMetrics.queueDepth job nodes

/-- `now` is what the clock reads in the call. -/
def selectNode (now : TimePoint) (job : Job) (view : ClusterView F) : Except SelectError NodeId :=
  if view.nodes.isEmpty then .error .noNodes
  else
    match job.deadline with
    | some deadline => selectForDeadlineJob now deadline job view view.nodes
    | none => selectForNonDeadlineJob job view.nodes

/-- The deadline less the estimated finish, over the integers. -/
def trueSlack (now deadline : TimePoint) (view : ClusterView F) (job : Job) (m : LoadMetrics) : Int :=
  deadline - (now + view.predictCost job m.nodeId * (m.queueDepth + 1) * 1000)

/-- No step of the computation leaves its type. -/
def NoOverflow (now deadline : TimePoint) (view : ClusterView F) (job : Job) (m : LoadMetrics) :
    Prop :=
  m.queueDepth < 2 ^ 32 - 1 ∧ view.predictCost job m.nodeId < 2 ^ 63 ∧
    (view.predictCost job m.nodeId * (m.queueDepth + 1) * 1000 : Int) < 2 ^ 63 ∧
    (-2 ^ 63 : Int) ≤ now + view.predictCost job m.nodeId * (m.queueDepth + 1) * 1000 ∧
    (now + view.predictCost job m.nodeId * (m.queueDepth + 1) * 1000 : Int) < 2 ^ 63 ∧
    -2 ^ 63 ≤ trueSlack now deadline view job m ∧ trueSlack now deadline view job m < 2 ^ 63

instance (now deadline : TimePoint) (view : ClusterView F) (job : Job) (m : LoadMetrics) :
    Decidable (NoOverflow now deadline view job m) :=
  inferInstanceAs (Decidable (_ ∧ _))

section

variable {now deadline : TimePoint} {view : ClusterView F} {job : Job}

theorem slack_eq_trueSlack {m : LoadMetrics} (h : NoOverflow now deadline view job m) :
    slack now deadline view job m = trueSlack now deadline view job m := by
  obtain ⟨hdepth, hcost, hduration, hfge, hflt, hsge, hslt⟩ := h
  have hweight : toInt64 (fetchAdd32 m.queueDepth) = m.queueDepth + 1 := by
    have hlt : fetchAdd32 m.queueDepth < 2 ^ 63 := (fetchAdd32_lt _).trans (by decide)
    rw [toInt64_of_lt hlt, fetchAdd32_of_lt hdepth]
    push_cast
    ring
  have hwork : (0 : Int) ≤ view.predictCost job m.nodeId * (m.queueDepth + 1) :=
    mul_nonneg (Nat.cast_nonneg _) (by omega)
  unfold slack
  unfold trueSlack at hsge hslt ⊢
  rw [toInt64_of_lt hcost, hweight]
  generalize (view.predictCost job m.nodeId * (m.queueDepth + 1) : Int) = work at *
  have hwork' : wrapInt64 work = work := wrapInt64_of_bounds (by omega) (by omega)
  have hduration' : wrapInt64 (work * 1000) = work * 1000 :=
    wrapInt64_of_bounds (by omega) hduration
  simp only [hwork', hduration', wrapInt64_of_bounds hfge hflt, wrapInt64_of_bounds hsge hslt]

/-- The two branches are passes with the test for an empty cluster before them. -/
theorem selectNode_of_deadline (hdeadline : job.deadline = some deadline) (nodes : List LoadMetrics) :
    selectNode now job (view.withNodes nodes) =
      Selection.select (toDual (-2 ^ 63 : Int)) (fun m => toDual (slack now deadline view job m)) job
        nodes := by
  unfold selectNode Selection.select
  rw [hdeadline]
  rfl

theorem selectNode_of_no_deadline (hdeadline : job.deadline = none) (nodes : List LoadMetrics) :
    selectNode now job (view.withNodes nodes) =
      Selection.select (2 ^ 32 - 1) LoadMetrics.queueDepth job nodes := by
  unfold selectNode Selection.select
  rw [hdeadline]
  rfl

end

end EarliestDeadlineFirst

/-! ## What they select

Over exact arithmetic the four passes are passes over a linear order, and one statement covers them
all. -/

section

open Selection

theorem ofUInt64_weight {queueDepth : Nat} (h : queueDepth < 2 ^ 32 - 1) :
    (FloatOps.ofUInt64 (fetchAdd32 queueDepth) : Rat) = (queueDepth : Rat) + 1 := by
  rw [fetchAdd32_of_lt h]
  exact Nat.cast_add_one _

variable (job : Job) (view : ClusterView Rat) (now : TimePoint) (mWeights : List (NodeId × Rat))

theorem leastLoaded_selectsBest (hdepth : ∀ m ∈ view.nodes, m.queueDepth < 2 ^ 32 - 1) :
    SelectsBest (fun nodes => LeastLoaded.selectNode job (view.withNodes nodes))
      (fun m => ((m.queueDepth : Rat) + 1) * view.nodeMultiplier m.nodeId) job view.nodes := by
  have hbest : SelectsBest (fun nodes => LeastLoaded.selectNode job (view.withNodes nodes))
      (LeastLoaded.effectiveLoad view) job view.nodes :=
    select_selectsBest floatMax (LeastLoaded.effectiveLoad view) job
  apply hbest.congr
  intro m hm _
  rw [LeastLoaded.effectiveLoad, ofUInt64_weight (hdepth m hm)]

theorem shortestJobFirst_selectsBest (hdepth : ∀ m ∈ view.nodes, m.queueDepth < 2 ^ 32 - 1) :
    SelectsBest (fun nodes => ShortestJobFirst.selectNode job (view.withNodes nodes))
      (fun m => (view.predictCost job m.nodeId : Rat) * ((m.queueDepth : Rat) + 1)) job
      view.nodes := by
  have hbest : SelectsBest (fun nodes => ShortestJobFirst.selectNode job (view.withNodes nodes))
      (ShortestJobFirst.completion view job) job view.nodes :=
    select_selectsBest floatMax (ShortestJobFirst.completion view job) job
  apply hbest.congr
  intro m hm _
  rw [ShortestJobFirst.completion, ofUInt64_weight (hdepth m hm)]
  rfl

theorem weightedCapacity_selectsBest :
    SelectsBest (fun nodes => WeightedCapacity.selectNode mWeights job (view.withNodes nodes))
      (fun m => toDual (((mWeights.lookup m.nodeId).filter (0 < ·)).getD 1 * (1 - m.utilization)))
      job view.nodes := by
  simp only [← WeightedCapacity.weightFor_eq]
  exact select_selectsBest (toDual (-floatMax))
    (fun m => toDual (WeightedCapacity.availableCapacity mWeights m)) job

theorem earliestDeadlineFirst_selectsBest {deadline : TimePoint}
    (hdeadline : job.deadline = some deadline)
    (hfits : ∀ m ∈ view.nodes, nodeAcceptsPriority m.state job.priority = true →
      EarliestDeadlineFirst.NoOverflow now deadline view job m) :
    SelectsBest (fun nodes => EarliestDeadlineFirst.selectNode now job (view.withNodes nodes))
      (fun m => toDual (EarliestDeadlineFirst.trueSlack now deadline view job m)) job
      view.nodes := by
  simp only [EarliestDeadlineFirst.selectNode_of_deadline hdeadline]
  apply (select_selectsBest ..).congr
  intro m hm haccepts
  exact congrArg toDual (EarliestDeadlineFirst.slack_eq_trueSlack (hfits m hm haccepts))

theorem earliestDeadlineFirst_selectsShallowest (hdeadline : job.deadline = none) :
    SelectsBest (fun nodes => EarliestDeadlineFirst.selectNode now job (view.withNodes nodes))
      LoadMetrics.queueDepth job view.nodes := by
  simp only [EarliestDeadlineFirst.selectNode_of_no_deadline hdeadline]
  exact select_selectsBest ..

/-- Each of the four policies selects the node that is best by its documented score. -/
structure SelectByScore : Prop where
  leastLoaded : SelectsBest (fun nodes => LeastLoaded.selectNode job (view.withNodes nodes))
    (fun m => ((m.queueDepth : Rat) + 1) * view.nodeMultiplier m.nodeId) job view.nodes
  shortestJobFirst :
    SelectsBest (fun nodes => ShortestJobFirst.selectNode job (view.withNodes nodes))
      (fun m => (view.predictCost job m.nodeId : Rat) * ((m.queueDepth : Rat) + 1)) job view.nodes
  weightedCapacity :
    SelectsBest (fun nodes => WeightedCapacity.selectNode mWeights job (view.withNodes nodes))
      (fun m => toDual (((mWeights.lookup m.nodeId).filter (0 < ·)).getD 1 * (1 - m.utilization)))
      job view.nodes
  earliestDeadlineFirst : ∀ deadline, job.deadline = some deadline →
    (∀ m ∈ view.nodes, nodeAcceptsPriority m.state job.priority = true →
      EarliestDeadlineFirst.NoOverflow now deadline view job m) →
    SelectsBest (fun nodes => EarliestDeadlineFirst.selectNode now job (view.withNodes nodes))
      (fun m => toDual (EarliestDeadlineFirst.trueSlack now deadline view job m)) job view.nodes
  shallowest : job.deadline = none →
    SelectsBest (fun nodes => EarliestDeadlineFirst.selectNode now job (view.withNodes nodes))
      LoadMetrics.queueDepth job view.nodes

/-- **The best node, in whatever order the nodes are listed.** -/
theorem selectByScore (hdepth : ∀ m ∈ view.nodes, m.queueDepth < 2 ^ 32 - 1) :
    SelectByScore job view now mWeights where
  leastLoaded := leastLoaded_selectsBest job view hdepth
  shortestJobFirst := shortestJobFirst_selectsBest job view hdepth
  weightedCapacity := weightedCapacity_selectsBest job view mWeights
  earliestDeadlineFirst _ hdeadline hfits :=
    earliestDeadlineFirst_selectsBest job view now hdeadline hfits
  shallowest hdeadline := earliestDeadlineFirst_selectsShallowest job view now hdeadline

/-- Two idle nodes with nothing queued, and a job that is due in a second: node 1 is selected. -/
theorem selectByScore_two :
    EarliestDeadlineFirst.selectNode 0 { estimatedCost := 100, deadline := some (10 ^ 9) }
      { mNodeMetrics := [AffinityRouting.idleNode 2 0, AffinityRouting.idleNode 1 0]
        mCostModel := .create ({} : CostModelConfig Rat) } = .ok 1 := by
  have hbest := selectByScore { estimatedCost := 100, deadline := some (10 ^ 9) }
    { mNodeMetrics := [AffinityRouting.idleNode 2 0, AffinityRouting.idleNode 1 0]
      mCostModel := .create {} } 0 [] (by decide)
  apply ((hbest.earliestDeadlineFirst _ rfl (by decide +kernel)).ok_iff 1).mpr
  exact ⟨AffinityRouting.idleNode 1 0, by decide, rfl, rfl, by decide +kernel⟩

end

end FatpBalancer
