/-
# Affinity routing

The policy scores every node that accepts the job by its predicted cost, weighted by its queue,
divided by its learned affinity multiplier, and takes the first node with the lowest score.  A warm
node's prediction already contains the multiplier and a cold node's does not, so that dividing by it
takes it out of the one and turns it against the other.  The scores are 32-bit floats and are compared
as such: rounding can make two of them equal, and one that is not a number loses every comparison.
-/
import FatpBalancer.Calibration
import FatpBalancer.Floats
import FatpBalancer.Lib.FirstMin
import FatpBalancer.LoadMetrics

universe u

namespace FatpBalancer

/-- Why a policy selects no node. -/
inductive SelectError
  | noNodes
  | noneEligible
  deriving DecidableEq, Repr

/-- `std::numeric_limits<float>::max()`. -/
def floatMax : Rat := (2 ^ 24 - 1) * 2 ^ 104

namespace AffinityRouting

variable {F : Type u} [FloatOps F]

/-- The affinity multiplier as a divisor: what is not positive is replaced by 1. -/
def divisor (costModel : CostModel F) (job : Job) (node : NodeId) : F :=
  let affinity := costModel.affinityScore node job.jobClass
  if FloatOps.le affinity (FloatOps.lit 0) then FloatOps.lit 1 else affinity

/-- The predicted cost of a node, times `queueWeight`: the sum in it is one of 32-bit integers. -/
def weightedCost (costModel : CostModel F) (job : Job) (m : LoadMetrics) : F :=
  FloatOps.ofUInt64 (costModel.predict job m.nodeId) * FloatOps.ofUInt64 (fetchAdd32 m.queueDepth)

def score (costModel : CostModel F) (job : Job) (anyWarm : Bool) (m : LoadMetrics) : F :=
  if anyWarm then weightedCost costModel job m / divisor costModel job m.nodeId
  else weightedCost costModel job m

/-- One iteration of the second loop, on `bestScore` and `bestNode`. -/
def consider (costModel : CostModel F) (job : Job) (anyWarm : Bool) (best : F × NodeId)
    (m : LoadMetrics) : F × NodeId :=
  if nodeAcceptsPriority m.state job.priority then
    if FloatOps.lt (score costModel job anyWarm m) best.1 then
      (score costModel job anyWarm m, m.nodeId)
    else best
  else best

/-- What the first loop finds out of the affinity cells. -/
def anyWarm (costModel : CostModel F) (job : Job) (view : List LoadMetrics) : Bool :=
  view.any fun m =>
    nodeAcceptsPriority m.state job.priority && costModel.isAffinityCellWarm m.nodeId job.jobClass

/-- The first loop finds out whether there is a candidate and whether one has a warm cell. -/
def selectNode (costModel : CostModel F) (job : Job) (view : List LoadMetrics) :
    Except SelectError NodeId :=
  let anyCandidate := view.any fun m => nodeAcceptsPriority m.state job.priority
  if anyCandidate then
    let best := view.foldl (consider costModel job (anyWarm costModel job view))
      (FloatOps.lit floatMax, 0)
    if FloatOps.eq best.1 (FloatOps.lit floatMax) then .error .noneEligible else .ok best.2
  else .error .noneEligible

/-- The policy has one error. -/
theorem selectNode_eq_error {costModel : CostModel F} {job : Job} {view : List LoadMetrics}
    {e : SelectError} (h : selectNode costModel job view = .error e) : e = .noneEligible := by
  unfold selectNode at h
  dsimp only at h
  split at h
  · split at h
    · cases h
      rfl
    · cases h
  · cases h
    rfl

/-- The nodes of the view that accept the job. -/
def eligible (job : Job) (view : List LoadMetrics) : List LoadMetrics :=
  view.filter fun m => nodeAcceptsPriority m.state job.priority

/-! ## The selection as a first minimum -/

/-- The node that the second loop ends with: its score is below the largest float and below those
before it, and none after it is lower.  A score that is not a number is in nobody's way. -/
def Prevails (score : LoadMetrics → F) (l : List LoadMetrics) (e : LoadMetrics) : Prop :=
  ∃ l₁ l₂, l = l₁ ++ e :: l₂ ∧ FloatOps.lt (score e) (FloatOps.lit floatMax) = true ∧
    (∀ c ∈ l₁, FloatOps.le (score c) (score e) = false) ∧
    ∀ c ∈ l₂, FloatOps.lt (score c) (score e) = false

theorem Prevails.mem {score : LoadMetrics → F} {l : List LoadMetrics} {e : LoadMetrics}
    (h : Prevails score l e) : e ∈ l := by
  obtain ⟨l₁, l₂, rfl, -⟩ := h
  simp

section

variable [FloatValue F]

/-- The score in the order of the values. -/
def rank (score : LoadMetrics → F) (m : LoadMetrics) : WithTop Ieee.Extended :=
  FloatValue.key (score m)

/-- What the first score has to be below. -/
def rankMax (F : Type u) [FloatOps F] [FloatValue F] : WithTop Ieee.Extended :=
  FloatValue.key (FloatOps.lit floatMax : F)

theorem lt_floatMax_iff {x : F} :
    FloatValue.key x < rankMax F ↔ FloatOps.lt x (FloatOps.lit floatMax) = true :=
  FloatValue.key_lt_key_iff (FloatValue.value_lit floatMax)

/-- The loop ends with the first minimum. -/
theorem prevails_iff {score : LoadMetrics → F} {l : List LoadMetrics} {e : LoadMetrics} :
    Prevails score l e ↔ FirstMin.Wins (rank score) (rankMax F) l e := by
  unfold Prevails FirstMin.Wins
  refine exists_congr fun l₁ => exists_congr fun l₂ => and_congr_right fun _ => ?_
  unfold rank
  rw [lt_floatMax_iff]
  refine and_congr_right fun hlt => ?_
  have hnumber := (FloatValue.ne_none_of_lt hlt).1
  refine and_congr (forall₂_congr fun c _ => ?_) (forall₂_congr fun c _ => ?_)
  · rw [← Bool.not_eq_true, FloatOps.le, Bool.or_eq_true, ← FloatValue.key_lt_key_iff hnumber,
      ← FloatValue.key_eq_key_iff hnumber, ← le_iff_lt_or_eq, not_le]
  · rw [FloatValue.key_le_key_iff hnumber]

variable {costModel : CostModel F} {job : Job} {view : List LoadMetrics}

/-- `bestScore` and `bestNode` of the best node so far. -/
def bestOf (score : LoadMetrics → F) : Option LoadMetrics → F × NodeId
  | none => (FloatOps.lit floatMax, 0)
  | some e => (score e, e.nodeId)

/-- What `bestScore` holds is a number, so that the comparison with it is that of the order. -/
theorem lt_bestOf_iff {score : LoadMetrics → F} {best : Option LoadMetrics}
    (hbest : ∀ e ∈ best, FloatValue.value (score e) ≠ none) {x : F} :
    FloatOps.lt x (bestOf score best).1 = true ↔
      FloatValue.key x < FirstMin.toBeat (rank score) (rankMax F) best := by
  cases best with
  | none => exact lt_floatMax_iff.symm
  | some e => exact (FloatValue.key_lt_key_iff (hbest e rfl)).symm

/-- The second loop is a scan of the eligible nodes. -/
theorem foldl_consider (warm : Bool) :
    view.foldl (consider costModel job warm) (FloatOps.lit floatMax, 0) =
      bestOf (score costModel job warm)
        (FirstMin.scan (rank (score costModel job warm)) (rankMax F) (eligible job view)) := by
  have hstep : ∀ best : Option LoadMetrics,
      (∀ e ∈ best, FloatValue.value (score costModel job warm e) ≠ none) →
      view.foldl (consider costModel job warm) (bestOf (score costModel job warm) best) =
        bestOf (score costModel job warm) ((eligible job view).foldl
          (FirstMin.step (rank (score costModel job warm)) (rankMax F)) best) := by
    induction view with
    | nil => exact fun _ _ => rfl
    | cons m view ih =>
        intro best hbest
        rw [List.foldl_cons, eligible, List.filter_cons]
        unfold consider
        split
        · rw [List.foldl_cons]
          by_cases hlt : FloatOps.lt (score costModel job warm m)
              (bestOf (score costModel job warm) best).1 = true
          · have hnext : FirstMin.step (rank (score costModel job warm)) (rankMax F) best m =
                some m := if_pos ((lt_bestOf_iff hbest).mp hlt)
            rw [if_pos hlt, hnext]
            refine ih (some m) fun e he => ?_
            obtain rfl := Option.some.inj he
            exact (FloatValue.ne_none_of_lt hlt).1
          · have hnext : FirstMin.step (rank (score costModel job warm)) (rankMax F) best m =
                best := if_neg (mt (lt_bestOf_iff hbest).mpr hlt)
            rw [if_neg hlt, hnext]
            exact ih best hbest
        · exact ih best hbest
  exact hstep none nofun

/-- **A node is selected when it prevails** among the nodes that accept the job. -/
theorem selectNode_eq_ok_iff {node : NodeId} :
    selectNode costModel job view = .ok node ↔
      ∃ e, Prevails (score costModel job (anyWarm costModel job view)) (eligible job view) e ∧
        e.nodeId = node := by
  simp only [selectNode, foldl_consider, prevails_iff, ← FirstMin.scan_eq_some_iff]
  generalize hscan : FirstMin.scan _ (rankMax F) (eligible job view) = best
  cases best with
  | none =>
      have hmax : FloatOps.eq (FloatOps.lit floatMax : F) (FloatOps.lit floatMax) = true :=
        (FloatValue.key_eq_key_iff (FloatValue.value_lit floatMax)).mp rfl
      constructor
      · split
        · rw [bestOf, if_pos hmax]
          exact nofun
        · exact nofun
      · rintro ⟨e, he, -⟩
        cases he
  | some e =>
      have hany : (view.any fun m => nodeAcceptsPriority m.state job.priority) = true := by
        obtain ⟨l₁, l₂, hl, -⟩ := FirstMin.scan_eq_some_iff.mp hscan
        have hmem : e ∈ eligible job view := by simp [hl]
        rw [List.any_eq_true]
        exact ⟨e, (List.mem_filter.mp hmem).1, (List.mem_filter.mp hmem).2⟩
      have hlt := FirstMin.lt_bound_of_scan hscan
      have hne : ¬FloatOps.eq (score costModel job (anyWarm costModel job view) e)
          (FloatOps.lit floatMax) = true :=
        mt (FloatValue.key_eq_key_iff (FloatValue.value_lit floatMax)).mpr hlt.ne
      rw [if_pos hany, bestOf, if_neg hne]
      simp

end

/-! ## Nodes that differ in their affinity alone -/

section

variable {costModel : CostModel F} {job : Job} {view : List LoadMetrics} {a b : LoadMetrics}

end

/-! ## Two nodes that have learned opposite things -/

def idleNode (node : NodeId) (queueDepth : Nat) : LoadMetrics :=
  { nodeId := node, state := .idle, queueDepth }

end AffinityRouting

end FatpBalancer
