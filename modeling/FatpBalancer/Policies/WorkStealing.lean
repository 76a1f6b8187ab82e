/-
# Work stealing

The policy prefers nodes below the steal threshold and among equals the lower predicted cost times
queue, a product of doubles.  It has no flag for "nothing chosen yet" and uses the `NodeId` 0 for it,
so that a node with that identity is replaced by whichever candidate comes next, and is never selected
itself.

The loop is an instance of `Lib.SentinelScan`: a scan with a value that stands for "nothing yet" and
may also be the value of a candidate.  `selectNode_eq_ok_iff` says what such a scan ends with, and
`key` what is compared: the side of the threshold first and the double after it.

`OrderedExactly` is the condition on the arithmetic, that rounding and the 32-bit weight put the
products in the order the integers have; `ExactScore` is a handy sufficient one, that nothing is
rounded at all.
-/
import FatpBalancer.Lib.SentinelScan
import FatpBalancer.Policies.ScoredPolicies

universe u v

namespace FatpBalancer

namespace WorkStealing

open AffinityRouting (eligible)

/-- `std::numeric_limits<double>::max()`. -/
def doubleMax : Rat := (2 ^ 53 - 1) * 2 ^ 971

/-- The variables of the loop, the score being a double. -/
structure Best (D : Type v) [FloatOps D] where
  bestId : NodeId := 0
  bestScore : D := FloatOps.lit doubleMax
  bestIsUnderloaded : Bool := false

def isUnderloaded (mStealThreshold : Nat) (m : LoadMetrics) : Bool :=
  decide (m.queueDepth < mStealThreshold)

section

variable (D : Type v) [FloatOps D] {F : Type u} [FloatOps F]

/-- Both factors are rounded to a double, and so is their product. -/
def score (view : ClusterView F) (job : Job) (m : LoadMetrics) : D :=
  FloatOps.ofUInt64 (view.predictCost job m.nodeId) * FloatOps.ofUInt64 (fetchAdd32 m.queueDepth)

/-- The node as the variables of the loop hold it. -/
def Best.of (mStealThreshold : Nat) (view : ClusterView F) (job : Job) (m : LoadMetrics) :
    Best D where
  bestId := m.nodeId
  bestScore := score D view job m
  bestIsUnderloaded := isUnderloaded mStealThreshold m

/-- One iteration. -/
def consider (mStealThreshold : Nat) (view : ClusterView F) (job : Job) (best : Best D)
    (m : LoadMetrics) : Best D :=
  if !nodeAcceptsPriority m.state job.priority then best
  else if best.bestId = 0 then .of D mStealThreshold view job m
  else if isUnderloaded mStealThreshold m && !best.bestIsUnderloaded then
    .of D mStealThreshold view job m
  else if !isUnderloaded mStealThreshold m && best.bestIsUnderloaded then best
  else if FloatOps.lt (score D view job m) best.bestScore then .of D mStealThreshold view job m
  else best

/-- The view is not tested for being empty. -/
def selectNode (mStealThreshold : Nat) (job : Job) (view : ClusterView F) :
    Except SelectError NodeId :=
  let best := view.nodes.foldl (consider D mStealThreshold view job) {}
  if best.bestId = 0 then .error .noneEligible else .ok best.bestId

/-- The policy has one error. -/
theorem selectNode_eq_error {mStealThreshold : Nat} {view : ClusterView F} {job : Job}
    {e : SelectError} (h : selectNode D mStealThreshold job view = .error e) :
    e = .noneEligible := by
  unfold selectNode at h
  dsimp only at h
  split at h
  · cases h
    rfl
  · cases h

end

/-! ## The selection as a scan

The sentinel is the identity 0, which `NodeId` allows for a node. -/

/-- The node looks like "nothing chosen yet". -/
def LooksUnset (m : LoadMetrics) : Prop := m.nodeId = 0

instance : DecidablePred LooksUnset := fun m => inferInstanceAs (Decidable (m.nodeId = 0))

section

variable (D : Type v) [FloatOps D] {F : Type u} [FloatOps F]

/-- The variables hold the best node so far, or 0 for none. -/
def Holds (mStealThreshold : Nat) (view : ClusterView F) (job : Job) (best : Best D) :
    Option LoadMetrics → Prop
  | none => best.bestId = 0
  | some e => best = .of D mStealThreshold view job e ∧ ¬LooksUnset e

/-- A node that is kept is held, or lost when it looks unset. -/
theorem holds_keep (mStealThreshold : Nat) (view : ClusterView F) (job : Job) (m : LoadMetrics) :
    Holds D mStealThreshold view job (.of D mStealThreshold view job m)
      (SentinelScan.keep LooksUnset m) := by
  unfold SentinelScan.keep
  split
  · next hunset => exact hunset
  · next hset => exact ⟨rfl, hset⟩

variable [FloatValue D]

/-- What the loop compares: nodes below the threshold come first, then the double decides. -/
def key (mStealThreshold : Nat) (view : ClusterView F) (job : Job) (m : LoadMetrics) :
    Bool ×ₗ WithTop Ieee.Extended :=
  toLex (!isUnderloaded mStealThreshold m, FloatValue.key (score D view job m))

variable (mStealThreshold : Nat) (view : ClusterView F) (job : Job)

/-- The scores are numbers, and so the code's `<` is that of the keys. -/
theorem key_lt_iff {m e : LoadMetrics} :
    key D mStealThreshold view job m < key D mStealThreshold view job e ↔
      (isUnderloaded mStealThreshold m = true ∧ isUnderloaded mStealThreshold e = false) ∨
        isUnderloaded mStealThreshold m = isUnderloaded mStealThreshold e ∧
          FloatOps.lt (score D view job m) (score D view job e) = true := by
  have hnumber : FloatValue.value (score D view job e) ≠ none := FloatValue.value_ofUInt64_mul _ _
  unfold key
  rw [Prod.Lex.toLex_lt_toLex]
  dsimp only
  rw [FloatValue.key_lt_key_iff hnumber]
  cases isUnderloaded mStealThreshold m <;> cases isUnderloaded mStealThreshold e <;> simp

/-- Once a node is held the comparison is that of the keys. -/
theorem consider_of {e m : LoadMetrics} (he : ¬LooksUnset e)
    (hm : nodeAcceptsPriority m.state job.priority = true) :
    consider D mStealThreshold view job (.of D mStealThreshold view job e) m =
      if key D mStealThreshold view job m < key D mStealThreshold view job e then
        .of D mStealThreshold view job m
      else .of D mStealThreshold view job e := by
  have hset : (Best.of D mStealThreshold view job e).bestId ≠ 0 := he
  have hunder : (Best.of D mStealThreshold view job e).bestIsUnderloaded =
      isUnderloaded mStealThreshold e := rfl
  have hscore : (Best.of D mStealThreshold view job e).bestScore = score D view job e := rfl
  unfold consider
  rw [if_neg (by simp [hm]), if_neg hset, hunder, hscore]
  simp only [key_lt_iff]
  cases isUnderloaded mStealThreshold m <;> cases isUnderloaded mStealThreshold e <;> simp

theorem consider_holds {best : Best D} {kept : Option LoadMetrics}
    (h : Holds D mStealThreshold view job best kept) {m : LoadMetrics}
    (hm : nodeAcceptsPriority m.state job.priority = true) :
    Holds D mStealThreshold view job (consider D mStealThreshold view job best m)
      (SentinelScan.step (key D mStealThreshold view job) LooksUnset kept m) := by
  cases kept with
  | none =>
      have hunset : best.bestId = 0 := h
      rw [consider, if_neg (by simp [hm]), if_pos hunset]
      exact holds_keep ..
  | some e =>
      obtain ⟨rfl, hset⟩ := h
      rw [consider_of D mStealThreshold view job hset hm, SentinelScan.step]
      split
      · exact holds_keep ..
      · exact ⟨rfl, hset⟩

theorem foldl_holds {best : Best D} {kept : Option LoadMetrics}
    (h : Holds D mStealThreshold view job best kept) (nodes : List LoadMetrics) :
    Holds D mStealThreshold view job (nodes.foldl (consider D mStealThreshold view job) best)
      ((eligible job nodes).foldl
        (SentinelScan.step (key D mStealThreshold view job) LooksUnset) kept) := by
  induction nodes generalizing best kept with
  | nil => exact h
  | cons m nodes ih =>
      rw [List.foldl_cons, eligible, List.filter_cons]
      split
      · next hm => exact ih (consider_holds D mStealThreshold view job h hm)
      · next hm =>
          have hskip : consider D mStealThreshold view job best m = best := by
            rw [consider, if_pos (by simp [hm])]
          rw [hskip]
          exact ih h

/-- The policy selects the node that stands when the scan has started again after every node that
looked unset. -/
theorem selectNode_eq_ok_iff {n : NodeId} :
    selectNode D mStealThreshold job view = .ok n ↔
      ∃ e, SentinelScan.Stands (key D mStealThreshold view job) LooksUnset (eligible job view.nodes) e ∧
        e.nodeId = n := by
  have hholds := foldl_holds D mStealThreshold view job
    (show Holds D mStealThreshold view job {} none from rfl) view.nodes
  simp only [← SentinelScan.scan_eq_some_iff, SentinelScan.scan]
  unfold selectNode
  cases hscan : (eligible job view.nodes).foldl
      (SentinelScan.step (key D mStealThreshold view job) LooksUnset) none with
  | none =>
      rw [hscan] at hholds
      have hunset : (view.nodes.foldl (consider D mStealThreshold view job) {}).bestId = 0 := hholds
      simp [hunset]
  | some e =>
      rw [hscan] at hholds
      obtain ⟨hbest, hset⟩ := hholds
      have hid : (view.nodes.foldl (consider D mStealThreshold view job) {}).bestId = e.nodeId :=
        congrArg Best.bestId hbest
      have hne : e.nodeId ≠ 0 := hset
      simp [hid, hne]

end

/-! ## When the best node is selected

Two things can go wrong: the sentinel, and the rounding of the products. -/

section

variable (D : Type v) [FloatOps D] {F : Type u} [FloatOps F]

/-- The predicted cost of the work ahead, over the integers. -/
def trueScore (view : ClusterView F) (job : Job) (m : LoadMetrics) : Nat :=
  view.predictCost job m.nodeId * (m.queueDepth + 1)

/-- What the loop is to compare. -/
def trueKey (mStealThreshold : Nat) (view : ClusterView F) (job : Job) (m : LoadMetrics) :
    Bool ×ₗ Nat :=
  toLex (!isUnderloaded mStealThreshold m, trueScore view job m)

/-- The first of the nodes that accept the job with the least category and cost is selected. -/
structure SelectsLeast (mStealThreshold : Nat) (job : Job) (view : ClusterView F) : Prop where
  succeeds_iff : (∃ n, selectNode D mStealThreshold job view = .ok n) ↔
    ∃ m ∈ view.nodes, nodeAcceptsPriority m.state job.priority = true
  ok_iff : ∀ n, selectNode D mStealThreshold job view = .ok n ↔
    ∃ e, SentinelScan.First (trueKey mStealThreshold view job) (eligible job view.nodes) e ∧
      e.nodeId = n
  prefersUnderloaded : ∀ n, selectNode D mStealThreshold job view = .ok n →
    (∃ m ∈ view.nodes, nodeAcceptsPriority m.state job.priority = true ∧
      m.queueDepth < mStealThreshold) →
    ∃ e ∈ view.nodes, nodeAcceptsPriority e.state job.priority = true ∧ e.nodeId = n ∧
      e.queueDepth < mStealThreshold

/-- Rounding and the 32-bit sum do not change the order of the products. -/
def OrderedExactly (view : ClusterView F) (job : Job) : Prop :=
  ∀ m ∈ eligible job view.nodes, ∀ e ∈ eligible job view.nodes,
    FloatOps.lt (score D view job m) (score D view job e) = true ↔
      trueScore view job m < trueScore view job e

/-- Nothing is rounded in the score of the node, and the sum does not wrap. -/
structure ExactScore [FloatValue D] [FloatIntegers D] (view : ClusterView F) (job : Job)
    (m : LoadMetrics) : Prop where
  queueDepth : m.queueDepth < 2 ^ 32 - 1
  cost : view.predictCost job m.nodeId < FloatIntegers.limit D
  weight : m.queueDepth + 1 < FloatIntegers.limit D
  product : trueScore view job m < FloatIntegers.limit D

end

section

variable {D : Type v} [FloatOps D] {F : Type u} [FloatOps F] {mStealThreshold : Nat} {job : Job}
  {view : ClusterView F}

theorem trueKey_lt_iff {m e : LoadMetrics} :
    trueKey mStealThreshold view job m < trueKey mStealThreshold view job e ↔
      (isUnderloaded mStealThreshold m = true ∧ isUnderloaded mStealThreshold e = false) ∨
        isUnderloaded mStealThreshold m = isUnderloaded mStealThreshold e ∧
          trueScore view job m < trueScore view job e := by
  unfold trueKey
  rw [Prod.Lex.toLex_lt_toLex]
  dsimp only
  cases isUnderloaded mStealThreshold m <;> cases isUnderloaded mStealThreshold e <;> simp

/-- The first least node is below the threshold when any node is. -/
theorem underloaded_of_first {w m : LoadMetrics}
    (hw : SentinelScan.First (trueKey mStealThreshold view job) (eligible job view.nodes) w)
    (hm : m ∈ eligible job view.nodes) (hunder : m.queueDepth < mStealThreshold) :
    w.queueDepth < mStealThreshold := by
  have hle := hw.le hm
  unfold trueKey isUnderloaded at hle
  rw [Prod.Lex.toLex_le_toLex] at hle
  by_contra hover
  simp only [hunder, hover, decide_true, decide_false, Bool.not_true, Bool.not_false] at hle
  rcases hle with hlt | ⟨heq, -⟩
  · exact absurd hlt (by decide)
  · exact absurd heq (by decide)

theorem selectsLeast_of_first [FloatValue D] (h : ∀ w,
    SentinelScan.First (trueKey mStealThreshold view job) (eligible job view.nodes) w →
      selectNode D mStealThreshold job view = .ok w.nodeId) :
    SelectsLeast D mStealThreshold job view := by
  have hfirst : ∀ n, selectNode D mStealThreshold job view = .ok n →
      ∃ w, SentinelScan.First (trueKey mStealThreshold view job) (eligible job view.nodes) w ∧
        w.nodeId = n := by
    intro n hn
    obtain ⟨e, he, -⟩ := (selectNode_eq_ok_iff D mStealThreshold view job).mp hn
    obtain ⟨w, hw⟩ := SentinelScan.exists_first (trueKey mStealThreshold view job)
      (List.ne_nil_of_mem he.mem)
    rw [h w hw] at hn
    exact ⟨w, hw, Except.ok.inj hn⟩
  constructor
  · constructor
    · rintro ⟨n, hn⟩
      obtain ⟨w, hw, -⟩ := hfirst n hn
      exact ⟨w, Selection.mem_eligible.mp hw.mem⟩
    · rintro ⟨m, hm⟩
      obtain ⟨w, hw⟩ := SentinelScan.exists_first (trueKey mStealThreshold view job)
        (List.ne_nil_of_mem (Selection.mem_eligible.mpr hm))
      exact ⟨w.nodeId, h w hw⟩
  · intro n
    constructor
    · exact hfirst n
    · rintro ⟨w, hw, rfl⟩
      exact h w hw
  · rintro n hn ⟨m, hm, haccepts, hunder⟩
    obtain ⟨w, hw, hid⟩ := hfirst n hn
    obtain ⟨hwmem, hwaccepts⟩ := Selection.mem_eligible.mp hw.mem
    exact ⟨w, hwmem, hwaccepts, hid,
      underloaded_of_first hw (Selection.mem_eligible.mpr ⟨hm, haccepts⟩) hunder⟩

section

variable [FloatValue D] [FloatIntegers D]

theorem ExactScore.value_score {m : LoadMetrics} (h : ExactScore D view job m) :
    FloatValue.value (score D view job m) = some (Ieee.fin (trueScore view job m : Nat)) := by
  have hcost := FloatIntegers.value_ofUInt64 (F := D) _ h.cost
  have hweight := FloatIntegers.value_ofUInt64 (F := D) _ h.weight
  unfold score
  rw [fetchAdd32_of_lt h.queueDepth]
  exact FloatIntegers.value_mul _ _ _ _ hcost hweight h.product

/-- Exact scores are in order. -/
theorem orderedExactly_of_exact (h : ∀ m ∈ eligible job view.nodes, ExactScore D view job m) :
    OrderedExactly D view job := by
  intro m hm e he
  rw [FloatValue.lt_iff, (h m hm).value_score, (h e he).value_score]
  simp

end

end

/-- **The least node is selected when it stands.**  In words for views whose scores are in the order
of the products: when its `NodeId` is not 0.  They are in that order when nothing is rounded. -/
theorem selectNode_selectsLeast_iff (D : Type v) [FloatOps D] [FloatValue D] [FloatIntegers D]
    {F : Type u} [FloatOps F] (mStealThreshold : Nat) (job : Job) (view : ClusterView F) :
    (SelectsLeast D mStealThreshold job view ↔
      ∀ w, SentinelScan.First (trueKey mStealThreshold view job) (eligible job view.nodes) w →
        ∃ e, SentinelScan.Stands (key D mStealThreshold view job) LooksUnset
          (eligible job view.nodes) e ∧ e.nodeId = w.nodeId) ∧
    (OrderedExactly D view job →
      (SelectsLeast D mStealThreshold job view ↔
        ∀ w, SentinelScan.First (trueKey mStealThreshold view job) (eligible job view.nodes) w →
          w.nodeId ≠ 0)) ∧
    ((∀ m ∈ eligible job view.nodes, ExactScore D view job m) → OrderedExactly D view job) := by
  have hgeneral : SelectsLeast D mStealThreshold job view ↔
      ∀ w, SentinelScan.First (trueKey mStealThreshold view job) (eligible job view.nodes) w →
        ∃ e, SentinelScan.Stands (key D mStealThreshold view job) LooksUnset
          (eligible job view.nodes) e ∧ e.nodeId = w.nodeId := by
    constructor
    · intro h w hw
      exact (selectNode_eq_ok_iff ..).mp ((h.ok_iff _).mpr ⟨w, hw, rfl⟩)
    · intro h
      apply selectsLeast_of_first
      intro w hw
      exact (selectNode_eq_ok_iff ..).mpr (h w hw)
  refine ⟨hgeneral, fun hordered => ?_, orderedExactly_of_exact⟩
  rw [hgeneral]
  constructor
  · intro h w hw
    obtain ⟨e, he, hid⟩ := h w hw
    rw [← hid]
    exact he.present
  · intro h w hw
    have hfirst : SentinelScan.First (key D mStealThreshold view job) (eligible job view.nodes) w :=
      hw.congr fun m hm e he => by rw [trueKey_lt_iff, key_lt_iff, hordered m hm e he]
    exact ⟨w, .first hfirst (h w hw), rfl⟩

/-- Node 2 has learned that jobs take as long as estimated, so that its prediction is rounded to a
float and is the lesser one; as doubles the two predictions are equal, and the first is kept. -/
example : selectNode Float 4 { estimatedCost := 2 ^ 53 + 1 }
    { mNodeMetrics := [AffinityRouting.idleNode 1 0, AffinityRouting.idleNode 2 0]
      mCostModel := CostModel.trained ({ warmThreshold := 1 } : CostModelConfig Float32)
        [{ estimatedCost := 100, observedCost := 100, executedBy := 2 }] true } = .ok 1 := by
  decide +kernel

/-- **The only node is not selected.**  It is idle and accepts everything, and its identity is 0. -/
theorem node_zero_never_selected :
    selectNode Float 4 {} { mNodeMetrics := [AffinityRouting.idleNode 0 0]
                            mCostModel := .create ({} : CostModelConfig Float32) } =
        .error .noneEligible ∧
      ¬SelectsLeast Float 4 {} { mNodeMetrics := [AffinityRouting.idleNode 0 0]
                                 mCostModel := .create ({} : CostModelConfig Float32) } := by
  have herror : selectNode Float 4 {}
      { mNodeMetrics := [AffinityRouting.idleNode 0 0]
        mCostModel := .create ({} : CostModelConfig Float32) } = .error .noneEligible := by
    decide +kernel
  refine ⟨herror, fun h => ?_⟩
  obtain ⟨n, hn⟩ := h.succeeds_iff.mpr ⟨AffinityRouting.idleNode 0 0, by decide, rfl⟩
  rw [herror] at hn
  cases hn

end WorkStealing

end FatpBalancer
