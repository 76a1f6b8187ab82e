/-
# The slack of a deadline job

The policy computes the slack of every node in 64-bit steps: a cast, a product, a change of unit and
a subtraction.  All of them agree with the integers modulo 2⁶⁴, so that what is compared is one
residue; only the queue weight is reduced modulo 2³² before.

`residue` is that residue, and comparing two residues is comparing the slacks they stand for as long
as these are in range.  The condition found is exact: it says when the node with the greatest
residue is one with the greatest slack, wrapped or not.
-/
import FatpBalancer.Policies.ScoredPolicies

universe u

namespace FatpBalancer

namespace EarliestDeadlineFirst

open OrderDual (toDual)
open AffinityRouting (eligible)

variable {F : Type u} [FloatOps F] {now deadline : TimePoint} {view : ClusterView F} {job : Job}

/-- The work queued on a node once it has the job, in microseconds. -/
def work (view : ClusterView F) (job : Job) (m : LoadMetrics) : Nat :=
  view.predictCost job m.nodeId * (m.queueDepth + 1)

/-- The slack as a residue: the weight modulo 2³², the rest modulo 2⁶⁴. -/
def residue (now deadline : TimePoint) (view : ClusterView F) (job : Job) (m : LoadMetrics) : Int :=
  Int.bmod
    (deadline - now - 1000 * (view.predictCost job m.nodeId * ((m.queueDepth + 1) % 2 ^ 32 : Nat)))
    (2 ^ 64)

/-- **The steps wrap to one residue.** -/
theorem slack_eq_residue (m : LoadMetrics) :
    slack now deadline view job m = residue now deadline view job m := by
  have hwork : ∀ a b : Int, Int.bmod (Int.bmod a (2 ^ 64) * Int.bmod b (2 ^ 64) * 1000) (2 ^ 64) =
      Int.bmod (1000 * (a * b)) (2 ^ 64) := by
    intro a b
    rw [Int.mul_assoc, Int.bmod_mul_bmod, Int.mul_left_comm, Int.bmod_mul_bmod]
    congr 1
    ring
  unfold slack residue wrapInt64 toInt64 fetchAdd32
  dsimp only
  rw [Int.bmod_mul_bmod, hwork, Int.sub_bmod_bmod, ← Int.sub_sub, Int.sub_bmod_bmod]

theorem trueSlack_eq (m : LoadMetrics) :
    trueSlack now deadline view job m = deadline - now - 1000 * work view job m := by
  unfold trueSlack work
  push_cast
  ring

theorem trueSlack_le_iff {x e : LoadMetrics} :
    trueSlack now deadline view job x ≤ trueSlack now deadline view job e ↔
      work view job e ≤ work view job x := by
  rw [trueSlack_eq, trueSlack_eq]
  generalize work view job e = we
  generalize work view job x = wx
  constructor
  · intro h
    have : (1000 * we : Int) ≤ 1000 * wx := by linarith
    omega
  · intro h
    have : (1000 * we : Int) ≤ 1000 * wx := by omega
    linarith

/-- The node with the greatest slack, the lowest `NodeId` of several. -/
def Foremost (slack : LoadMetrics → Int) (job : Job) (nodes : List LoadMetrics) (e : LoadMetrics) :
    Prop :=
  e ∈ eligible job nodes ∧ ∀ x ∈ eligible job nodes,
    slack x < slack e ∨ slack x = slack e ∧ e.nodeId ≤ x.nodeId

theorem foremost_iff {slack : LoadMetrics → Int} {nodes : List LoadMetrics} {e : LoadMetrics} :
    Foremost slack job nodes e ↔
      BestBy.IsBest (fun m => toDual (slack m)) LoadMetrics.nodeId (eligible job nodes) e := by
  unfold Foremost BestBy.IsBest
  simp only [BestBy.not_beats_iff_le, OrderDual.toDual_lt_toDual, OrderDual.toDual_inj]
  constructor
  · rintro ⟨he, hall⟩
    exact ⟨he, fun x hx => (hall x hx).imp_right fun h => ⟨h.1.symm, h.2⟩⟩
  · rintro ⟨he, hall⟩
    exact ⟨he, fun x hx => (hall x hx).imp_right fun h => ⟨h.1.symm, h.2⟩⟩

/-- The policy selects the foremost node by the residues. -/
theorem selectForDeadlineJob_eq_ok_iff {nodes : List LoadMetrics} {n : NodeId} :
    selectForDeadlineJob now deadline job view nodes = .ok n ↔
      ∃ e, Foremost (residue now deadline view job) job nodes e ∧ e.nodeId = n := by
  unfold selectForDeadlineJob
  simp only [slack_eq_residue]
  rw [Selection.pick_eq_ok_iff]
  simp only [foremost_iff]

theorem exists_foremost (slack : LoadMetrics → Int) {nodes : List LoadMetrics} {m : LoadMetrics}
    (hm : m ∈ eligible job nodes) : ∃ e, Foremost slack job nodes e := by
  simp only [foremost_iff]
  cases hscan : BestBy.scan (fun m => toDual (slack m)) LoadMetrics.nodeId (eligible job nodes) with
  | none =>
      rw [(BestBy.scan_eq_none_iff _ _).mp hscan] at hm
      exact absurd hm List.not_mem_nil
  | some e => exact ⟨e, BestBy.isBest_of_scan hscan⟩

/-- Without an overflow the foremost node has the least work. -/
theorem work_le_of_foremost {nodes : List LoadMetrics} {e : LoadMetrics}
    (hfits : ∀ m ∈ eligible job nodes, NoOverflow now deadline view job m)
    (he : Foremost (residue now deadline view job) job nodes e) :
    ∀ x ∈ eligible job nodes, work view job e ≤ work view job x := by
  intro x hx
  have hexact : ∀ m ∈ eligible job nodes,
      residue now deadline view job m = trueSlack now deadline view job m := by
    intro m hm
    rw [← slack_eq_residue, slack_eq_trueSlack (hfits m hm)]
  have hle : residue now deadline view job x ≤ residue now deadline view job e := by
    rcases he.2 x hx with hlt | ⟨heq, -⟩
    · exact hlt.le
    · exact heq.le
  rw [hexact x hx, hexact e he.1] at hle
  exact trueSlack_le_iff.mp hle

/-! ## When the greatest slack is selected

No node that accepts the job has a greater slack over the integers. -/

/-- A node that accepts the job is selected, and none that does has more slack over the integers. -/
structure MaximizesSlack (now deadline : TimePoint) (job : Job) (view : ClusterView F)
    (nodes : List LoadMetrics) : Prop where
  selects : (∃ m ∈ nodes, nodeAcceptsPriority m.state job.priority = true) →
    ∃ n, selectForDeadlineJob now deadline job view nodes = .ok n
  maximal : ∀ n, selectForDeadlineJob now deadline job view nodes = .ok n →
    ∃ e ∈ nodes, nodeAcceptsPriority e.state job.priority = true ∧ e.nodeId = n ∧
      ∀ x ∈ nodes, nodeAcceptsPriority x.state job.priority = true →
        trueSlack now deadline view job x ≤ trueSlack now deadline view job e

/-- **Overflow does no harm when the foremost residue belongs to the least work.**  It does when no
step leaves its type. -/
theorem maximizesSlack_iff (now deadline : TimePoint) (job : Job) (view : ClusterView F)
    (nodes : List LoadMetrics) :
    (MaximizesSlack now deadline job view nodes ↔
      ∀ e, Foremost (residue now deadline view job) job nodes e →
        ∃ e' ∈ eligible job nodes, e'.nodeId = e.nodeId ∧
          ∀ x ∈ eligible job nodes, work view job e' ≤ work view job x) ∧
    ((∀ m ∈ eligible job nodes, NoOverflow now deadline view job m) →
      MaximizesSlack now deadline job view nodes) := by
  have hiff : MaximizesSlack now deadline job view nodes ↔
      ∀ e, Foremost (residue now deadline view job) job nodes e →
        ∃ e' ∈ eligible job nodes, e'.nodeId = e.nodeId ∧
          ∀ x ∈ eligible job nodes, work view job e' ≤ work view job x := by
    constructor
    · intro h e he
      obtain ⟨e', hmem, haccepts, hid, hmax⟩ :=
        h.maximal _ (selectForDeadlineJob_eq_ok_iff.mpr ⟨e, he, rfl⟩)
      refine ⟨e', Selection.mem_eligible.mpr ⟨hmem, haccepts⟩, hid, fun x hx => ?_⟩
      obtain ⟨hxmem, hxaccepts⟩ := Selection.mem_eligible.mp hx
      exact trueSlack_le_iff.mp (hmax x hxmem hxaccepts)
    · intro h
      constructor
      · rintro ⟨m, hm⟩
        obtain ⟨e, he⟩ := exists_foremost (residue now deadline view job)
          (Selection.mem_eligible.mpr hm)
        exact ⟨e.nodeId, selectForDeadlineJob_eq_ok_iff.mpr ⟨e, he, rfl⟩⟩
      · intro n hn
        obtain ⟨e, he, rfl⟩ := selectForDeadlineJob_eq_ok_iff.mp hn
        obtain ⟨e', he', hid, hleast⟩ := h e he
        obtain ⟨hmem, haccepts⟩ := Selection.mem_eligible.mp he'
        refine ⟨e', hmem, haccepts, hid, fun x hx hxa => ?_⟩
        exact trueSlack_le_iff.mpr (hleast x (Selection.mem_eligible.mpr ⟨hx, hxa⟩))
  refine ⟨hiff, fun hfits => hiff.mpr fun e he => ⟨e, he.1, rfl, ?_⟩⟩
  exact work_le_of_foremost hfits he

/-- **The busier node is selected.**  A job of 2⁶⁰ microseconds takes node 2, with a job queued, 2⁶¹
microseconds, which are 0 nanoseconds modulo 2⁶⁴. -/
theorem busier_node_selected :
    selectForDeadlineJob 0 (10 ^ 9) { estimatedCost := 2 ^ 60, deadline := some (10 ^ 9) }
        { mNodeMetrics := [AffinityRouting.idleNode 1 0, AffinityRouting.idleNode 2 1]
          mCostModel := .create ({} : CostModelConfig Float32) }
        [AffinityRouting.idleNode 1 0, AffinityRouting.idleNode 2 1] = .ok 2 ∧
      ¬MaximizesSlack 0 (10 ^ 9) { estimatedCost := 2 ^ 60, deadline := some (10 ^ 9) }
        { mNodeMetrics := [AffinityRouting.idleNode 1 0, AffinityRouting.idleNode 2 1]
          mCostModel := .create ({} : CostModelConfig Float32) }
        [AffinityRouting.idleNode 1 0, AffinityRouting.idleNode 2 1] := by
  have hselected : selectForDeadlineJob 0 (10 ^ 9)
      { estimatedCost := 2 ^ 60, deadline := some (10 ^ 9) }
      { mNodeMetrics := [AffinityRouting.idleNode 1 0, AffinityRouting.idleNode 2 1]
        mCostModel := .create ({} : CostModelConfig Float32) }
      [AffinityRouting.idleNode 1 0, AffinityRouting.idleNode 2 1] = .ok 2 := by decide +kernel
  refine ⟨hselected, fun h => ?_⟩
  obtain ⟨e, he, -, hid, hmax⟩ := h.maximal 2 hselected
  have hless := hmax (AffinityRouting.idleNode 1 0) (by decide) rfl
  rcases List.mem_pair.mp he with rfl | rfl
  · exact absurd hid (by decide)
  · exact absurd hless (by decide +kernel)

end EarliestDeadlineFirst

end FatpBalancer
