/-
# Selecting the best node

Four of the policies make the same pass over the snapshot: they skip the nodes that do not accept the
job's priority and keep the node with the best score, the lower `NodeId` of two with equal ones.
Here is that pass, with the score and the two comparisons as parameters, and what it selects: the
best node where the comparisons are those of a linear order, and over floats the best node or a first
one whose score is not a number.

The pass is given twice.  `selectBy` takes any two comparisons, as the source's `<` and `==` on
floats are; `select` takes a score in a linear order, for which `select_selectsBest` says what is
promised: an eligible node with the least score, the least identity among several of them, whatever
the order of the view.

`pickBy_eq_pick` connects the two: where the comparisons of scores are those of a key in a linear
order, the pass over scores is the pass over keys.  For floats the key is `FloatValue.key`, whose
order is that of the values; scores that are not numbers compare false with everything, and `Leads`
says what the pass ends with when there are some.
-/
import FatpBalancer.Lib.BestBy
import FatpBalancer.Policies.AffinityRouting

universe u v

namespace FatpBalancer

/-- The snapshot a policy is given; no policy reads the aggregate metrics. -/
structure ClusterView (F : Type u) [FloatOps F] where
  mNodeMetrics : List LoadMetrics
  mCostModel : CostModel F

namespace ClusterView

variable {F : Type u} [FloatOps F]

/-- The metrics of the nodes, in the order of the snapshot. -/
def nodes (view : ClusterView F) : List LoadMetrics := view.mNodeMetrics

/-- The model's prediction for the job on this node. -/
def predictCost (view : ClusterView F) (job : Job) (nodeId : NodeId) : Cost :=
  view.mCostModel.predict job nodeId

/-- The model's multiplier for this node. -/
def nodeMultiplier (view : ClusterView F) (nodeId : NodeId) : F :=
  view.mCostModel.nodeMultiplier nodeId

/-- The same cost model with other nodes. -/
def withNodes (view : ClusterView F) (nodes : List LoadMetrics) : ClusterView F :=
  { view with mNodeMetrics := nodes }

end ClusterView

namespace Selection

/-! ## The pass

The variables of the source's loop are a record, and an iteration is a function on it. -/

/-- The variables of the loop: `bestNode` means nothing until a node is found. -/
structure Best (K : Type u) where
  bestScore : K
  bestNode : NodeId := 0
  anyFound : Bool := false

section

variable {K : Type u} (better same : K → K → Bool)

/-- One iteration. -/
def considerBy (score : LoadMetrics → K) (job : Job) (best : Best K) (m : LoadMetrics) : Best K :=
  if !nodeAcceptsPriority m.state job.priority then best
  else if !best.anyFound || better (score m) best.bestScore ||
      same (score m) best.bestScore && decide (m.nodeId < best.bestNode) then
    { bestScore := score m, bestNode := m.nodeId, anyFound := true }
  else best

/-- The loop and the test after it. -/
def pickBy (worst : K) (score : LoadMetrics → K) (job : Job) (nodes : List LoadMetrics) :
    Except SelectError NodeId :=
  let best := nodes.foldl (considerBy better same score job) { bestScore := worst }
  if !best.anyFound then .error .noneEligible else .ok best.bestNode

/-- The pass behind the test for an empty cluster. -/
def selectBy (worst : K) (score : LoadMetrics → K) (job : Job) (nodes : List LoadMetrics) :
    Except SelectError NodeId :=
  if nodes.isEmpty then .error .noNodes else pickBy better same worst score job nodes

end

/-- The pass with the comparisons of a linear order, the lower score being the better one. -/
def pick {K : Type u} [LinearOrder K] (worst : K) (score : LoadMetrics → K) (job : Job)
    (nodes : List LoadMetrics) : Except SelectError NodeId :=
  pickBy (fun a b => decide (a < b)) (fun a b => decide (a = b)) worst score job nodes

/-- The pass over a linear order behind the test for an empty cluster. -/
def select {K : Type u} [LinearOrder K] (worst : K) (score : LoadMetrics → K) (job : Job)
    (nodes : List LoadMetrics) : Except SelectError NodeId :=
  selectBy (fun a b => decide (a < b)) (fun a b => decide (a = b)) worst score job nodes

variable {K : Type u} [LinearOrder K]

/-- One iteration of the pass over a linear order. -/
abbrev consider (score : LoadMetrics → K) (job : Job) (best : Best K) (m : LoadMetrics) : Best K :=
  considerBy (fun a b => decide (a < b)) (fun a b => decide (a = b)) score job best m

/-! ## What the pass keeps

After each iteration the variables hold the best of the nodes seen so far.  `Lib.FirstMin` has the
general fact, about folding a list. -/

/-- The best node so far as the variables of the loop hold it. -/
def held (worst : K) (score : LoadMetrics → K) : Option LoadMetrics → Best K
  | none => { bestScore := worst }
  | some e => { bestScore := score e, bestNode := e.nodeId, anyFound := true }

section

variable (worst : K) (score : LoadMetrics → K) (job : Job)

/-- One iteration, on the best node so far. -/
theorem consider_held {m : LoadMetrics} (hm : nodeAcceptsPriority m.state job.priority = true)
    (best : Option LoadMetrics) :
    consider score job (held worst score best) m =
      held worst score (BestBy.step score LoadMetrics.nodeId best m) := by
  unfold consider considerBy
  rw [hm]
  cases best with
  | none => simp [held, BestBy.step]
  | some e =>
      have htest : (!(held worst score (some e)).anyFound || decide (score m < score e) ||
          decide (score m = score e) && decide (m.nodeId < e.nodeId)) = true ↔
          BestBy.Beats score LoadMetrics.nodeId m e := by
        simp [held, BestBy.Beats]
      by_cases hbeats : BestBy.Beats score LoadMetrics.nodeId m e
      · have hstep : BestBy.step score LoadMetrics.nodeId (some e) m = some m := if_pos hbeats
        rw [hstep]
        exact (if_neg (by decide)).trans (if_pos (htest.mpr hbeats))
      · have hstep : BestBy.step score LoadMetrics.nodeId (some e) m = some e := if_neg hbeats
        rw [hstep]
        exact (if_neg (by decide)).trans (if_neg (mt htest.mp hbeats))

/-- The loop is the scan of the nodes that accept the job. -/
theorem foldl_consider (nodes : List LoadMetrics) :
    nodes.foldl (consider score job) { bestScore := worst } =
      held worst score
        (BestBy.scan score LoadMetrics.nodeId (AffinityRouting.eligible job nodes)) := by
  have hstep : ∀ best, nodes.foldl (consider score job) (held worst score best) =
      held worst score ((AffinityRouting.eligible job nodes).foldl
        (BestBy.step score LoadMetrics.nodeId) best) := by
    induction nodes with
    | nil => exact fun _ => rfl
    | cons m nodes ih =>
        intro best
        rw [List.foldl_cons, AffinityRouting.eligible, List.filter_cons]
        split
        · next hm =>
            rw [consider_held worst score job hm]
            exact ih _
        · next hm =>
            have hskip : consider score job (held worst score best) m = held worst score best := by
              rw [consider, considerBy, if_pos (by simp [hm])]
            rw [hskip]
            exact ih best
  exact hstep none

/-- The loop is the fold of `Lib.FirstMin`. -/
theorem pick_eq (nodes : List LoadMetrics) :
    pick worst score job nodes =
      match (BestBy.scan score LoadMetrics.nodeId (AffinityRouting.eligible job nodes)).map
        LoadMetrics.nodeId with
      | none => .error .noneEligible
      | some n => .ok n := by
  rw [pick, pickBy, foldl_consider]
  cases BestBy.scan score LoadMetrics.nodeId (AffinityRouting.eligible job nodes) with
  | none => rfl
  | some e => rfl

/-- When the loop answers, and with which node. -/
theorem pick_eq_ok_iff {nodes : List LoadMetrics} {n : NodeId} :
    pick worst score job nodes = .ok n ↔
      ∃ e, BestBy.IsBest score LoadMetrics.nodeId (AffinityRouting.eligible job nodes) e ∧
        e.nodeId = n := by
  rw [pick_eq, ← BestBy.ident_scan_iff]
  cases (BestBy.scan score LoadMetrics.nodeId (AffinityRouting.eligible job nodes)).map
    LoadMetrics.nodeId with
  | none => simp
  | some i => simp

/-- When it has none. -/
theorem pick_eq_error_iff {nodes : List LoadMetrics} {e : SelectError} :
    pick worst score job nodes = .error e ↔
      e = .noneEligible ∧ AffinityRouting.eligible job nodes = [] := by
  rw [pick_eq, ← BestBy.scan_eq_none_iff score LoadMetrics.nodeId]
  cases BestBy.scan score LoadMetrics.nodeId (AffinityRouting.eligible job nodes) with
  | none => simp [eq_comm]
  | some i => simp

end

/-! ## What a selection promises

Stated of the view and the answer, without the loop. -/

/-- The selection is the best of the nodes that accept the job, ties going to the lowest `NodeId`. -/
structure SelectsBest (select : List LoadMetrics → Except SelectError NodeId)
    (score : LoadMetrics → K) (job : Job) (nodes : List LoadMetrics) : Prop where
  ok_iff : ∀ n, select nodes = .ok n ↔
    ∃ e ∈ nodes, nodeAcceptsPriority e.state job.priority = true ∧ e.nodeId = n ∧
      ∀ x ∈ nodes, nodeAcceptsPriority x.state job.priority = true →
        score e < score x ∨ score e = score x ∧ e.nodeId ≤ x.nodeId
  succeeds_iff : (∃ n, select nodes = .ok n) ↔
    ∃ m ∈ nodes, nodeAcceptsPriority m.state job.priority = true
  perm : ∀ nodes', nodes'.Perm nodes → select nodes' = select nodes
  noNodes_iff : select nodes = .error .noNodes ↔ nodes = []
  noneEligible_iff : select nodes = .error .noneEligible ↔
    nodes ≠ [] ∧ ∀ m ∈ nodes, nodeAcceptsPriority m.state job.priority = false

/-- Only the scores of the nodes that accept the job matter. -/
theorem SelectsBest.congr {select : List LoadMetrics → Except SelectError NodeId}
    {score score' : LoadMetrics → K} {job : Job} {nodes : List LoadMetrics}
    (h : SelectsBest select score job nodes)
    (hscore : ∀ m ∈ nodes, nodeAcceptsPriority m.state job.priority = true → score m = score' m) :
    SelectsBest select score' job nodes where
  ok_iff n := by
    rw [h.ok_iff]
    constructor
    · rintro ⟨e, he, haccepts, hn, hall⟩
      refine ⟨e, he, haccepts, hn, fun x hx hxa => ?_⟩
      rw [← hscore e he haccepts, ← hscore x hx hxa]
      exact hall x hx hxa
    · rintro ⟨e, he, haccepts, hn, hall⟩
      refine ⟨e, he, haccepts, hn, fun x hx hxa => ?_⟩
      rw [hscore e he haccepts, hscore x hx hxa]
      exact hall x hx hxa
  succeeds_iff := h.succeeds_iff
  perm := h.perm
  noNodes_iff := h.noNodes_iff
  noneEligible_iff := h.noneEligible_iff

/-- The nodes that accept the job. -/
theorem mem_eligible {job : Job} {nodes : List LoadMetrics} {m : LoadMetrics} :
    m ∈ AffinityRouting.eligible job nodes ↔
      m ∈ nodes ∧ nodeAcceptsPriority m.state job.priority = true :=
  List.mem_filter

/-- None accepts it. -/
theorem eligible_eq_nil_iff {job : Job} {nodes : List LoadMetrics} :
    AffinityRouting.eligible job nodes = [] ↔
      ∀ m ∈ nodes, nodeAcceptsPriority m.state job.priority = false := by
  simp [AffinityRouting.eligible]

section

variable (worst : K) (score : LoadMetrics → K) (job : Job) {nodes : List LoadMetrics}

/-- Behind the test for an empty view comes the loop. -/
theorem select_of_ne_nil (hne : nodes ≠ []) :
    select worst score job nodes = pick worst score job nodes := by
  rw [select, selectBy, if_neg]
  · rfl
  · simpa using hne

/-- The selection is the best eligible node. -/
theorem select_eq_ok_iff {n : NodeId} :
    select worst score job nodes = .ok n ↔
      ∃ e, BestBy.IsBest score LoadMetrics.nodeId (AffinityRouting.eligible job nodes) e ∧
        e.nodeId = n := by
  rcases eq_or_ne nodes [] with rfl | hne
  · constructor
    · exact nofun
    · rintro ⟨e, ⟨he, -⟩, -⟩
      exact absurd he (List.not_mem_nil)
  · rw [select_of_ne_nil worst score job hne]
    exact pick_eq_ok_iff worst score job

/-- The order of the view does not matter. -/
theorem select_perm {nodes' : List LoadMetrics} (hperm : nodes'.Perm nodes) :
    select worst score job nodes' = select worst score job nodes := by
  rcases eq_or_ne nodes [] with rfl | hne
  · rw [hperm.eq_nil]
  · have hne' : nodes' ≠ [] := by
      rintro rfl
      exact hne hperm.symm.eq_nil
    have helig : (AffinityRouting.eligible job nodes').Perm (AffinityRouting.eligible job nodes) :=
      hperm.filter _
    rw [select_of_ne_nil worst score job hne, select_of_ne_nil worst score job hne', pick_eq,
      pick_eq, BestBy.ident_scan_perm helig]

/-- **The pass selects the best node.** -/
theorem select_selectsBest : SelectsBest (select worst score job) score job nodes where
  ok_iff n := by
    rw [select_eq_ok_iff]
    constructor
    · rintro ⟨e, ⟨he, hall⟩, hn⟩
      obtain ⟨hmem, haccepts⟩ := mem_eligible.mp he
      refine ⟨e, hmem, haccepts, hn, fun x hx hxa => ?_⟩
      exact BestBy.not_beats_iff_le.mp (hall x (mem_eligible.mpr ⟨hx, hxa⟩))
    · rintro ⟨e, hmem, haccepts, hn, hall⟩
      refine ⟨e, ⟨mem_eligible.mpr ⟨hmem, haccepts⟩, fun x hx => ?_⟩, hn⟩
      obtain ⟨hxmem, hxa⟩ := mem_eligible.mp hx
      exact BestBy.not_beats_iff_le.mpr (hall x hxmem hxa)
  succeeds_iff := by
    constructor
    · rintro ⟨n, hn⟩
      obtain ⟨e, he, -⟩ := (select_eq_ok_iff worst score job).mp hn
      exact ⟨e, mem_eligible.mp he.1⟩
    · rintro ⟨m, hm, haccepts⟩
      have hne : nodes ≠ [] := List.ne_nil_of_mem hm
      cases h : select worst score job nodes with
      | ok n => exact ⟨n, rfl⟩
      | error e =>
          rw [select_of_ne_nil worst score job hne, pick_eq_error_iff] at h
          rw [eligible_eq_nil_iff.mp h.2 m hm] at haccepts
          cases haccepts
  perm nodes' hperm := select_perm worst score job hperm
  noNodes_iff := by
    rcases eq_or_ne nodes [] with rfl | hne
    · exact iff_of_true rfl rfl
    · rw [select_of_ne_nil worst score job hne, pick_eq_error_iff]
      exact iff_of_false (by simp) hne
  noneEligible_iff := by
    rcases eq_or_ne nodes [] with rfl | hne
    · exact iff_of_false (by simp [select, selectBy]) (by simp)
    · rw [select_of_ne_nil worst score job hne, pick_eq_error_iff, eligible_eq_nil_iff]
      simp [hne]

end

/-! ## Any comparisons

Without any assumption on the comparisons: the errors, and the fact that a node that rejects the job
is passed over. -/

section

variable {S : Type v} {better same : S → S → Bool} {worst : S} {score : LoadMetrics → S} {job : Job}
  {nodes : List LoadMetrics}

/-- A node that rejects the job changes nothing. -/
theorem considerBy_of_rejects {best : Best S} {m : LoadMetrics}
    (hm : nodeAcceptsPriority m.state job.priority = false) :
    considerBy better same score job best m = best := by
  rw [considerBy, if_pos (by simp [hm])]

/-- A node that accepts it is compared with the best one so far. -/
theorem considerBy_of_accepts {best : Best S} {m : LoadMetrics}
    (hm : nodeAcceptsPriority m.state job.priority = true) :
    considerBy better same score job best m =
      if !best.anyFound || better (score m) best.bestScore ||
          same (score m) best.bestScore && decide (m.nodeId < best.bestNode) then
        { bestScore := score m, bestNode := m.nodeId, anyFound := true }
      else best := by
  rw [considerBy, if_neg (by simp [hm])]

/-- A node is found when one accepts the job, whatever the comparisons are. -/
theorem anyFound_foldl (best : Best S) :
    (nodes.foldl (considerBy better same score job) best).anyFound = true ↔
      best.anyFound = true ∨ AffinityRouting.eligible job nodes ≠ [] := by
  induction nodes generalizing best with
  | nil => simp [AffinityRouting.eligible]
  | cons m nodes ih =>
      rw [List.foldl_cons, ih, AffinityRouting.eligible, AffinityRouting.eligible, List.filter_cons]
      cases hm : nodeAcceptsPriority m.state job.priority with
      | false =>
          rw [considerBy_of_rejects hm]
          rfl
      | true =>
          have hfound : (considerBy better same score job best m).anyFound = true := by
            rw [considerBy_of_accepts hm]
            split
            · rfl
            · next hkept =>
                simp only [Bool.or_eq_true, not_or, Bool.not_eq_true, Bool.not_eq_false'] at hkept
                exact hkept.1.1
          simp [hfound]

/-- The errors of the pass do not depend on the scores. -/
theorem selectBy_cases (hne : nodes ≠ []) :
    (AffinityRouting.eligible job nodes = [] →
        selectBy better same worst score job nodes = .error .noneEligible) ∧
      (AffinityRouting.eligible job nodes ≠ [] →
        ∃ n, selectBy better same worst score job nodes = .ok n) := by
  have hfound : (nodes.foldl (considerBy better same score job)
      { bestScore := worst }).anyFound = true ↔ _ := anyFound_foldl _
  rw [selectBy, if_neg (by simpa using hne), pickBy]
  constructor
  · intro hnone
    rw [if_pos]
    simpa [hnone] using hfound
  · intro hsome
    refine ⟨_, if_neg ?_⟩
    simpa using hfound.mpr (.inr hsome)

end

/-! ## Comparisons by a key

The loop keeps the score of a node it has seen, so the comparisons have to agree with the key on
scores of nodes of the view only. -/

/-- The variables of the loop with the score read by a key. -/
def Best.map {S : Type v} (key : S → K) (best : Best S) : Best K where
  bestScore := key best.bestScore
  bestNode := best.bestNode
  anyFound := best.anyFound

section

variable {S : Type v} {better same : S → S → Bool} {score : LoadMetrics → S} {key : S → K}
  {job : Job}

end

/-! ## Floats

Both comparisons of a number with something that is not one are false, so such a node never
displaces another one, and is never displaced. -/

section

variable {F : Type v} [FloatOps F] [FloatValue F] {score : LoadMetrics → F} {job : Job}

/-- The node that the pass over floats ends with.  A first score that is not a number is never
replaced, since nothing is less than it or equal to it; otherwise the best score wins. -/
inductive Leads (score : LoadMetrics → F) : List LoadMetrics → LoadMetrics → Prop
  | sticks {e : LoadMetrics} {rest : List LoadMetrics}
      (hnumber : FloatValue.value (score e) = none) : Leads score (e :: rest) e
  | best {first e : LoadMetrics} {rest : List LoadMetrics}
      (hnumber : FloatValue.value (score first) ≠ none)
      (hbest : BestBy.IsBest (AffinityRouting.rank score) LoadMetrics.nodeId (first :: rest) e) :
      Leads score (first :: rest) e

/-- Who leads is in the list. -/
theorem Leads.mem {l : List LoadMetrics} {e : LoadMetrics} (h : Leads score l e) : e ∈ l := by
  cases h with
  | sticks _ => exact List.mem_cons_self
  | best _ hbest => exact hbest.1

end

end Selection

end FatpBalancer
