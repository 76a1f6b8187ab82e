/-
# Policies as objects, and the composite

A constructed policy with the state it keeps between calls, which is the cursor of every round-robin
policy inside it.  A composite asks its children in turn and infers from their errors whether there
were nodes at all, so that its own error is right only if theirs are.

`Policy` is the object and `SchedulingPolicy.construct` makes it from the description the factory
builds.  `induct` is the induction principle for policies inside policies, and the loop of a
composite is read once, in `FirstAnswer`, as the first child that answers.

What a policy says of a view without eligible nodes decides the rest.  `Blind` and `Sure` classify
the leaves: a blind one does not test for an empty view and so calls an empty cluster full, and a
sure one never misses an eligible node.  A composite is as its children are, by induction, and the
exact condition under which it reports rightly is about these two classes.  `Built` and `Chained`
say which composites the factory can hand out.
-/
import FatpBalancer.Policies.RoundRobin
import FatpBalancer.Policies.WorkStealing
import FatpBalancer.Supervisor.PolicyFactory

universe u v

namespace FatpBalancer

/-! ## Policy objects

The source keeps a cursor in an atomic member of `RoundRobin`; here a call hands back the policy
with its cursor moved on. -/

/-- A policy with its state, the children of a composite among it. -/
inductive Policy (F : Type u)
  | roundRobin (mCursor : Nat)
  | leastLoaded
  | workStealing (mStealThreshold : Nat)
  /-- holds a reference to a cost model -/
  | affinityRouting
  | composite (mPolicies : List (Policy F))
  | shortestJobFirst
  | weightedCapacity (mWeights : List (NodeId × F))
  | earliestDeadlineFirst

mutual

/-- What the constructors make: every cursor starts at 0. -/
def SchedulingPolicy.construct (F : Type u) : SchedulingPolicy → Policy F
  | .roundRobin => .roundRobin 0
  | .leastLoaded => .leastLoaded
  | .workStealing mStealThreshold => .workStealing mStealThreshold
  | .affinityRouting => .affinityRouting
  | .composite mPolicies => .composite (SchedulingPolicy.constructAll F mPolicies)
  | .shortestJobFirst => .shortestJobFirst
  | .weightedCapacity => .weightedCapacity []
  | .earliestDeadlineFirst => .earliestDeadlineFirst

/-- The children, in their order. -/
def SchedulingPolicy.constructAll (F : Type u) : List SchedulingPolicy → List (Policy F)
  | [] => []
  | p :: ps => p.construct F :: SchedulingPolicy.constructAll F ps

end

namespace Policy

variable {F : Type u}

section

-- the doubles, the model the affinity policies refer to, what the clock reads, and the arguments of
-- the call
variable (D : Type v) [FloatOps D] [FloatOps F] (mCostModel : CostModel F) (now : TimePoint)
  (job : Job) (view : ClusterView F)

mutual

/-- The answer, and the policy after the call. -/
def selectNode : Policy F → Except SelectError NodeId × Policy F
  | .roundRobin mCursor =>
      ((RoundRobin.selectNode mCursor job view).1,
        .roundRobin (RoundRobin.selectNode mCursor job view).2)
  | .leastLoaded => (LeastLoaded.selectNode job view, .leastLoaded)
  | .workStealing mStealThreshold =>
      (WorkStealing.selectNode D mStealThreshold job view, .workStealing mStealThreshold)
  | .affinityRouting => (AffinityRouting.selectNode mCostModel job view.nodes, .affinityRouting)
  | .composite mPolicies =>
      if mPolicies.isEmpty then (.error .noNodes, .composite mPolicies)
      else ((selectFirst false mPolicies).1, .composite (selectFirst false mPolicies).2)
  | .shortestJobFirst => (ShortestJobFirst.selectNode job view, .shortestJobFirst)
  | .weightedCapacity mWeights =>
      (WeightedCapacity.selectNode mWeights job view, .weightedCapacity mWeights)
  | .earliestDeadlineFirst =>
      (EarliestDeadlineFirst.selectNode now job view, .earliestDeadlineFirst)

/-- The loop over the children; those after the first that answers are not called. -/
def selectFirst (anyPolicySawNodes : Bool) :
    List (Policy F) → Except SelectError NodeId × List (Policy F)
  | [] => (.error (if anyPolicySawNodes then .noneEligible else .noNodes), [])
  | p :: ps =>
      match (selectNode p).1 with
      | .ok n => (.ok n, (selectNode p).2 :: ps)
      | .error e =>
          ((selectFirst (anyPolicySawNodes || e = .noneEligible) ps).1,
            (selectNode p).2 :: (selectFirst (anyPolicySawNodes || e = .noneEligible) ps).2)

end

/-- What the policy answers. -/
def answer (p : Policy F) : Except SelectError NodeId :=
  (p.selectNode D mCostModel now job view).1

end

/-! ## Induction over nested policies

The recursion goes through a list of children, so the principle is stated for a policy whose
children all have the property. -/

mutual

/-- The principle for a policy and for a list of them together. -/
theorem induct_aux {P : Policy F → Prop} (leaf : ∀ p, (∀ ps, p ≠ composite ps) → P p)
    (chain : ∀ ps, (∀ q ∈ ps, P q) → P (composite ps)) : ∀ p, P p
  | .composite ps => chain ps (induct_all leaf chain ps)
  | .roundRobin _ => leaf _ nofun
  | .leastLoaded => leaf _ nofun
  | .workStealing _ => leaf _ nofun
  | .affinityRouting => leaf _ nofun
  | .shortestJobFirst => leaf _ nofun
  | .weightedCapacity _ => leaf _ nofun
  | .earliestDeadlineFirst => leaf _ nofun

/-- The half about lists. -/
theorem induct_all {P : Policy F → Prop} (leaf : ∀ p, (∀ ps, p ≠ composite ps) → P p)
    (chain : ∀ ps, (∀ q ∈ ps, P q) → P (composite ps)) : ∀ ps : List (Policy F), ∀ q ∈ ps, P q
  | [] => nofun
  | p :: ps => List.forall_mem_cons.mpr ⟨induct_aux leaf chain p, induct_all leaf chain ps⟩

end

/-- A composite's children come before it. -/
@[elab_as_elim]
theorem induct {P : Policy F → Prop} (p : Policy F) (leaf : ∀ p, (∀ ps, p ≠ composite ps) → P p)
    (chain : ∀ ps, (∀ q ∈ ps, P q) → P (composite ps)) : P p :=
  induct_aux leaf chain p

/-- Every composite inside has a child. -/
inductive Chained : Policy F → Prop
  | leaf {p : Policy F} (hleaf : ∀ ps, p ≠ composite ps) : Chained p
  | chain {ps : List (Policy F)} (hne : ps ≠ []) (hchildren : ∀ q ∈ ps, Chained q) :
      Chained (composite ps)

/-! ## The loop of a composite

The children are asked one after the other; the first answer ends the loop, and the errors before it
are looked at only when there is none. -/

section

variable {D : Type v} [FloatOps D] [FloatOps F] {mCostModel : CostModel F}
  {now : TimePoint} {job : Job} {view : ClusterView F}

/-- The answer of the first child that gives one. -/
def FirstAnswer (D : Type v) [FloatOps D] (mCostModel : CostModel F) (now : TimePoint) (job : Job)
    (view : ClusterView F) (ps : List (Policy F)) (n : NodeId) : Prop :=
  ∃ before p after, ps = before ++ p :: after ∧
    (∀ q ∈ before, ∃ e, q.answer D mCostModel now job view = .error e) ∧
    p.answer D mCostModel now job view = .ok n

/-- The loop answers with the first child that does. -/
theorem selectFirst_eq_ok_iff {anyPolicySawNodes : Bool} {ps : List (Policy F)} {n : NodeId} :
    (selectFirst D mCostModel now job view anyPolicySawNodes ps).1 = .ok n ↔
      FirstAnswer D mCostModel now job view ps n := by
  induction ps generalizing anyPolicySawNodes with
  | nil =>
      constructor
      · exact nofun
      · rintro ⟨before, p, after, hps, -⟩
        exact absurd hps.symm (by simp)
  | cons p ps ih =>
      rw [selectFirst]
      cases hp : (p.selectNode D mCostModel now job view).1 with
      | ok m =>
          -- the head answers, so that it is the first that does
          constructor
          · intro h
            cases h
            exact ⟨[], p, ps, rfl, nofun, hp⟩
          · rintro ⟨before, q, after, hps, hbefore, hq⟩
            cases before with
            | nil =>
                obtain ⟨rfl, rfl⟩ := List.cons.inj hps
                rw [answer, hp] at hq
                exact hq
            | cons b before =>
                obtain ⟨rfl, rfl⟩ := List.cons.inj hps
                obtain ⟨e, he⟩ := hbefore p (by simp)
                rw [answer, hp] at he
                cases he
      | error e =>
          rw [ih]
          constructor
          · rintro ⟨before, q, after, rfl, hbefore, hq⟩
            exact ⟨p :: before, q, after, rfl,
              List.forall_mem_cons.mpr ⟨⟨e, hp⟩, hbefore⟩, hq⟩
          · rintro ⟨before, q, after, hps, hbefore, hq⟩
            cases before with
            | nil =>
                obtain ⟨rfl, rfl⟩ := List.cons.inj hps
                rw [answer, hp] at hq
                cases hq
            | cons b before =>
                obtain ⟨rfl, rfl⟩ := List.cons.inj hps
                exact ⟨before, q, after, rfl, fun c hc => hbefore c (List.mem_cons_of_mem _ hc), hq⟩

/-- When no child answers, one report of ineligible nodes makes the error. -/
theorem selectFirst_eq_error {anyPolicySawNodes : Bool} {ps : List (Policy F)}
    (h : ∀ q ∈ ps, ∃ e, q.answer D mCostModel now job view = .error e) :
    (selectFirst D mCostModel now job view anyPolicySawNodes ps).1 =
      .error (if anyPolicySawNodes = true ∨
        ∃ q ∈ ps, q.answer D mCostModel now job view = .error .noneEligible then .noneEligible
        else .noNodes) := by
  induction ps generalizing anyPolicySawNodes with
  | nil => simp [selectFirst]
  | cons p ps ih =>
      obtain ⟨⟨e, he⟩, hps⟩ := List.forall_mem_cons.mp h
      have hp : (p.selectNode D mCostModel now job view).1 = .error e := he
      rw [selectFirst, hp]
      dsimp only
      rw [ih hps]
      congr 1
      apply if_congr _ rfl rfl
      simp only [Bool.or_eq_true, decide_eq_true_eq, List.mem_cons, exists_eq_or_imp, he,
        Except.error.injEq, or_assoc]

/-- There is a first answer when there is an answer. -/
theorem exists_firstAnswer_iff {ps : List (Policy F)} :
    (∃ n, FirstAnswer D mCostModel now job view ps n) ↔
      ∃ q ∈ ps, ∃ n, q.answer D mCostModel now job view = .ok n := by
  constructor
  · rintro ⟨n, before, p, after, rfl, -, hp⟩
    exact ⟨p, by simp, n, hp⟩
  · induction ps with
    | nil => rintro ⟨q, hq, -⟩; cases hq
    | cons p ps ih =>
        intro hsome
        cases hp : p.answer D mCostModel now job view with
        | ok n => exact ⟨n, [], p, ps, rfl, nofun, hp⟩
        | error e =>
            have hrest : ∃ q ∈ ps, ∃ n, q.answer D mCostModel now job view = .ok n := by
              obtain ⟨q, hq, n, hn⟩ := hsome
              rcases List.mem_cons.mp hq with rfl | hq
              · rw [hp] at hn
                cases hn
              · exact ⟨q, hq, n, hn⟩
            obtain ⟨n, before, q, after, rfl, hbefore, hq⟩ := ih hrest
            exact ⟨n, p :: before, q, after, rfl, List.forall_mem_cons.mpr ⟨⟨e, hp⟩, hbefore⟩, hq⟩

/-- A composite answers what its loop does, when it has children. -/
theorem answer_composite {ps : List (Policy F)} (hne : ps ≠ []) :
    (composite ps).answer D mCostModel now job view =
      (selectFirst D mCostModel now job view false ps).1 := by
  rw [answer, selectNode, if_neg (by simpa using hne)]

/-- The composite's answer is the first one of its children. -/
theorem composite_eq_ok_iff {ps : List (Policy F)} (hne : ps ≠ []) {n : NodeId} :
    (composite ps).answer D mCostModel now job view = .ok n ↔
      FirstAnswer D mCostModel now job view ps n := by
  rw [answer_composite hne, selectFirst_eq_ok_iff]

/-- Without an answer its error is inferred from those of the children. -/
theorem composite_eq_error {ps : List (Policy F)} (hne : ps ≠ [])
    (h : ∀ q ∈ ps, ∃ e, q.answer D mCostModel now job view = .error e) :
    (composite ps).answer D mCostModel now job view =
      .error (if ∃ q ∈ ps, q.answer D mCostModel now job view = .error .noneEligible then
        .noneEligible else .noNodes) := by
  rw [answer_composite hne, selectFirst_eq_error h]
  simp

end

/-! ## What each policy makes of a view

Three kinds of view matter: an empty one, one with nodes of which none accepts the job, and one with
an eligible node. -/

/-- A policy inside does not test the view for being empty. -/
inductive Blind : Policy F → Prop
  | workStealing (mStealThreshold : Nat) : Blind (.workStealing mStealThreshold)
  | affinityRouting : Blind .affinityRouting
  | child {ps : List (Policy F)} {q : Policy F} (hq : q ∈ ps) (hblind : Blind q) : Blind (composite ps)

/-- A policy inside selects a node whenever one accepts the job. -/
inductive Sure : Policy F → Prop
  | leaf {p : Policy F} (hleaf : ∀ ps, p ≠ composite ps) (hother : p ≠ .affinityRouting) : Sure p
  | child {ps : List (Policy F)} {q : Policy F} (hq : q ∈ ps) (hsure : Sure q) : Sure (composite ps)

/-- A composite is blind when one of its children is. -/
theorem blind_composite_iff {ps : List (Policy F)} : (composite ps).Blind ↔ ∃ q ∈ ps, q.Blind := by
  constructor
  · rintro ⟨⟩
    exact ⟨_, ‹_›, ‹_›⟩
  · rintro ⟨q, hq, hblind⟩
    exact .child hq hblind

/-- And sure when one of its children is. -/
theorem sure_composite_iff {ps : List (Policy F)} : (composite ps).Sure ↔ ∃ q ∈ ps, q.Sure := by
  constructor
  · intro h
    cases h with
    | leaf hleaf _ => exact absurd rfl (hleaf ps)
    | child hq hsure => exact ⟨_, hq, hsure⟩
  · rintro ⟨q, hq, hsure⟩
    exact .child hq hsure

/-- Two kinds of leaves are apart from the others. -/
theorem leaf_cases {p : Policy F} (hleaf : ∀ ps, p ≠ composite ps) :
    p = .affinityRouting ∨ (∃ mStealThreshold, p = .workStealing mStealThreshold) ∨
      p ≠ .affinityRouting ∧ ∀ mStealThreshold, p ≠ .workStealing mStealThreshold := by
  cases p with
  | composite ps => exact absurd rfl (hleaf ps)
  | affinityRouting => exact .inl rfl
  | workStealing mStealThreshold => exact .inr (.inl ⟨mStealThreshold, rfl⟩)
  | _ => exact .inr (.inr ⟨nofun, nofun⟩)

section

variable {D : Type v} [FloatOps D] [FloatOps F] {mCostModel : CostModel F}
  {now : TimePoint} {job : Job} {view : ClusterView F}

/-- The others test the view for being empty. -/
theorem leaf_of_empty (hview : view.nodes = []) {p : Policy F} (hleaf : ∀ ps, p ≠ composite ps)
    (haffinity : p ≠ .affinityRouting)
    (hstealing : ∀ mStealThreshold, p ≠ .workStealing mStealThreshold) :
    ¬p.Blind ∧ p.answer D mCostModel now job view = .error .noNodes := by
  constructor
  · intro h
    cases h with
    | workStealing mStealThreshold => exact hstealing mStealThreshold rfl
    | affinityRouting => exact haffinity rfl
    | child hq _ => exact hleaf _ rfl
  · cases p with
    | composite ps => exact absurd rfl (hleaf ps)
    | affinityRouting => exact absurd rfl haffinity
    | workStealing mStealThreshold => exact absurd rfl (hstealing mStealThreshold)
    | roundRobin mCursor => simp [answer, selectNode, RoundRobin.selectNode, hview]
    | leastLoaded => simp [answer, selectNode, LeastLoaded.selectNode, Selection.selectBy, hview]
    | shortestJobFirst =>
        simp [answer, selectNode, ShortestJobFirst.selectNode, Selection.selectBy, hview]
    | weightedCapacity mWeights =>
        simp [answer, selectNode, WeightedCapacity.selectNode, Selection.selectBy, hview]
    | earliestDeadlineFirst =>
        simp [answer, selectNode, EarliestDeadlineFirst.selectNode, hview]

/-- An empty view: the policies that do not test for it report that no node is eligible. -/
theorem answer_of_empty (hview : view.nodes = []) (p : Policy F) :
    (p.Blind → p.answer D mCostModel now job view = .error .noneEligible) ∧
      (¬p.Blind → p.answer D mCostModel now job view = .error .noNodes) := by
  induction p using Policy.induct with
  | leaf p hleaf =>
      rcases leaf_cases hleaf with rfl | ⟨mStealThreshold, rfl⟩ | ⟨haffinity, hstealing⟩
      · refine ⟨fun _ => ?_, fun h => absurd .affinityRouting h⟩
        show AffinityRouting.selectNode mCostModel job view.nodes = _
        rw [hview]
        rfl
      · refine ⟨fun _ => ?_, fun h => absurd (.workStealing _) h⟩
        show WorkStealing.selectNode D mStealThreshold job view = _
        unfold WorkStealing.selectNode
        rw [hview]
        rfl
      · obtain ⟨hblind, hanswer⟩ : ¬p.Blind ∧
            p.answer D mCostModel now job view = .error .noNodes :=
          leaf_of_empty hview hleaf haffinity hstealing
        exact ⟨fun h => absurd h hblind, fun _ => hanswer⟩
  | chain ps ih =>
      rcases eq_or_ne ps [] with rfl | hne
      · refine ⟨fun h => ?_, fun _ => rfl⟩
        obtain ⟨q, hq, -⟩ := blind_composite_iff.mp h
        cases hq
      · have herrors : ∀ q ∈ ps, ∃ e, q.answer D mCostModel now job view = .error e := by
          intro q hq
          by_cases hblind : q.Blind
          · exact ⟨_, (ih q hq).1 hblind⟩
          · exact ⟨_, (ih q hq).2 hblind⟩
        rw [composite_eq_error hne herrors]
        constructor
        · intro h
          obtain ⟨q, hq, hblind⟩ := blind_composite_iff.mp h
          rw [if_pos ⟨q, hq, (ih q hq).1 hblind⟩]
        · intro h
          rw [if_neg]
          rintro ⟨q, hq, heq⟩
          have hnot : ¬q.Blind := fun hblind => h (.child hq hblind)
          rw [(ih q hq).2 hnot] at heq
          cases heq

/-- Affinity routing sees a node whose score is below the largest float. -/
def AffinitySees (mCostModel : CostModel F) (job : Job) (view : ClusterView F) : Prop :=
  ∃ m ∈ AffinityRouting.eligible job view.nodes,
    FloatOps.lt (AffinityRouting.score mCostModel job
      (AffinityRouting.anyWarm mCostModel job view.nodes) m) (FloatOps.lit floatMax) = true

/-- Affinity routing answers when it sees a node. -/
theorem affinityRouting_answers_iff [FloatValue F] :
    (∃ n, affinityRouting.answer D mCostModel now job view = .ok n) ↔
      AffinitySees mCostModel job view := by
  show (∃ n, AffinityRouting.selectNode mCostModel job view.nodes = .ok n) ↔ _
  unfold AffinitySees
  simp only [← AffinityRouting.lt_floatMax_iff]
  simp only [AffinityRouting.selectNode_eq_ok_iff, AffinityRouting.prevails_iff]
  refine Iff.trans ?_ FirstMin.exists_wins_iff
  constructor
  · rintro ⟨n, e, he, -⟩
    exact ⟨e, he⟩
  · rintro ⟨e, he⟩
    exact ⟨e.nodeId, e, he, rfl⟩

/-- The two branches of earliest deadline first. -/
theorem deadline_answer (hne : view.nodes ≠ []) :
    (AffinityRouting.eligible job view.nodes = [] →
        EarliestDeadlineFirst.selectNode now job view = .error .noneEligible) ∧
      (AffinityRouting.eligible job view.nodes ≠ [] →
        ∃ n, EarliestDeadlineFirst.selectNode now job view = .ok n) := by
  cases hdeadline : job.deadline with
  | none =>
      have hselect : EarliestDeadlineFirst.selectNode now job view = _ :=
        EarliestDeadlineFirst.selectNode_of_no_deadline hdeadline view.nodes
      rw [hselect]
      exact Selection.selectBy_cases hne
  | some deadline =>
      have hselect : EarliestDeadlineFirst.selectNode now job view = _ :=
        EarliestDeadlineFirst.selectNode_of_deadline hdeadline view.nodes
      rw [hselect]
      exact Selection.selectBy_cases hne

/-- A view with an eligible node is not empty. -/
theorem nodes_ne_nil (hsome : AffinityRouting.eligible job view.nodes ≠ []) : view.nodes ≠ [] := by
  intro hnil
  rw [hnil] at hsome
  exact hsome rfl

/-- Round robin on a view that is not empty. -/
theorem roundRobin_answer (mCursor : Nat) (hne : view.nodes ≠ []) :
    (roundRobin mCursor).answer D mCostModel now job view =
      RoundRobin.searchFrom job view.nodes (mCursor % view.nodes.length) := by
  show (RoundRobin.selectNode mCursor job view).1 = _
  rw [RoundRobin.selectNode, if_neg (by simpa using hne)]

/-- Every policy reports that no node is eligible when none accepts the job. -/
theorem leaf_of_ineligible [FloatValue D] [FloatValue F] (hne : view.nodes ≠ [])
    (hnone : AffinityRouting.eligible job view.nodes = []) {p : Policy F}
    (hleaf : ∀ ps, p ≠ composite ps) :
    p.answer D mCostModel now job view = .error .noneEligible := by
  cases p with
  | composite ps => exact absurd rfl (hleaf ps)
  | affinityRouting =>
      cases h : affinityRouting.answer D mCostModel now job view with
      | error e => rw [AffinityRouting.selectNode_eq_error h]
      | ok n =>
          obtain ⟨m, hm, -⟩ := affinityRouting_answers_iff.mp ⟨n, h⟩
          rw [hnone] at hm
          cases hm
  | leastLoaded => exact (Selection.selectBy_cases hne).1 hnone
  | shortestJobFirst => exact (Selection.selectBy_cases hne).1 hnone
  | weightedCapacity mWeights => exact (Selection.selectBy_cases hne).1 hnone
  | earliestDeadlineFirst => exact (deadline_answer hne).1 hnone
  | roundRobin mCursor =>
      rw [roundRobin_answer mCursor hne]
      cases h : RoundRobin.searchFrom job view.nodes (mCursor % view.nodes.length) with
      | ok n => exact absurd hnone (RoundRobin.searchFrom_ok_iff.mp ⟨n, h⟩)
      | error e => rw [RoundRobin.searchFrom_eq_error h]
  | workStealing mStealThreshold =>
      show WorkStealing.selectNode D mStealThreshold job view = _
      cases h : WorkStealing.selectNode D mStealThreshold job view with
      | error e => rw [WorkStealing.selectNode_eq_error D h]
      | ok n =>
          obtain ⟨e, he, -⟩ := (WorkStealing.selectNode_eq_ok_iff ..).mp h
          have hmem := he.mem
          rw [hnone] at hmem
          cases hmem

/-- Every policy but two selects a node when one accepts the job. -/
theorem leaf_of_eligible (hsome : AffinityRouting.eligible job view.nodes ≠ []) {p : Policy F}
    (hleaf : ∀ ps, p ≠ composite ps) (haffinity : p ≠ .affinityRouting)
    (hstealing : ∀ mStealThreshold, p ≠ .workStealing mStealThreshold) :
    ∃ n, p.answer D mCostModel now job view = .ok n := by
  have hne := nodes_ne_nil hsome
  cases p with
  | composite ps => exact absurd rfl (hleaf ps)
  | affinityRouting => exact absurd rfl haffinity
  | workStealing mStealThreshold => exact absurd rfl (hstealing mStealThreshold)
  | leastLoaded => exact (Selection.selectBy_cases hne).2 hsome
  | shortestJobFirst => exact (Selection.selectBy_cases hne).2 hsome
  | weightedCapacity mWeights => exact (Selection.selectBy_cases hne).2 hsome
  | earliestDeadlineFirst => exact (deadline_answer hne).2 hsome
  | roundRobin mCursor =>
      rw [roundRobin_answer mCursor hne]
      exact RoundRobin.searchFrom_ok_iff.mpr hsome

/-- Work stealing selects a node when one accepts the job and no identity is 0. -/
theorem stealing_of_eligible [FloatValue D] (hids : ∀ m ∈ view.nodes, m.nodeId ≠ 0)
    (hsome : AffinityRouting.eligible job view.nodes ≠ []) (mStealThreshold : Nat) :
    ∃ n, (workStealing mStealThreshold).answer D mCostModel now job view = .ok n := by
  show ∃ n, WorkStealing.selectNode D mStealThreshold job view = .ok n
  obtain ⟨w, hw⟩ := SentinelScan.exists_first (WorkStealing.key D mStealThreshold view job) hsome
  have hset : ¬WorkStealing.LooksUnset w := hids w (Selection.mem_eligible.mp hw.mem).1
  exact ⟨w.nodeId, (WorkStealing.selectNode_eq_ok_iff ..).mpr ⟨w, .first hw hset, rfl⟩⟩

variable [FloatValue D] [FloatValue F]

/-- Nodes, but none that accepts the job. -/
theorem answer_of_ineligible (hne : view.nodes ≠ [])
    (hnone : AffinityRouting.eligible job view.nodes = []) {p : Policy F} (hp : p.Chained) :
    p.answer D mCostModel now job view = .error .noneEligible := by
  induction hp with
  | leaf hleaf => exact leaf_of_ineligible hne hnone hleaf
  | @chain ps hps _ ih =>
      obtain ⟨q, hq⟩ := List.exists_mem_of_ne_nil ps hps
      rw [composite_eq_error hps fun q hq => ⟨_, ih q hq⟩, if_pos ⟨q, hq, ih q hq⟩]

/-- A node accepts the job: only chains of affinity routing alone can miss it. -/
theorem answers_iff (hids : ∀ m ∈ view.nodes, m.nodeId ≠ 0)
    (hsome : AffinityRouting.eligible job view.nodes ≠ []) {p : Policy F} (hp : p.Chained) :
    (∃ n, p.answer D mCostModel now job view = .ok n) ↔
      p.Sure ∨ AffinitySees mCostModel job view := by
  induction hp with
  | @leaf p hleaf =>
      rcases leaf_cases hleaf with rfl | ⟨mStealThreshold, rfl⟩ | ⟨haffinity, hstealing⟩
      · rw [affinityRouting_answers_iff, or_iff_right]
        intro hsure
        cases hsure with
        | leaf _ hother => exact hother rfl
      · have hsure : (workStealing mStealThreshold).Sure := .leaf hleaf nofun
        exact iff_of_true (stealing_of_eligible hids hsome mStealThreshold) (.inl hsure)
      · have hsure : p.Sure := .leaf hleaf haffinity
        exact iff_of_true (leaf_of_eligible hsome hleaf haffinity hstealing) (.inl hsure)
  | @chain ps hps _ ih =>
      simp only [composite_eq_ok_iff hps, exists_firstAnswer_iff, sure_composite_iff]
      constructor
      · rintro ⟨q, hq, hn⟩
        exact ((ih q hq).mp hn).imp_left fun hsure => ⟨q, hq, hsure⟩
      · rintro (⟨q, hq, hsure⟩ | hsees)
        · exact ⟨q, hq, (ih q hq).mpr (.inl hsure)⟩
        · obtain ⟨q, hq⟩ := List.exists_mem_of_ne_nil ps hps
          exact ⟨q, hq, (ih q hq).mpr (.inr hsees)⟩

/-- Nothing is selected when no node accepts the job. -/
theorem exists_error_of_ineligible (hnone : AffinityRouting.eligible job view.nodes = [])
    (p : Policy F) : ∃ e, p.answer D mCostModel now job view = .error e := by
  rcases eq_or_ne view.nodes [] with hview | hview
  · by_cases hblind : p.Blind
    · exact ⟨_, (answer_of_empty hview p).1 hblind⟩
    · exact ⟨_, (answer_of_empty hview p).2 hblind⟩
  · induction p using Policy.induct with
    | leaf p hleaf => exact ⟨_, leaf_of_ineligible hview hnone hleaf⟩
    | chain ps ih =>
        rcases eq_or_ne ps [] with rfl | hne
        · exact ⟨_, rfl⟩
        · exact ⟨_, composite_eq_error hne ih⟩

/-- The only error on a view with nodes. -/
theorem error_of_nodes (hview : view.nodes ≠ []) {p : Policy F} (hp : p.Chained) {e : SelectError}
    (h : p.answer D mCostModel now job view = .error e) : e = .noneEligible := by
  induction hp generalizing e with
  | @leaf p hleaf =>
      by_cases hnone : AffinityRouting.eligible job view.nodes = []
      · rw [leaf_of_ineligible hview hnone hleaf] at h
        exact (Except.error.inj h).symm
      · rcases leaf_cases hleaf with rfl | ⟨mStealThreshold, rfl⟩ | ⟨haffinity, hstealing⟩
        · exact AffinityRouting.selectNode_eq_error h
        · exact WorkStealing.selectNode_eq_error D h
        · have hanswers : ∃ n, p.answer D mCostModel now job view = .ok n :=
            leaf_of_eligible hnone hleaf haffinity hstealing
          obtain ⟨n, hn⟩ := hanswers
          rw [hn] at h
          cases h
  | @chain ps hps _ ih =>
      have herrors : ∀ q ∈ ps, ∃ e, q.answer D mCostModel now job view = .error e := by
        intro q hq
        cases hanswer : q.answer D mCostModel now job view with
        | error e => exact ⟨e, rfl⟩
        | ok n =>
            obtain ⟨n, hn⟩ := exists_firstAnswer_iff.mpr ⟨q, hq, n, hanswer⟩
            rw [← composite_eq_ok_iff hps, h] at hn
            cases hn
      obtain ⟨q, hq⟩ := List.exists_mem_of_ne_nil ps hps
      obtain ⟨e', he'⟩ := herrors q hq
      obtain rfl := ih q hq he'
      rw [composite_eq_error hps herrors, if_pos ⟨q, hq, he'⟩] at h
      exact (Except.error.inj h).symm

end

/-! ## What the factory builds

The children of a factory-built composite are leaves and composites of leaves, and a chain of names
is never empty. -/

/-- A policy that `makePolicy` has built, after any calls, or a composite of such policies. -/
inductive Built (D : Type v) [FloatOps D] [FloatOps F] : Policy F → Prop
  | made (name : String) (costModel : Bool) (cfg : CompositePolicyConfig) :
      Built D ((makePolicy name costModel cfg).construct F)
  | called {p : Policy F} (mCostModel : CostModel F) (now : TimePoint) (job : Job)
      (view : ClusterView F) (hp : Built D p) :
      Built D (p.selectNode D mCostModel now job view).2
  | composite {ps : List (Policy F)} (hne : ps ≠ []) (hps : ∀ q ∈ ps, Built D q) :
      Built D (composite ps)

/-- Construction goes child by child. -/
theorem mem_constructAll {ps : List SchedulingPolicy} {q : Policy F} :
    q ∈ SchedulingPolicy.constructAll F ps ↔ ∃ p ∈ ps, p.construct F = q := by
  induction ps with
  | nil => simp [SchedulingPolicy.constructAll]
  | cons p ps ih => simp [SchedulingPolicy.constructAll, ih, eq_comm]

/-- What is no composite has nothing inside. -/
theorem chained_roundRobin : (SchedulingPolicy.roundRobin.construct F).Chained := by
  show (roundRobin 0).Chained
  exact .leaf nofun

/-- A composite of chained children is chained, and there is no other kind. -/
theorem chained_makeNamed {composite : SchedulingPolicy}
    (hcomposite : (composite.construct F).Chained) (costModel : Bool) (name : String) :
    ((makeNamed composite costModel name).construct F).Chained := by
  have hleaf : ∀ p : SchedulingPolicy, (∀ ps, p.construct F ≠ .composite ps) →
      (p.construct F).Chained := fun p h => .leaf h
  unfold makeNamed
  split_ifs
  · exact hleaf _ nofun
  · exact hleaf _ nofun
  · exact hleaf _ nofun
  · exact hcomposite
  · exact hleaf _ nofun
  · exact hleaf _ nofun
  · exact hleaf _ nofun
  · exact hleaf _ nofun

/-- A composite the factory makes has the children it was given. -/
theorem chained_makeComposite {ps : List SchedulingPolicy} (hps : ∀ p ∈ ps, (p.construct F).Chained) :
    ((makeComposite ps).construct F).Chained := by
  cases ps with
  | nil => exact chained_roundRobin
  | cons p ps =>
      show (Policy.composite (p.construct F :: SchedulingPolicy.constructAll F ps)).Chained
      refine .chain (by simp) (List.forall_mem_cons.mpr ⟨hps p (by simp), fun q hq => ?_⟩)
      obtain ⟨p', hp', rfl⟩ := mem_constructAll.mp hq
      exact hps p' (List.mem_cons_of_mem _ hp')

/-- Whatever the name, the factory builds no childless composite from a chain that is not empty. -/
theorem chained_makePolicy (name : String) (costModel : Bool) (cfg : CompositePolicyConfig) :
    ((makePolicy name costModel cfg).construct F).Chained := by
  unfold makePolicy
  apply chained_makeNamed
  apply chained_makeComposite
  intro p hp
  obtain ⟨child, -, rfl⟩ := List.mem_map.mp hp
  apply chained_makeNamed
  apply chained_makeComposite
  intro p hp
  obtain ⟨child, -, rfl⟩ := List.mem_map.mp hp
  exact chained_makeNamed (chained_roundRobin) costModel child

section

variable (D : Type v) [FloatOps D] [FloatOps F]

/-- Asking the children loses none of them. -/
theorem selectFirst_ne_nil (mCostModel : CostModel F) (now : TimePoint) (job : Job)
    (view : ClusterView F) {anyPolicySawNodes : Bool} {ps : List (Policy F)} (hne : ps ≠ []) :
    (selectFirst D mCostModel now job view anyPolicySawNodes ps).2 ≠ [] := by
  cases ps with
  | nil => exact absurd rfl hne
  | cons p ps =>
      rw [selectFirst]
      split
      · exact List.cons_ne_nil _ _
      · exact List.cons_ne_nil _ _

/-- Each child after the call is a child of before, called or not. -/
theorem mem_selectFirst {mCostModel : CostModel F} {now : TimePoint} {job : Job}
    {view : ClusterView F} {anyPolicySawNodes : Bool} {ps : List (Policy F)} {q : Policy F}
    (hq : q ∈ (selectFirst D mCostModel now job view anyPolicySawNodes ps).2) :
    q ∈ ps ∨ ∃ p ∈ ps, q = (p.selectNode D mCostModel now job view).2 := by
  induction ps generalizing anyPolicySawNodes with
  | nil => simp [selectFirst] at hq
  | cons p ps ih =>
      rw [selectFirst] at hq
      split at hq
      · rcases List.mem_cons.mp hq with rfl | hq
        · exact .inr ⟨p, by simp, rfl⟩
        · exact .inl (List.mem_cons_of_mem _ hq)
      · rcases List.mem_cons.mp hq with rfl | hq
        · exact .inr ⟨p, by simp, rfl⟩
        · rcases ih hq with hmem | ⟨p', hp', rfl⟩
          · exact .inl (List.mem_cons_of_mem _ hmem)
          · exact .inr ⟨p', List.mem_cons_of_mem _ hp', rfl⟩

/-- A call moves cursors alone. -/
theorem Chained.called {p : Policy F} (hp : p.Chained) (mCostModel : CostModel F) (now : TimePoint)
    (job : Job) (view : ClusterView F) : (p.selectNode D mCostModel now job view).2.Chained := by
  induction hp with
  | @leaf p hleaf =>
      cases p with
      | composite ps => exact absurd rfl (hleaf ps)
      | _ => exact .leaf nofun
  | @chain ps hne hchildren ih =>
      rw [selectNode, if_neg (by simpa using hne)]
      refine .chain (selectFirst_ne_nil D mCostModel now job view hne) fun q hq => ?_
      rcases mem_selectFirst D hq with hmem | ⟨p, hp, rfl⟩
      · exact hchildren q hmem
      · exact ih p hp

/-- Blindness is no matter of the cursors. -/
theorem exists_blind_selectFirst_iff {mCostModel : CostModel F} {now : TimePoint} {job : Job}
    {view : ClusterView F} {anyPolicySawNodes : Bool} {ps : List (Policy F)}
    (h : ∀ p ∈ ps, (p.selectNode D mCostModel now job view).2.Blind ↔ p.Blind) :
    (∃ q ∈ (selectFirst D mCostModel now job view anyPolicySawNodes ps).2, q.Blind) ↔
      ∃ q ∈ ps, q.Blind := by
  induction ps generalizing anyPolicySawNodes with
  | nil => simp [selectFirst]
  | cons p ps ih =>
      obtain ⟨hp, hps⟩ := List.forall_mem_cons.mp h
      rw [selectFirst]
      split
      · simp [hp]
      · simp [hp, ih hps]

/-- Whether a policy inside tests the view stays as it was built. -/
theorem blind_called_iff (mCostModel : CostModel F) (now : TimePoint) (job : Job)
    (view : ClusterView F) (p : Policy F) :
    (p.selectNode D mCostModel now job view).2.Blind ↔ p.Blind := by
  induction p using Policy.induct with
  | leaf p hleaf =>
      cases p with
      | composite ps => exact absurd rfl (hleaf ps)
      | roundRobin mCursor => exact iff_of_false nofun nofun
      | _ => exact Iff.rfl
  | chain ps ih =>
      rw [selectNode]
      split
      · exact Iff.rfl
      · rw [blind_composite_iff, blind_composite_iff]
        exact exists_blind_selectFirst_iff D ih

end

/-- What the factory builds has children all the way down. -/
theorem Built.chained {D : Type v} [FloatOps D] [FloatOps F] {p : Policy F} (hp : p.Built D) :
    p.Chained := by
  induction hp with
  | made name costModel cfg => exact chained_makePolicy name costModel cfg
  | called mCostModel now job view _ ih => exact ih.called D mCostModel now job view
  | composite hne _ ih => exact .chain hne ih

/-! ## When a composite reports rightly

The two things it promises, and the condition on its children and the view under which it keeps
them. -/

/-- What a composite promises: the first answer of a child whenever a node accepts the job, and the
error that fits the view otherwise. -/
structure ReportsRightly (D : Type v) [FloatOps D] [FloatOps F] (mCostModel : CostModel F)
    (now : TimePoint) (job : Job) (view : ClusterView F) (children : List (Policy F)) : Prop where
  succeeds_iff : (∃ n, (composite children).answer D mCostModel now job view = .ok n) ↔
    ∃ m ∈ view.nodes, nodeAcceptsPriority m.state job.priority = true
  ok_iff : ∀ n, (composite children).answer D mCostModel now job view = .ok n ↔
    FirstAnswer D mCostModel now job view children n
  noNodes_iff : (composite children).answer D mCostModel now job view = .error .noNodes ↔
    view.nodes = []
  noneEligible_iff : (composite children).answer D mCostModel now job view = .error .noneEligible ↔
    view.nodes ≠ [] ∧ ∀ m ∈ view.nodes, nodeAcceptsPriority m.state job.priority = false

section

variable {D : Type v} [FloatOps D] [FloatOps F] {mCostModel : CostModel F}
  {now : TimePoint} {job : Job} {view : ClusterView F}
  {children : List (Policy F)}

/-- Some node accepts the job when the list of eligible ones is not empty. -/
theorem exists_accepting_iff :
    (∃ m ∈ view.nodes, nodeAcceptsPriority m.state job.priority = true) ↔
      AffinityRouting.eligible job view.nodes ≠ [] := by
  rw [ne_eq, Selection.eligible_eq_nil_iff]
  simp

/-- An answer that fits the view: a node, no nodes, or none that is eligible. -/
theorem reportsRightly_of_answer (hne : children ≠ [])
    (hempty : view.nodes = [] →
      (composite children).answer D mCostModel now job view = .error .noNodes)
    (hnone : view.nodes ≠ [] → AffinityRouting.eligible job view.nodes = [] →
      (composite children).answer D mCostModel now job view = .error .noneEligible)
    (hsome : AffinityRouting.eligible job view.nodes ≠ [] →
      ∃ n, (composite children).answer D mCostModel now job view = .ok n) :
    ReportsRightly D mCostModel now job view children := by
  have hok : ∀ n, (composite children).answer D mCostModel now job view = .ok n ↔
      FirstAnswer D mCostModel now job view children n := fun n => composite_eq_ok_iff hne
  rcases eq_or_ne view.nodes [] with hview | hview
  · have hanswer := hempty hview
    refine ⟨?_, hok, ?_, ?_⟩
    · rw [hanswer, hview]
      simp
    · exact iff_of_true hanswer hview
    · rw [hanswer]
      exact iff_of_false (by simp) fun h => h.1 hview
  · rcases eq_or_ne (AffinityRouting.eligible job view.nodes) [] with helig | helig
    · have hanswer := hnone hview helig
      refine ⟨?_, hok, ?_, ?_⟩
      · rw [hanswer, exists_accepting_iff]
        exact iff_of_false (by simp) fun h => h helig
      · rw [hanswer]
        exact iff_of_false (by simp) hview
      · exact iff_of_true hanswer ⟨hview, Selection.eligible_eq_nil_iff.mp helig⟩
    · obtain ⟨n, hn⟩ := hsome helig
      refine ⟨?_, hok, ?_, ?_⟩
      · exact iff_of_true ⟨n, hn⟩ (exists_accepting_iff.mpr helig)
      · rw [hn]
        exact iff_of_false (by simp) hview
      · rw [hn]
        exact iff_of_false (by simp) fun h => helig (Selection.eligible_eq_nil_iff.mpr h.2)

end

/-- **A composite reports rightly when every child tests for an empty view, and some child is sure to
select a node or affinity routing sees one.** -/
theorem composite_reportsRightly_iff (D : Type v) [FloatOps D] [FloatValue D] [FloatOps F]
    [FloatValue F] (mCostModel : CostModel F) (now : TimePoint) (job : Job)
    (view : ClusterView F) {children : List (Policy F)} (hne : children ≠ [])
    (hbuilt : ∀ c ∈ children, c.Built D) (hids : ∀ m ∈ view.nodes, m.nodeId ≠ 0) :
    ReportsRightly D mCostModel now job view children ↔
      (view.nodes = [] → ∀ c ∈ children, ¬c.Blind) ∧
      ((∃ m ∈ view.nodes, nodeAcceptsPriority m.state job.priority = true) →
        (∃ c ∈ children, c.Sure) ∨ AffinitySees mCostModel job view) := by
  have hchained : (composite children).Chained := .chain hne fun c hc => (hbuilt c hc).chained
  rw [exists_accepting_iff]
  constructor
  · intro h
    constructor
    · intro hview c hc hblind
      have hanswer : (composite children).answer D mCostModel now job view = .error .noneEligible :=
        (answer_of_empty hview (composite children)).1 (.child hc hblind)
      rw [h.noNodes_iff.mpr hview] at hanswer
      cases hanswer
    · intro hsome
      have hanswers := h.succeeds_iff.mpr (exists_accepting_iff.mpr hsome)
      rwa [answers_iff hids hsome hchained, sure_composite_iff] at hanswers
  · rintro ⟨hblind, hsure⟩
    apply reportsRightly_of_answer hne
    · intro hview
      apply (answer_of_empty hview _).2
      rw [blind_composite_iff]
      rintro ⟨c, hc, h⟩
      exact hblind hview c hc h
    · intro hview hnone
      exact answer_of_ineligible hview hnone hchained
    · intro hsome
      rw [answers_iff hids hsome hchained, sure_composite_iff]
      exact hsure hsome

/-- The model after one job on each of three nodes, so much cheaper than estimated that every score
of affinity routing is past `FLT_MAX` for a job with the greatest estimate. -/
def cheapNodes : CostModel Float32 :=
  .trained { affinity := { alpha := FloatOps.lit 1, warmThreshold := 1 } }
    [{ estimatedCost := 2 ^ 64 - 1, observedCost := 1, executedBy := 0 },
     { estimatedCost := 2 ^ 64 - 1, observedCost := 1, executedBy := 1 },
     { estimatedCost := 2 ^ 64 - 1, observedCost := 1, executedBy := 2 }] true

/-- Affinity routing misses, alone and first in an inner chain, which goes on to the least loaded. -/
theorem composite_reportsRightly_iff_nested :
    affinityRouting.answer Float cheapNodes 0 { estimatedCost := 2 ^ 64 - 1 }
        ⟨[AffinityRouting.idleNode 1 0], cheapNodes⟩ = .error .noneEligible ∧
      ReportsRightly Float cheapNodes 0 { estimatedCost := 2 ^ 64 - 1 }
        ⟨[AffinityRouting.idleNode 1 0], cheapNodes⟩
        [(makePolicy kPolicyAffinity true).construct Float32,
          composite [(makePolicy kPolicyAffinity true).construct Float32,
            (makePolicy kPolicyLeastLoaded).construct Float32]] := by
  have haffinity : Built Float ((makePolicy kPolicyAffinity true).construct Float32) :=
    .made kPolicyAffinity true {}
  have hleast : Built Float ((makePolicy kPolicyLeastLoaded).construct Float32) :=
    .made kPolicyLeastLoaded false {}
  have hsure : ((makePolicy kPolicyLeastLoaded).construct Float32).Sure := by
    have hmade : (makePolicy kPolicyLeastLoaded).construct Float32 = .leastLoaded := rfl
    rw [hmade]
    exact .leaf nofun nofun
  refine ⟨by decide +kernel, ?_⟩
  apply (composite_reportsRightly_iff Float cheapNodes 0 { estimatedCost := 2 ^ 64 - 1 }
    ⟨[AffinityRouting.idleNode 1 0], cheapNodes⟩ (by simp) _ (by decide)).mpr
  · refine ⟨nofun, fun _ => .inl ⟨_, List.mem_cons_of_mem _ List.mem_cons_self, ?_⟩⟩
    exact .child (List.mem_cons_of_mem _ List.mem_cons_self) hsure
  · intro c hc
    rcases List.mem_pair.mp hc with rfl | rfl
    · exact haffinity
    · refine .composite (by simp) fun q hq => ?_
      rcases List.mem_pair.mp hq with rfl | rfl
      · exact haffinity
      · exact hleast

/-- **An empty cluster is reported as ineligible nodes.**  The work-stealing child does not test for
it. -/
theorem empty_cluster_misreported :
    (composite [(makePolicy kPolicyWorkStealing).construct Float32]).answer Float
        (.create {}) 0 {} ⟨[], .create {}⟩ = .error .noneEligible ∧
      ¬ReportsRightly Float (.create ({} : CostModelConfig Float32)) 0 {} ⟨[], .create {}⟩
        [(makePolicy kPolicyWorkStealing).construct Float32] := by
  have hanswer : (composite [(makePolicy kPolicyWorkStealing).construct Float32]).answer Float
      (.create {}) 0 {} ⟨[], .create {}⟩ = .error .noneEligible := rfl
  refine ⟨hanswer, fun h => ?_⟩
  have hno := h.noNodes_iff.mpr rfl
  rw [hanswer] at hno
  cases hno

end Policy

end FatpBalancer
