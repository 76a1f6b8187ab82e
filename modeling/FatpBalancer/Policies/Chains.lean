/-
# The chain of a composite

What the entries of a chain denote, and what the factory makes of them.  Three of the documented
entries are names that the factory does not know, and it makes round robin of them; the policies that
come before them in the chain decide whether a caller can tell.

`readKind` is a documented entry as the factory reads it.  A composite of what is denoted and one of
what is built are compared call by call: `Shadows` relates two lists of children of which every call
is answered alike, and keeps doing so after the call, which moves the cursors of some of them.

The condition on names is found from two sides.  Where both chains come to the same policies,
`consulted`, they answer alike; where they do not, a call on a view of two nodes tells them apart,
on which round robin selects the worse one and every other policy the better one.
-/
import FatpBalancer.Lib.Answers
import FatpBalancer.Policies.Composite

namespace FatpBalancer

/-! ## The documented entries

Plain names, and the same with the prefix of a feature. -/

inductive PolicyKind
  | roundRobin
  | leastLoaded
  | workStealing
  | affinityRouting
  | composite
  | shortestJobFirst
  | weightedCapacity
  | earliestDeadlineFirst
  deriving DecidableEq, Repr

/-- The policy of a kind; `second` is the second child of a composite with the default chain. -/
def PolicyKind.policy (second : SchedulingPolicy) : PolicyKind → SchedulingPolicy
  | .roundRobin => .roundRobin
  | .leastLoaded => .leastLoaded
  | .workStealing => .workStealing
  | .affinityRouting => .affinityRouting
  | .composite => .composite [.earliestDeadlineFirst, second]
  | .shortestJobFirst => .shortestJobFirst
  | .weightedCapacity => .weightedCapacity
  | .earliestDeadlineFirst => .earliestDeadlineFirst

/-- What the factory makes of the kind. -/
def PolicyKind.built (k : PolicyKind) : Policy Float32 :=
  (k.policy .roundRobin).construct Float32

/-- What the documentation says it is. -/
def PolicyKind.denoted (k : PolicyKind) : Policy Float32 :=
  (k.policy .leastLoaded).construct Float32

/-- The entries `CompositePolicyConfig` documents, and what they name: the plain names first, then
the feature names. -/
def documentedNames : List (String × PolicyKind) :=
  [("round_robin", .roundRobin), ("least_loaded", .leastLoaded), ("work_stealing", .workStealing),
    ("affinity_routing", .affinityRouting), ("earliest_deadline_first", .earliestDeadlineFirst),
    ("shortest_job_first", .shortestJobFirst), ("weighted_capacity", .weightedCapacity),
    (kPolicyRoundRobin, .roundRobin), (kPolicyLeastLoaded, .leastLoaded),
    (kPolicyAffinity, .affinityRouting), (kPolicyWorkStealing, .workStealing),
    (kPolicyComposite, .composite)]

/-- The kind a documented entry denotes. -/
def denotedKind (name : String) : PolicyKind := (documentedNames.lookup name).getD .roundRobin

/-- The entries the factory does not know. -/
def unknownNames : List String := ["least_loaded", "work_stealing", "affinity_routing"]

/-- The chain with `"round_robin"` for what the factory does not know. -/
def readKind (name : String) : PolicyKind :=
  if name ∈ unknownNames then .roundRobin else denotedKind name

/-- The composite a chain denotes, the default chain of a composite in it included. -/
def denotedComposite (chain : List String) : Policy Float32 :=
  .composite (chain.map fun name => (denotedKind name).denoted)

theorem makePolicy_documented {name : String} (hname : name ∈ documentedNames.map Prod.fst) :
    makePolicy name true = (readKind name).policy .roundRobin := by
  simp only [documentedNames, List.map_cons, List.map_nil, List.mem_cons, List.not_mem_nil,
    or_false] at hname
  rcases hname with h | h | h | h | h | h | h | h | h | h | h | h <;> subst h <;> rfl

/-- What the factory makes of a chain. -/
theorem makePolicy_chain {chain : List String} (hne : chain ≠ [])
    (hvalid : ∀ name ∈ chain, name ∈ documentedNames.map Prod.fst) :
    (makePolicy kPolicyComposite true { chain := chain }).construct Float32 =
      .composite (chain.map fun name => (readKind name).built) := by
  have hconstructAll : ∀ ps : List SchedulingPolicy,
      SchedulingPolicy.constructAll Float32 ps = ps.map (SchedulingPolicy.construct Float32) := by
    intro ps
    induction ps with
    | nil => rfl
    | cons p ps ih => rw [SchedulingPolicy.constructAll, ih, List.map_cons]
  have hmap : (chain.map fun child => makePolicy child true) =
      chain.map fun name => (readKind name).policy .roundRobin :=
    List.map_congr_left fun name hname => makePolicy_documented (hvalid name hname)
  rw [makePolicy_eq]
  show (makeNamed (makeComposite (chain.map fun child => makePolicy child true)) true
    kPolicyComposite).construct Float32 = _
  rw [hmap]
  cases chain with
  | nil => exact absurd rfl hne
  | cons name chain =>
      show Policy.composite (SchedulingPolicy.constructAll Float32
        ((name :: chain).map fun name => (readKind name).policy .roundRobin)) = _
      rw [hconstructAll, List.map_map]
      rfl

namespace Policy

/-! ## Composites that answer alike

A child that misses is asked again at the next call, and one that never misses ends every call. -/

/-- A call with all that `selectNode` reads. -/
structure SelectCall where
  mCostModel : CostModel Float32
  now : TimePoint
  job : Job
  view : ClusterView Float32

def step (p : Policy Float32) (c : SelectCall) : Except SelectError NodeId × Policy Float32 :=
  p.selectNode Float c.mCostModel c.now c.job c.view

/-- The policy has no state to change. -/
def Stateless (p : Policy Float32) : Prop := ∀ c, (p.step c).2 = p

/-- The policy selects a node from whatever view has one that accepts the job. -/
inductive Total : Policy Float32 → Prop
  | leaf {p : Policy Float32} (hleaf : ∀ ps, p ≠ composite ps) (haffinity : p ≠ .affinityRouting)
      (hstealing : ∀ mStealThreshold, p ≠ .workStealing mStealThreshold) : Total p
  | head {p : Policy Float32} {ps : List (Policy Float32)} (hp : Total p) :
      Total (composite (p :: ps))

/-- A total policy fails on no view with a node that accepts the job. -/
theorem Total.answers {p : Policy Float32} (hp : p.Total) {c : SelectCall}
    (hsome : AffinityRouting.eligible c.job c.view.nodes ≠ []) : ∃ n, (p.step c).1 = .ok n := by
  induction hp with
  | leaf hleaf haffinity hstealing => exact leaf_of_eligible hsome hleaf haffinity hstealing
  | @head p ps _ ih =>
      obtain ⟨n, hn⟩ := ih
      have hfirst := (composite_eq_ok_iff (List.cons_ne_nil p ps)).mpr
        ⟨[], p, ps, rfl, List.forall_mem_nil _, hn⟩
      exact ⟨n, hfirst⟩

/-- It stays total: a call changes no more than cursors. -/
theorem Total.next {p : Policy Float32} (hp : p.Total) (c : SelectCall) : (p.step c).2.Total := by
  induction hp with
  | @leaf p hleaf haffinity hstealing =>
      cases p with
      | composite ps => exact absurd rfl (hleaf ps)
      | affinityRouting => exact absurd rfl haffinity
      | workStealing mStealThreshold => exact absurd rfl (hstealing mStealThreshold)
      | _ => exact .leaf nofun nofun nofun
  | @head p ps _ ih =>
      rw [step, selectNode, if_neg (by simp), selectFirst]
      split
      · exact .head ih
      · exact .head ih

/-- **Two chains of which every call is answered alike.**  The policies in `missed` have failed the
call already, and what follows two total policies is not reached by a call they do not fail. -/
inductive Shadows : List (Policy Float32) → List (Policy Float32) → List (Policy Float32) → Prop
  | nil {missed : List (Policy Float32)} : Shadows missed [] []
  | both {missed : List (Policy Float32)} {p : Policy Float32} {ps qs : List (Policy Float32)}
      (hp : p.Stateless) (h : Shadows (p :: missed) ps qs) : Shadows missed (p :: ps) (p :: qs)
  | left {missed : List (Policy Float32)} {p : Policy Float32} {ps qs : List (Policy Float32)}
      (hp : p.Stateless) (hmissed : p ∈ missed) (h : Shadows missed ps qs) : Shadows missed (p :: ps) qs
  | right {missed : List (Policy Float32)} {q : Policy Float32} {ps qs : List (Policy Float32)}
      (hq : q.Stateless) (hmissed : q ∈ missed) (h : Shadows missed ps qs) : Shadows missed ps (q :: qs)
  | done {missed : List (Policy Float32)} {p q : Policy Float32} {ps qs : List (Policy Float32)}
      (halike : Answers.Alike step p q) (htotal : p.Total) (htotal' : q.Total) :
      Shadows missed (p :: ps) (q :: qs)

section

variable {c : SelectCall}

/-- `selectFirst` with the call as one argument. -/
def first (c : SelectCall) (anyPolicySawNodes : Bool) (ps : List (Policy Float32)) :
    Except SelectError NodeId × List (Policy Float32) :=
  selectFirst Float c.mCostModel c.now c.job c.view anyPolicySawNodes ps

/-- The loop ends with an answer of its first child. -/
theorem first_of_ok {anyPolicySawNodes : Bool} {p : Policy Float32} {ps : List (Policy Float32)}
    {n : NodeId} (h : (p.step c).1 = .ok n) :
    first c anyPolicySawNodes (p :: ps) = (.ok n, (p.step c).2 :: ps) := by
  have hp : (p.selectNode Float c.mCostModel c.now c.job c.view).1 = .ok n := h
  rw [first, selectFirst, hp]
  rfl

/-- It goes on past an error. -/
theorem first_of_error {anyPolicySawNodes : Bool} {p : Policy Float32} {ps : List (Policy Float32)}
    {e : SelectError} (h : (p.step c).1 = .error e) :
    first c anyPolicySawNodes (p :: ps) =
      ((first c (anyPolicySawNodes || e = .noneEligible) ps).1,
        (p.step c).2 :: (first c (anyPolicySawNodes || e = .noneEligible) ps).2) := by
  have hp : (p.selectNode Float c.mCostModel c.now c.job c.view).1 = .error e := h
  rw [first, selectFirst, hp]
  rfl

/-- Nothing is found where no node accepts the job. -/
theorem first_of_ineligible (hnone : AffinityRouting.eligible c.job c.view.nodes = [])
    {anyPolicySawNodes : Bool} {ps : List (Policy Float32)} {n : NodeId} :
    (first c anyPolicySawNodes ps).1 ≠ .ok n := by
  intro h
  obtain ⟨before, p, after, -, -, hp⟩ := selectFirst_eq_ok_iff.mp h
  obtain ⟨e, he⟩ : ∃ e, p.answer Float c.mCostModel c.now c.job c.view = .error e :=
    exists_error_of_ineligible hnone p
  rw [hp] at he
  cases he

/-- The chain after a call still begins with the child it began with. -/
theorem first_cons (c : SelectCall) (anyPolicySawNodes : Bool) (p : Policy Float32)
    (ps : List (Policy Float32)) :
    ∃ ps', (first c anyPolicySawNodes (p :: ps)).2 = (p.step c).2 :: ps' := by
  cases h : (p.step c).1 with
  | ok n => exact ⟨ps, by rw [first_of_ok h]⟩
  | error e => exact ⟨_, by rw [first_of_error h]⟩

/-- A call finds the same in both chains and leaves them so. -/
theorem Shadows.call {missed ps qs : List (Policy Float32)} (h : Shadows missed ps qs)
    (hmissed : ∀ p ∈ missed, ∃ e, (p.step c).1 = .error e) (sawNodes sawNodes' : Bool) :
    (∀ n, (first c sawNodes ps).1 = .ok n ↔ (first c sawNodes' qs).1 = .ok n) ∧
      Shadows missed (first c sawNodes ps).2 (first c sawNodes' qs).2 := by
  induction h generalizing sawNodes sawNodes' with
  | nil => exact ⟨fun n => iff_of_false nofun nofun, .nil⟩
  | @both missed p ps qs hp h ih =>
      -- the same policy on both sides: it answers both, or joins those that have missed
      cases hanswer : (p.step c).1 with
      | ok n =>
          rw [first_of_ok hanswer, first_of_ok hanswer, hp c]
          exact ⟨fun _ => Iff.rfl, .both hp h⟩
      | error e =>
          rw [first_of_error hanswer, first_of_error hanswer, hp c]
          have hstep := ih (List.forall_mem_cons.mpr ⟨⟨e, hanswer⟩, hmissed⟩)
            (sawNodes || e = .noneEligible) (sawNodes' || e = .noneEligible)
          exact ⟨hstep.1, .both hp hstep.2⟩
  | @left missed p ps qs hp hmem h ih =>
      -- it has missed this call already, and misses it again
      obtain ⟨e, he⟩ := hmissed p hmem
      have hstep := ih hmissed (sawNodes || e = .noneEligible) sawNodes'
      rw [first_of_error he, hp c]
      exact ⟨hstep.1, .left hp hmem hstep.2⟩
  | @right missed q ps qs hq hmem h ih =>
      obtain ⟨e, he⟩ := hmissed q hmem
      have hstep := ih hmissed sawNodes (sawNodes' || e = .noneEligible)
      rw [first_of_error he, hq c]
      exact ⟨hstep.1, .right hq hmem hstep.2⟩
  | @done missed p q ps qs halike htotal htotal' =>
      -- neither misses, so that what comes after them is never asked
      constructor
      · intro n
        by_cases hnone : AffinityRouting.eligible c.job c.view.nodes = []
        · exact iff_of_false (first_of_ineligible hnone) (first_of_ineligible hnone)
        · obtain ⟨m, hm⟩ := htotal.answers hnone
          have hm' : (q.step c).1 = .ok m := by rw [← halike.answer c, hm]
          rw [first_of_ok hm, first_of_ok hm']
      · obtain ⟨ps', hps⟩ := first_cons c sawNodes p ps
        obtain ⟨qs', hqs⟩ := first_cons c sawNodes' q qs
        rw [hps, hqs]
        exact .done (halike.next c) (htotal.next c) (htotal'.next c)

end

/-- On an empty view nothing matters but whether a policy inside tests for it. -/
theorem step_of_empty_iff {c : SelectCall} (hview : c.view.nodes = []) {p q : Policy Float32} :
    (p.step c).1 = (q.step c).1 ↔ (p.Blind ↔ q.Blind) := by
  have hanswer : ∀ r : Policy Float32, (r.Blind → (r.step c).1 = .error .noneEligible) ∧
      (¬r.Blind → (r.step c).1 = .error .noNodes) := fun r => answer_of_empty hview r
  by_cases hp : p.Blind
  · by_cases hq : q.Blind
    · exact iff_of_true (by rw [(hanswer p).1 hp, (hanswer q).1 hq]) (iff_of_true hp hq)
    · rw [(hanswer p).1 hp, (hanswer q).2 hq]
      exact iff_of_false nofun fun h => hq (h.mp hp)
  · by_cases hq : q.Blind
    · rw [(hanswer p).2 hp, (hanswer q).1 hq]
      exact iff_of_false nofun fun h => hp (h.mpr hq)
    · exact iff_of_true (by rw [(hanswer p).2 hp, (hanswer q).2 hq]) (iff_of_false hp hq)

/-- What makes two composites answer alike, the errors included. -/
structure Matched (ps qs : List (Policy Float32)) : Prop where
  ne_nil : ps ≠ []
  ne_nil' : qs ≠ []
  chained : ∀ p ∈ ps, p.Chained
  chained' : ∀ q ∈ qs, q.Chained
  blind_iff : (∃ p ∈ ps, p.Blind) ↔ ∃ q ∈ qs, q.Blind
  shadows : Shadows [] ps qs

theorem step_composite {ps : List (Policy Float32)} (hne : ps ≠ []) (c : SelectCall) :
    (composite ps).step c = ((first c false ps).1, composite (first c false ps).2) := by
  rw [step, selectNode, if_neg (by simpa using hne)]
  rfl

theorem chained_first {ps : List (Policy Float32)} (hps : ∀ p ∈ ps, p.Chained) (c : SelectCall)
    (sawNodes : Bool) : ∀ q ∈ (first c sawNodes ps).2, q.Chained := by
  intro q hq
  rcases mem_selectFirst Float hq with hmem | ⟨p, hp, rfl⟩
  · exact hps q hmem
  · exact (hps p hp).called Float c.mCostModel c.now c.job c.view

/-- A call leaves matched chains matched. -/
theorem Matched.call {ps qs : List (Policy Float32)} (h : Matched ps qs) (c : SelectCall) :
    Matched (first c false ps).2 (first c false qs).2 where
  ne_nil := selectFirst_ne_nil Float c.mCostModel c.now c.job c.view h.ne_nil
  ne_nil' := selectFirst_ne_nil Float c.mCostModel c.now c.job c.view h.ne_nil'
  chained := chained_first h.chained c false
  chained' := chained_first h.chained' c false
  blind_iff := by
    have hcalled : ∀ p : Policy Float32,
        (p.selectNode Float c.mCostModel c.now c.job c.view).2.Blind ↔ p.Blind :=
      blind_called_iff Float c.mCostModel c.now c.job c.view
    unfold first
    rw [exists_blind_selectFirst_iff Float fun p _ => hcalled p,
      exists_blind_selectFirst_iff Float fun p _ => hcalled p]
    exact h.blind_iff
  shadows := (h.shadows.call (List.forall_mem_nil _) false false).2

theorem Matched.composite_blind_iff {ps qs : List (Policy Float32)} (h : Matched ps qs) :
    (composite ps).Blind ↔ (composite qs).Blind := by
  rw [blind_composite_iff, blind_composite_iff]
  exact h.blind_iff

/-- Where neither finds a node the view decides between the errors. -/
theorem Matched.answer {ps qs : List (Policy Float32)} (h : Matched ps qs) (c : SelectCall) :
    ((composite ps).step c).1 = ((composite qs).step c).1 := by
  have hfound := (h.shadows.call (c := c) (List.forall_mem_nil _) false false).1
  have hchained : (composite ps).Chained := .chain h.ne_nil h.chained
  have hchained' : (composite qs).Chained := .chain h.ne_nil' h.chained'
  have hsame : ∀ n, ((composite ps).step c).1 = .ok n ↔ ((composite qs).step c).1 = .ok n := by
    intro n
    rw [step_composite h.ne_nil, step_composite h.ne_nil']
    exact hfound n
  cases hp : ((composite ps).step c).1 with
  | ok n => exact ((hsame n).mp hp).symm
  | error e =>
      cases hq : ((composite qs).step c).1 with
      | ok n =>
          rw [(hsame n).mpr hq] at hp
          cases hp
      | error e' =>
          congr 1
          by_cases hview : c.view.nodes = []
          · have hanswer := (step_of_empty_iff hview).mpr h.composite_blind_iff
            rw [hp, hq] at hanswer
            exact Except.error.inj hanswer
          · rw [error_of_nodes hview hchained hp, error_of_nodes hview hchained' hq]

/-- **Matched chains make composites that no calls tell apart.** -/
theorem Matched.alike {ps qs : List (Policy Float32)} (h : Matched ps qs) :
    Answers.Alike step (composite ps) (composite qs) := by
  have hsimulation : ∀ s t c,
      (∃ ps qs, s = composite ps ∧ t = composite qs ∧ Matched ps qs) →
      (step s c).1 = (step t c).1 ∧
        ∃ ps qs, (step s c).2 = composite ps ∧ (step t c).2 = composite qs ∧ Matched ps qs := by
    rintro _ _ c ⟨ps, qs, rfl, rfl, h⟩
    refine ⟨h.answer c, _, _, ?_, ?_, h.call c⟩
    · rw [step_composite h.ne_nil]
    · rw [step_composite h.ne_nil']
  exact Answers.alike_of_simulation hsimulation ⟨ps, qs, rfl, rfl, h⟩

end Policy

/-! ## What a call of a chain can come to

Most policies select whenever a node accepts the job; two may miss all the same. -/

namespace PolicyKind

open Policy (cheapNodes first SelectCall Shadows Matched)

/-- The policy can fail a job that some node accepts, and does not test for an empty view. -/
def mayMiss : PolicyKind → Bool
  | .workStealing => true
  | .affinityRouting => true
  | _ => false

/-- The policies a call can come to: none after one that does not miss, and none twice that has
missed already. -/
def consulted (missed : List PolicyKind) : List PolicyKind → List PolicyKind
  | [] => []
  | k :: ks =>
      if k.mayMiss then
        if k ∈ missed then consulted missed ks else k :: consulted (k :: missed) ks
      else [k]

theorem consulted_of_total {missed ks : List PolicyKind} {k : PolicyKind} (hk : k.mayMiss = false) :
    consulted missed (k :: ks) = [k] := by
  simp [consulted, hk]

theorem consulted_of_missed {missed ks : List PolicyKind} {k : PolicyKind} (hk : k.mayMiss = true)
    (hmissed : k ∈ missed) : consulted missed (k :: ks) = consulted missed ks := by
  simp [consulted, hk, hmissed]

theorem consulted_of_new {missed ks : List PolicyKind} {k : PolicyKind} (hk : k.mayMiss = true)
    (hnew : k ∉ missed) : consulted missed (k :: ks) = k :: consulted (k :: missed) ks := by
  simp [consulted, hk, hnew]

/-! ### The kinds

What is needed of each of them: whether it tests for an empty view, keeps a state, or may miss. -/

theorem denoted_eq_built {k : PolicyKind} (hk : k ≠ .composite) : k.denoted = k.built := by
  cases k with
  | composite => exact absurd rfl hk
  | _ => rfl

/-- A composite with the default chain, whatever its second child is. -/
theorem chained_default {q : Policy Float32} (hq : ∀ ps, q ≠ .composite ps) :
    (Policy.composite [.earliestDeadlineFirst, q]).Chained := by
  refine .chain (List.cons_ne_nil _ _) fun p hp => ?_
  rcases List.mem_pair.mp hp with rfl | rfl
  · apply Policy.Chained.leaf
    intro ps h
    cases h
  · exact .leaf hq

theorem not_blind_default {q : Policy Float32} (hq : ¬q.Blind) :
    ¬(Policy.composite [.earliestDeadlineFirst, q]).Blind := by
  rw [Policy.blind_composite_iff]
  rintro ⟨p, hp, hblind⟩
  rcases List.mem_pair.mp hp with rfl | rfl
  · cases hblind
  · exact hq hblind

theorem chained_built (k : PolicyKind) : k.built.Chained := by
  cases k with
  | composite => exact chained_default nofun
  | _ => exact .leaf nofun

theorem total_built {k : PolicyKind} (hk : k.mayMiss = false) : k.built.Total := by
  cases k with
  | workStealing => exact absurd hk (by decide)
  | affinityRouting => exact absurd hk (by decide)
  | composite => exact .head (.leaf nofun nofun nofun)
  | _ => exact .leaf nofun nofun nofun

theorem stateless_built {k : PolicyKind} (hk : k.mayMiss = true) : k.built.Stateless := by
  cases k with
  | workStealing => exact fun _ => rfl
  | affinityRouting => exact fun _ => rfl
  | _ => exact absurd hk (by decide)

theorem blind_built_iff (k : PolicyKind) : k.built.Blind ↔ k.mayMiss = true := by
  cases k with
  | workStealing => exact iff_of_true (.workStealing _) rfl
  | affinityRouting => exact iff_of_true .affinityRouting rfl
  | composite => exact iff_of_false (not_blind_default nofun) nofun
  | _ => exact iff_of_false nofun nofun

theorem chained_denoted (k : PolicyKind) : k.denoted.Chained := by
  by_cases hk : k = .composite
  · subst hk
    exact chained_default nofun
  · rw [denoted_eq_built hk]
    exact chained_built k

theorem total_denoted {k : PolicyKind} (hk : k.mayMiss = false) : k.denoted.Total := by
  by_cases hcomposite : k = .composite
  · subst hcomposite
    exact .head (.leaf nofun nofun nofun)
  · rw [denoted_eq_built hcomposite]
    exact total_built hk

theorem blind_denoted_iff (k : PolicyKind) : k.denoted.Blind ↔ k.mayMiss = true := by
  by_cases hk : k = .composite
  · subst hk
    exact iff_of_false (not_blind_default nofun) nofun
  · rw [denoted_eq_built hk]
    exact blind_built_iff k

/-- The default chain of a composite ends in a name the factory does not know, and no call comes to
it: the first child fails only when no node accepts the job. -/
theorem alike_built_denoted (k : PolicyKind) : Answers.Alike Policy.step k.built k.denoted := by
  by_cases hk : k = .composite
  · subst hk
    have hdeadline : earliestDeadlineFirst.built.Total := total_built rfl
    have hmatched : Matched [earliestDeadlineFirst.built, roundRobin.built]
        [earliestDeadlineFirst.built, leastLoaded.built] :=
      { ne_nil := by simp
        ne_nil' := by simp
        chained := by simp [chained_built]
        chained' := by simp [chained_built]
        blind_iff := by simp [blind_built_iff, mayMiss]
        shadows := .done (.refl _) hdeadline hdeadline }
    exact hmatched.alike
  · rw [denoted_eq_built hk]
    exact .refl _

/-! ### Chains that come to the same policies

By induction along the two chains. -/

/-- **Chains of which a call comes to the same policies answer it alike.** -/
theorem shadows_of_consulted {ks ls missed : List PolicyKind}
    (h : consulted missed ks = consulted missed ls) :
    Shadows (missed.map built) (ks.map built) (ls.map denoted) := by
  induction ks generalizing ls missed with
  | nil =>
      induction ls with
      | nil => exact .nil
      | cons l ls ih =>
          by_cases hl : l.mayMiss = true
          · by_cases hmissed : l ∈ missed
            · rw [consulted_of_missed hl hmissed] at h
              rw [List.map_cons, denoted_eq_built (by rintro rfl; cases hl)]
              exact .right (stateless_built hl) (List.mem_map_of_mem hmissed) (ih h)
            · rw [consulted_of_new hl hmissed] at h
              cases h
          · rw [consulted_of_total (by simpa using hl)] at h
            cases h
  | cons k ks ih =>
      -- heads that have missed already are passed over, first on the left and then on the right
      by_cases hskip : k.mayMiss = true ∧ k ∈ missed
      · rw [consulted_of_missed hskip.1 hskip.2] at h
        exact .left (stateless_built hskip.1) (List.mem_map_of_mem hskip.2) (ih h)
      · induction ls with
        | nil =>
            by_cases hk : k.mayMiss = true
            · rw [consulted_of_new hk fun hmem => hskip ⟨hk, hmem⟩] at h
              cases h
            · rw [consulted_of_total (by simpa using hk)] at h
              cases h
        | cons l ls ihls =>
            by_cases hskip' : l.mayMiss = true ∧ l ∈ missed
            · rw [consulted_of_missed hskip'.1 hskip'.2] at h
              rw [List.map_cons (l := ls), denoted_eq_built (by rintro rfl; cases hskip'.1)]
              exact .right (stateless_built hskip'.1) (List.mem_map_of_mem hskip'.2) (ihls h)
            · -- neither head is passed over, so that they are the same
              have hhead : k = l := by
                unfold consulted at h
                split_ifs at h <;> simp_all
              subst hhead
              by_cases hk : k.mayMiss = true
              · have hnew : k ∉ missed := fun hmem => hskip ⟨hk, hmem⟩
                rw [consulted_of_new hk hnew, consulted_of_new hk hnew] at h
                rw [List.map_cons, List.map_cons, denoted_eq_built (by rintro rfl; cases hk)]
                exact .both (stateless_built hk) (ih (List.cons.inj h).2)
              · have htotal : k.mayMiss = false := by simpa using hk
                exact .done (alike_built_denoted k) (total_built htotal) (total_denoted htotal)

/-! ### Calls that tell chains apart

One view for all chains: the calls differ in which policies are made to miss before. -/

/-- Which policies are to miss. -/
def missing (affinity stealing : Bool) : PolicyKind → Bool
  | .affinityRouting => affinity
  | .workStealing => stealing
  | _ => false

/-- Round robin takes the first node, which is the worse one by every score.  The other has the
identity that work stealing cannot select if that is to miss. -/
def apart (affinity stealing : Bool) : SelectCall where
  mCostModel := if affinity then cheapNodes else .create {}
  now := 0
  job := { estimatedCost := 2 ^ 64 - 1 }
  view :=
    { mNodeMetrics := [{ AffinityRouting.idleNode 1 5 with utilization := 1 },
        AffinityRouting.idleNode (if stealing then 0 else 2) 0]
      mCostModel := if affinity then cheapNodes else .create {} }

/-- What a policy of the kind answers there: round robin alone selects node 1. -/
def answerApart (affinity stealing : Bool) (k : PolicyKind) : Except SelectError NodeId :=
  if missing affinity stealing k then .error .noneEligible
  else if k = .roundRobin then .ok 1
  else .ok (if stealing then 0 else 2)

theorem built_apart (affinity stealing : Bool) (k : PolicyKind) :
    (k.built.step (apart affinity stealing)).1 = answerApart affinity stealing k := by
  cases affinity <;> cases stealing <;> cases k <;> decide +kernel

theorem denoted_apart (affinity stealing : Bool) (k : PolicyKind) :
    (k.denoted.step (apart affinity stealing)).1 = answerApart affinity stealing k := by
  rw [← (alike_built_denoted k).answer, built_apart]

/-- A chain selects node 1 when round robin is the first that does not miss. -/
theorem first_apart_iff {affinity stealing : Bool} {policy : PolicyKind → Policy Float32}
    (hpolicy : ∀ k, ((policy k).step (apart affinity stealing)).1 = answerApart affinity stealing k)
    (sawNodes : Bool) (ks : List PolicyKind) :
    (first (apart affinity stealing) sawNodes (ks.map policy)).1 = .ok 1 ↔
      (ks.find? fun k => !missing affinity stealing k) = some .roundRobin := by
  induction ks generalizing sawNodes with
  | nil => exact iff_of_false nofun nofun
  | cons k ks ih =>
      have hk := hpolicy k
      unfold answerApart at hk
      rw [List.map_cons, List.find?_cons]
      cases hmissing : missing affinity stealing k with
      | true =>
          rw [hmissing, if_pos rfl] at hk
          rw [Policy.first_of_error hk]
          exact ih _
      | false =>
          rw [hmissing, if_neg (by simp)] at hk
          by_cases hrobin : k = .roundRobin
          · rw [if_pos hrobin] at hk
            rw [Policy.first_of_ok hk]
            exact iff_of_true rfl (congrArg some hrobin)
          · rw [if_neg hrobin] at hk
            rw [Policy.first_of_ok hk]
            refine iff_of_false ?_ fun h => hrobin (Option.some.inj h)
            cases stealing with
            | true => exact fun h => absurd (Except.ok.inj h) (by decide)
            | false => exact fun h => absurd (Except.ok.inj h) (by decide)

/-- There is a call that just the policies in `missed` miss. -/
theorem missing_iff_mem {missed : List PolicyKind} (hmissed : ∀ k ∈ missed, k.mayMiss = true)
    (k : PolicyKind) :
    missing (decide (.affinityRouting ∈ missed)) (decide (.workStealing ∈ missed)) k = true ↔
      k ∈ missed := by
  cases k with
  | workStealing => exact decide_eq_true_iff
  | affinityRouting => exact decide_eq_true_iff
  | _ => exact iff_of_false nofun fun hmem => absurd (hmissed _ hmem) (by decide)

/-- The calls find round robin in both lists or in neither. -/
def FoundAlike (missed ks ls : List PolicyKind) : Prop :=
  ∀ affinity stealing, (∀ k ∈ missed, missing affinity stealing k = true) →
    ((ks.find? fun k => !missing affinity stealing k) = some .roundRobin ↔
      (ls.find? fun k => !missing affinity stealing k) = some .roundRobin)

/-- Round robin is the first that a call with these misses finds. -/
theorem consulted_of_found {missed ls : List PolicyKind}
    (hmissed : ∀ k ∈ missed, k.mayMiss = true)
    (h : (ls.find? fun k => !missing (decide (.affinityRouting ∈ missed))
      (decide (.workStealing ∈ missed)) k) = some .roundRobin) :
    consulted missed ls = [.roundRobin] := by
  induction ls with
  | nil => cases h
  | cons l ls ih =>
      by_cases hl : l ∈ missed
      · rw [List.find?_cons_of_neg (by simp [(missing_iff_mem hmissed l).mpr hl])] at h
        rw [consulted_of_missed (hmissed l hl) hl]
        exact ih h
      · have hfound := mt (missing_iff_mem hmissed l).mp hl
        rw [List.find?_cons_of_pos (by simpa using hfound)] at h
        obtain rfl := Option.some.inj h
        exact consulted_of_total rfl

/-- Calls that miss the head of both chains as well. -/
theorem FoundAlike.tail {missed ks ls : List PolicyKind} {k : PolicyKind}
    (h : FoundAlike missed (k :: ks) (k :: ls)) : FoundAlike (k :: missed) ks ls := by
  intro affinity stealing hall
  obtain ⟨hk, hmissed⟩ := List.forall_mem_cons.mp hall
  have hfound := h affinity stealing hmissed
  rwa [List.find?_cons_of_neg (by simp [hk]), List.find?_cons_of_neg (by simp [hk])] at hfound

/-- **Chains that no call tells apart come to the same policies**, if they differ only where the one
has round robin. -/
theorem consulted_of_foundAlike {ks ls : List PolicyKind}
    (hread : List.Forall₂ (fun k l => k = l ∨ k = .roundRobin) ks ls) {missed : List PolicyKind}
    (hmissed : ∀ k ∈ missed, k.mayMiss = true) (h : FoundAlike missed ks ls) :
    consulted missed ks = consulted missed ls := by
  induction hread generalizing missed with
  | nil => rfl
  | @cons k l ks ls hkl _ ih =>
      rcases hkl with rfl | rfl
      · by_cases hk : k.mayMiss = true
        · by_cases hmem : k ∈ missed
          · rw [consulted_of_missed hk hmem, consulted_of_missed hk hmem]
            apply ih hmissed
            intro affinity stealing hall
            exact h.tail affinity stealing (List.forall_mem_cons.mpr ⟨hall k hmem, hall⟩)
          · rw [consulted_of_new hk hmem, consulted_of_new hk hmem,
              ih (List.forall_mem_cons.mpr ⟨hk, hmissed⟩) h.tail]
        · have htotal : k.mayMiss = false := by simpa using hk
          rw [consulted_of_total htotal, consulted_of_total htotal]
      · have hfound := (h (decide (.affinityRouting ∈ missed)) (decide (.workStealing ∈ missed))
          fun k hk => (missing_iff_mem hmissed k).mpr hk).mp (List.find?_cons_of_pos rfl)
        rw [consulted_of_found hmissed hfound]
        exact consulted_of_total rfl

end PolicyKind

/-! ## What the factory makes of a chain

Both directions together. -/

theorem readKind_cases (name : String) :
    readKind name = denotedKind name ∨ readKind name = .roundRobin := by
  unfold readKind
  split
  · exact .inr rfl
  · exact .inl rfl

section

open PolicyKind

open Answers (Alike)

open Policy (Matched first step_composite step_of_empty_iff blind_composite_iff)

variable {chain : List String}

theorem exists_blind_map {policy : PolicyKind → Policy Float32}
    (hpolicy : ∀ k, (policy k).Blind ↔ k.mayMiss = true) (kind : String → PolicyKind) :
    (∃ p ∈ chain.map fun name => policy (kind name), p.Blind) ↔
      ∃ name ∈ chain, (kind name).mayMiss = true := by
  simp only [List.mem_map, exists_exists_and_eq_and, hpolicy]

theorem alike_of_consulted (hne : chain ≠ [])
    (hconsulted : consulted [] (chain.map readKind) = consulted [] (chain.map denotedKind))
    (hblind : (∃ name ∈ chain, (readKind name).mayMiss = true) ↔
      ∃ name ∈ chain, (denotedKind name).mayMiss = true) :
    Alike Policy.step (.composite (chain.map fun name => (readKind name).built))
      (denotedComposite chain) := by
  have hmatched : Matched (chain.map fun name => (readKind name).built)
      (chain.map fun name => (denotedKind name).denoted) :=
    { ne_nil := by simpa using hne
      ne_nil' := by simpa using hne
      chained := by
        rintro p hp
        obtain ⟨name, -, rfl⟩ := List.mem_map.mp hp
        exact chained_built _
      chained' := by
        rintro p hp
        obtain ⟨name, -, rfl⟩ := List.mem_map.mp hp
        exact chained_denoted _
      blind_iff := by
        rw [exists_blind_map blind_built_iff, exists_blind_map blind_denoted_iff]
        exact hblind
      shadows := by
        have hshadows := shadows_of_consulted hconsulted
        rwa [List.map_map, List.map_map] at hshadows }
  exact hmatched.alike

/-- **A chain is answered as it denotes exactly when the policies a call can come to are those it
denotes**, and the factory leaves a policy that does not test for an empty view if it names one. -/
theorem makePolicy_chain_alike_iff (hne : chain ≠ [])
    (hvalid : ∀ name ∈ chain, name ∈ documentedNames.map Prod.fst) :
    Alike Policy.step ((makePolicy kPolicyComposite true { chain := chain }).construct Float32)
        (denotedComposite chain) ↔
      consulted [] (chain.map readKind) = consulted [] (chain.map denotedKind) ∧
      ((∃ name ∈ chain, (readKind name).mayMiss = true) ↔
        ∃ name ∈ chain, (denotedKind name).mayMiss = true) := by
  rw [makePolicy_chain hne hvalid]
  constructor
  · intro h
    constructor
    · refine consulted_of_foundAlike ?_ (List.forall_mem_nil _) ?_
      · rw [List.forall₂_map_left_iff, List.forall₂_map_right_iff, List.forall₂_same]
        exact fun name _ => readKind_cases name
      · intro affinity stealing _
        have hanswer := h.answer (apart affinity stealing)
        unfold denotedComposite at hanswer
        rw [step_composite (by simpa using hne), step_composite (by simpa using hne)] at hanswer
        rw [← first_apart_iff (built_apart affinity stealing) false,
          ← first_apart_iff (denoted_apart affinity stealing) false, List.map_map, List.map_map]
        exact Eq.congr_left hanswer
    · have hempty := (step_of_empty_iff
        (c := { mCostModel := .create {}, now := 0, job := {}, view := ⟨[], .create {}⟩ }) rfl).mp
        (h.answer _)
      unfold denotedComposite at hempty
      rwa [blind_composite_iff, blind_composite_iff, exists_blind_map blind_built_iff,
        exists_blind_map blind_denoted_iff] at hempty
  · rintro ⟨hconsulted, hblind⟩
    exact alike_of_consulted hne hconsulted hblind

/-- The default chain ends in a name the factory does not know, and no call comes to it. -/
theorem makePolicy_chain_alike_iff_default :
    Alike Policy.step ((makePolicy kPolicyComposite true {}).construct Float32)
      (denotedComposite ["earliest_deadline_first", "least_loaded"]) := by
  apply (makePolicy_chain_alike_iff (List.cons_ne_nil _ _) _).mpr
  · exact ⟨by decide, by decide⟩
  · decide

/-- **A chain of the least loaded selects the most loaded node.**  The factory makes round robin of
`"least_loaded"`, and node 1 with five jobs queued comes first in the view. -/
theorem least_loaded_chain_misread :
    (((makePolicy kPolicyComposite true { chain := ["least_loaded"] }).construct Float32).step
        (apart false false)).1 = .ok 1 ∧
      ((denotedComposite ["least_loaded"]).step (apart false false)).1 = .ok 2 ∧
      ¬Alike Policy.step
        ((makePolicy kPolicyComposite true { chain := ["least_loaded"] }).construct Float32)
        (denotedComposite ["least_loaded"]) := by
  have hbuilt : (((makePolicy kPolicyComposite true { chain := ["least_loaded"] }).construct
      Float32).step (apart false false)).1 = .ok 1 := by decide +kernel
  have hdenoted : ((denotedComposite ["least_loaded"]).step (apart false false)).1 = .ok 2 := by
    decide +kernel
  refine ⟨hbuilt, hdenoted, fun h => ?_⟩
  have hanswer := h.answer (apart false false)
  rw [hbuilt, hdenoted] at hanswer
  cases hanswer

end

end FatpBalancer
