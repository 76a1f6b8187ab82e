/-
# The policy factory

Which policy `makePolicy` builds for a name.  A policy is known by what it was constructed with; the
cursor a round-robin policy advances between selections is not part of it.
-/
import FatpBalancer.Supervisor.BalancerFeatures

namespace FatpBalancer

inductive SchedulingPolicy
  | roundRobin
  | leastLoaded
  | workStealing (mStealThreshold : Nat := 4)
  /-- holds a reference to the balancer's own cost model -/
  | affinityRouting
  | composite (mPolicies : List SchedulingPolicy)
  | shortestJobFirst
  /-- with the default, empty weight table -/
  | weightedCapacity
  | earliestDeadlineFirst

/-- `ISchedulingPolicy::name`. -/
def SchedulingPolicy.name : SchedulingPolicy → String
  | .roundRobin => "RoundRobin"
  | .leastLoaded => "LeastLoaded"
  | .workStealing _ => "WorkStealing"
  | .affinityRouting => "AffinityRouting"
  | .composite _ => "Composite"
  | .shortestJobFirst => "ShortestJobFirst"
  | .weightedCapacity => "WeightedCapacity"
  | .earliestDeadlineFirst => "EarliestDeadlineFirst"

structure CompositePolicyConfig where
  chain : List String := ["earliest_deadline_first", "least_loaded"]

/-- The branches of `makePolicy` in their order, `composite` being what the composite branch
returns; `costModel` says whether the pointer is not null. -/
def makeNamed (composite : SchedulingPolicy) (costModel : Bool) (name : String) :
    SchedulingPolicy :=
  if name == kPolicyLeastLoaded then .leastLoaded
  else if name == kPolicyWorkStealing then .workStealing
  else if name == kPolicyAffinity && costModel then .affinityRouting
  else if name == kPolicyComposite then composite
  else if name == "shortest_job_first" then .shortestJobFirst
  else if name == "weighted_capacity" then .weightedCapacity
  else if name == "earliest_deadline_first" then .earliestDeadlineFirst
  else .roundRobin

/-- A composite of the children, or the fallback for an empty chain. -/
def makeComposite : List SchedulingPolicy → SchedulingPolicy
  | [] => .roundRobin
  | children => .composite children

/-- A composite child of a chain gets the default chain, which names no composite. -/
def makePolicy (name : String) (costModel : Bool := false)
    (compositeConfig : CompositePolicyConfig := {}) : SchedulingPolicy :=
  let child := makeNamed (makeComposite
    (({} : CompositePolicyConfig).chain.map (makeNamed .roundRobin costModel))) costModel
  makeNamed (makeComposite (compositeConfig.chain.map child)) costModel name

/-- The recursion of the source: the children of a composite are made with the default chain. -/
theorem makePolicy_eq (name : String) (costModel : Bool) (cfg : CompositePolicyConfig) :
    makePolicy name costModel cfg =
      makeNamed (makeComposite (cfg.chain.map fun child => makePolicy child costModel)) costModel
        name := by
  -- neither name of the default chain is the composite's, so its children are made either way
  have hchild : ∀ child, makePolicy child costModel =
      makeNamed (makeComposite (({} : CompositePolicyConfig).chain.map
        (makeNamed .roundRobin costModel))) costModel child := by
    intro child
    rfl
  simp only [hchild]
  rfl

end FatpBalancer
