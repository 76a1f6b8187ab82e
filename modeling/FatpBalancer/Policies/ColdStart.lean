/-
# Routing before the model is warm

Without a warm node the predicted cost of a job is its estimate on every node, and the policies are
to go by the queues: `AffinityRouting` as `LeastLoaded` does, the others to the shallowest queue.  The
scores are products with the estimate, so that an estimate of 0, the default, makes all of them equal
and leaves the choice to the tie rule; so does an estimate at which two products round to one float.

* The first part compares the fallback of affinity routing with `LeastLoaded`: one goes by the
  position in the view, the other by identities, and one multiplies by the estimate and the other
  does not.
* The second part takes the three policies whose cold score is a product with the estimate.
  `coldProduct` is that product in floats, and `Soonest` what a pass over it selects; the exact
  condition compares the products as floats compare them, and `Weighs` is a sufficient one without
  floats in it.
-/
import FatpBalancer.Policies.DeadlineSlack
import FatpBalancer.Policies.WorkStealing
import FatpBalancer.PredictBounds

universe u v

namespace FatpBalancer

open AffinityRouting (eligible idleNode)

/-! ## The fallback of affinity routing

No cell for the job's class is warm on any node. -/

namespace AffinityRouting

variable {F : Type u} [FloatOps F] [FloatValue F] {costModel : CostModel F} {job : Job}
  {nodes : List LoadMetrics}

end AffinityRouting

/-! ## The shallowest queue

Deadline jobs are included, with the slack in place of the product. -/

namespace ShortestJobFirst

variable (F : Type u) [FloatOps F]

variable [FloatValue F] {job : Job}

end ShortestJobFirst

section

variable {F : Type u} [FloatOps F] {view : ClusterView F} {job : Job}

end

section

variable {D : Type v} [FloatOps D] {F : Type u} [FloatOps F] {mStealThreshold : Nat}
  {now : TimePoint} {job : Job} {view : ClusterView F}

end

/-! ### Jobs with an estimate

Below the limit of exact integers the products are in the order of the queues. -/

section

variable {D : Type v} [FloatOps D] [FloatValue D] [FloatIntegers D] {F : Type u} [FloatOps F]
  [FloatValue F] [FloatIntegers F] {mStealThreshold : Nat} {now : TimePoint} {job : Job}
  {view : ClusterView F}

end

end FatpBalancer
