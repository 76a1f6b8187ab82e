/-
# The affinity matrix

The node × job-class table of learned multipliers.  Single-precision arithmetic is a parameter:
`FloatOps` names the operations the learning code uses and assumes no law of them, so that what is
proved over it holds for IEEE arithmetic and for exact arithmetic alike.
-/
import FatpBalancer.Job
import Mathlib.Algebra.Order.Field.Rat
import Mathlib.Algebra.Order.Floor.Defs
import Mathlib.Data.Rat.Floor
import Mathlib.Logic.Function.Basic

universe u

namespace FatpBalancer

/-- The operations on `float` that the learning code uses. -/
class FloatOps (F : Type u) extends Add F, Sub F, Mul F, Div F where
  /-- a literal of the source -/
  lit : Rat → F
  /-- `a < b` -/
  lt : F → F → Bool
  /-- `a == b` -/
  eq : F → F → Bool
  /-- `static_cast<float>` of an unsigned 64-bit integer -/
  ofUInt64 : Nat → F
  /-- `static_cast<float>` of a signed 64-bit integer -/
  ofInt64 : Int → F
  /-- `static_cast<uint64_t>` of a float in range: truncation -/
  toUInt64 : F → Nat

/-- `a <= b`. -/
def FloatOps.le {F : Type u} [FloatOps F] (a b : F) : Bool := FloatOps.lt a b || FloatOps.eq a b

/-- Exact arithmetic. -/
instance : FloatOps Rat where
  lit := id
  lt a b := decide (a < b)
  eq a b := decide (a = b)
  ofUInt64 n := n
  ofInt64 n := n
  toUInt64 x := ⌊x⌋.toNat

structure AffinityMatrixConfig (F : Type u) [FloatOps F] where
  maxNodes : Nat := 64
  maxJobClasses : Nat := 16
  alpha : F := FloatOps.lit (1 / 10)
  warmThreshold : Nat := 5

/-- `value = alpha * observation + (1 - alpha) * value`. -/
def emaStep {F : Type u} [FloatOps F] (alpha observation value : F) : F :=
  alpha * observation + (FloatOps.lit 1 - alpha) * value

/-- The two tensors, read and written at (row, column). -/
structure AffinityMatrix (F : Type u) [FloatOps F] where
  mConfig : AffinityMatrixConfig F
  mValues : Nat → Nat → F
  mObservations : Nat → Nat → Nat

namespace AffinityMatrix

variable {F : Type u} [FloatOps F]

def create (config : AffinityMatrixConfig F) : AffinityMatrix F where
  mConfig := config
  mValues := fun _ _ => FloatOps.lit 1
  mObservations := fun _ _ => 0

/-- `clampRow` and `clampCol`: an index past the edge becomes `limit - 1` in 32-bit arithmetic. -/
def clampIndex (limit i : Nat) : Nat :=
  if i < limit then i else fetchSub32 limit

def clampRow (a : AffinityMatrix F) (r : Nat) : Nat := clampIndex a.mConfig.maxNodes r

def clampCol (a : AffinityMatrix F) (c : Nat) : Nat := clampIndex a.mConfig.maxJobClasses c

/-- Write one cell of a tensor. -/
def setCell {α : Type u} (t : Nat → Nat → α) (r c : Nat) (v : α) : Nat → Nat → α :=
  Function.update t r (Function.update (t r) c v)

def update (a : AffinityMatrix F) (nodeIdx classIdx : Nat) (ratio : F) : AffinityMatrix F :=
  let r := a.clampRow nodeIdx
  let c := a.clampCol classIdx
  { a with
    mValues := setCell a.mValues r c (emaStep a.mConfig.alpha ratio (a.mValues r c))
    mObservations := setCell a.mObservations r c (fetchAdd32 (a.mObservations r c)) }

def observations (a : AffinityMatrix F) (nodeIdx classIdx : Nat) : Nat :=
  a.mObservations (a.clampRow nodeIdx) (a.clampCol classIdx)

def get (a : AffinityMatrix F) (nodeIdx classIdx : Nat) : F :=
  if a.observations nodeIdx classIdx < a.mConfig.warmThreshold then FloatOps.lit 1
  else a.mValues (a.clampRow nodeIdx) (a.clampCol classIdx)

def isCellWarm (a : AffinityMatrix F) (nodeIdx classIdx : Nat) : Bool :=
  decide (a.mConfig.warmThreshold ≤ a.observations nodeIdx classIdx)

def reset (a : AffinityMatrix F) : AffinityMatrix F := create a.mConfig

theorem setCell_apply {α : Type u} (t : Nat → Nat → α) (r c : Nat) (v : α)
    (r' c' : Nat) : setCell t r c v r' c' = if r' = r ∧ c' = c then v else t r' c' := by
  unfold setCell
  by_cases hr : r' = r
  · subst hr
    simp [Function.update_apply]
  · simp [hr]

/-- With a positive limit a clamped index is inside. -/
theorem clampIndex_lt {limit : Nat} (h : 0 < limit) (i : Nat) : clampIndex limit i < limit := by
  unfold clampIndex
  split
  · assumption
  · rw [fetchSub32_of_pos h]
    omega

end AffinityMatrix

end FatpBalancer
