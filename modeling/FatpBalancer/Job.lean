/-
# The job model

The `Job` aggregate of `Job.h` with the identifier types, the priorities and the error codes that
travel with it.  Times are clock ticks (nanoseconds of the monotonic clock).  `maxWait` and the
payload are left out: no code of the repository reads the first, and the balancer never inspects
the second.
-/
import Mathlib.Algebra.Order.Ring.Int

namespace FatpBalancer

/-! ## Machine integers -/

/-- `fetch_add(1)` on a 32-bit atomic, and `++x` on a 32-bit counter. -/
def fetchAdd32 (x : Nat) : Nat := (x + 1) % 2 ^ 32

/-- `fetch_sub(1)` on a 32-bit atomic, and `x - 1` on a 32-bit unsigned integer. -/
def fetchSub32 (x : Nat) : Nat := if x = 0 then 2 ^ 32 - 1 else x - 1

theorem fetchSub32_of_pos {x : Nat} (h : 0 < x) : fetchSub32 x = x - 1 :=
  if_neg (Nat.ne_of_gt h)

theorem fetchSub32_add_one {x : Nat} (h : x < 2 ^ 32) : (fetchSub32 x + 1) % 2 ^ 32 = x := by
  unfold fetchSub32
  split <;> omega

theorem fetchSub32_fetchAdd32 {x : Nat} (h : x < 2 ^ 32) : fetchSub32 (fetchAdd32 x) = x := by
  unfold fetchSub32 fetchAdd32
  split <;> omega

theorem fetchSub32_lt {x : Nat} (h : x < 2 ^ 32) : fetchSub32 x < 2 ^ 32 := by
  unfold fetchSub32
  split <;> omega

theorem fetchAdd32_lt (x : Nat) : fetchAdd32 x < 2 ^ 32 := Nat.mod_lt _ (by decide)

theorem fetchAdd32_of_lt {x : Nat} (h : x < 2 ^ 32 - 1) : fetchAdd32 x = x + 1 := by
  unfold fetchAdd32
  omega

/-- `static_cast<int64_t>` of an unsigned integer. -/
def toInt64 (n : Nat) : Int := Int.bmod n (2 ^ 64)

/-- `static_cast<uint32_t>` of a signed 64-bit integer. -/
def toUInt32 (n : Int) : Nat := (n % 2 ^ 32).toNat

/-- The result of a signed 64-bit operation: one that overflows wraps. -/
def wrapInt64 (x : Int) : Int := Int.bmod x (2 ^ 64)

theorem toInt64_of_lt {n : Nat} (h : n < 2 ^ 63) : toInt64 n = n := by
  unfold toInt64
  rw [Int.bmod_eq_of_le] <;> omega

theorem toInt64_neg {n : Nat} (hle : 2 ^ 63 ≤ n) (hlt : n < 2 ^ 64) : toInt64 n < 0 := by
  unfold toInt64
  simp only [Int.bmod]
  omega

theorem wrapInt64_of_bounds {x : Int} (hlo : -2 ^ 63 ≤ x) (hhi : x < 2 ^ 63) : wrapInt64 x = x := by
  unfold wrapInt64
  rw [Int.bmod_eq_of_le] <;> omega

theorem toUInt32_of_lt {n : Nat} (h : n < 2 ^ 32) : toUInt32 n = n := by
  unfold toUInt32
  omega

/-! ## Identifiers and times -/

/-- A reading of the monotonic clock, in nanoseconds. -/
abbrev TimePoint := Int

abbrev Duration := Int

/-- A 32-bit job identifier, minted by `Balancer::nextJobId`. -/
abbrev JobId := Nat

/-- A 32-bit node identity. -/
abbrev NodeId := Nat

/-- A 32-bit job class; class 0 is the unclassified one. -/
abbrev JobClass := Nat

/-- A raw 64-bit job handle. -/
abbrev JobHandle := Nat

/-- 64-bit work units. -/
abbrev Cost := Nat

/-- The sentinel for an unknown or uncalibrated cost. -/
def kUnknownCost : Cost := 0

/-! ## The job -/

inductive Priority
  | critical
  | high
  | normal
  | low
  | bulk
  deriving DecidableEq, Repr

/-- The value of the enumerator: the higher priority has the lower value. -/
def Priority.value : Priority → Nat
  | .critical => 0
  | .high => 1
  | .normal => 2
  | .low => 3
  | .bulk => 4

structure Job where
  -- set by the submitter
  jobClass : JobClass := 0
  estimatedCost : Cost := kUnknownCost
  deadline : Option TimePoint := none
  -- set by the balancer on accept
  id : JobId := 0
  priority : Priority := .normal
  submitted : TimePoint := 0
  -- set by the node
  observedCost : Cost := kUnknownCost
  executedBy : NodeId := 0
  -- counted by the drain loop
  holdRetries : Nat := 0
  -- set by the node when it accepts the job
  queueDepthAtDispatch : Nat := 0
  deriving DecidableEq, Repr

/-- Whether the deadline is reached: `deadline.has_value() && now >= *deadline`. -/
def Job.deadlinePassed (job : Job) (now : TimePoint) : Bool :=
  job.deadline.any fun d => decide (d ≤ now)

/-- `job.priority == Critical || job.priority == High`: the priorities the holding queue takes. -/
def Priority.holdable : Priority → Bool
  | .critical | .high => true
  | .normal | .low | .bulk => false

/-- Errors of `Balancer::submit`. -/
inductive SubmitError
  | rateLimited
  | priorityRejected
  | clusterSaturated
  | holdingQueueFull
  | deadlineUnachievable
  | nodeNotFound
  deriving DecidableEq, Repr

/-- Errors of `Balancer::cancel`. -/
inductive CancelError
  | notFound
  | alreadyRunning
  | criticalNotCancellable
  deriving DecidableEq, Repr

end FatpBalancer
