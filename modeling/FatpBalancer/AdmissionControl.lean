/-
# Admission control

The three-layer admission gate.  Each layer is one function on the gate's state, because the
balancer's threads run the layers as separate atomic steps; `evaluate` is their sequence, as one
thread sees it when nobody interferes.  Token arithmetic is exact.

A verdict is `none` for a job that is let through, and an error otherwise; an error is counted by
the layer that decides it.  `Counts` says so of each layer, and `SameSlots` that the rate layers
leave the holding depth alone.
-/
import FatpBalancer.LoadMetrics
import Mathlib.Algebra.Order.Field.Rat
import Mathlib.Logic.Function.Basic

namespace FatpBalancer

/-! ## Token bucket

Tokens are refilled when somebody asks for one, by the time since the last refill. -/

structure TokenBucket where
  mRate : Nat
  mCapacity : Nat
  mTokens : Rat
  mLastRefill : TimePoint

/-- A bucket that starts full.  A rate of 0 means unlimited. -/
def TokenBucket.create (ratePerSecond : Nat) (now : TimePoint) (burstCapacity : Nat := 0) :
    TokenBucket where
  mRate := ratePerSecond
  mCapacity := if 0 < burstCapacity then burstCapacity else ratePerSecond
  mTokens := if 0 < burstCapacity then burstCapacity else ratePerSecond
  mLastRefill := now

def TokenBucket.refill (b : TokenBucket) (now : TimePoint) : TokenBucket :=
  let elapsed : Rat := ((now - b.mLastRefill : Int) : Rat) / 1000000000
  { b with
    -- clock ticks are nanoseconds, rates are per second
    mTokens := min (b.mCapacity : Rat) (b.mTokens + elapsed * b.mRate)
    mLastRefill := now }

def TokenBucket.tryConsume (b : TokenBucket) (now : TimePoint) : Bool × TokenBucket :=
  if b.mRate = 0 then (true, b)
  else
    let b := b.refill now
    if 1 ≤ b.mTokens then (true, { b with mTokens := b.mTokens - 1 }) else (false, b)

/-! ## The gate

Four buckets, two modes and the holding depth. -/

structure AdmissionConfig where
  globalRateLimitJps : Nat := 0
  normalRateLimitJps : Nat := 0
  lowRateLimitJps : Nat := 0
  bulkRateLimitJps : Nat := 0
  holdingQueueCapacity : Nat := 256
  /-- the capacity is a `uint32_t` -/
  capacity_lt : holdingQueueCapacity < 2 ^ 32 := by decide

/-- The default capacity fits. -/
theorem AdmissionConfig.default_lt : 256 < 2 ^ 32 := by decide

structure AdmissionControl where
  mGlobalBucket : TokenBucket
  mNormalBucket : TokenBucket
  mLowBucket : TokenBucket
  mBulkBucket : TokenBucket
  mShedBulk : Bool
  mAdmissionStrict : Bool
  mHoldingQueueCapacity : Nat
  mHoldingQueueDepth : Nat
  /-- 64-bit counters, here without the wrap-around -/
  mRejections : SubmitError → Nat

namespace AdmissionControl

def create (config : AdmissionConfig) (now : TimePoint) : AdmissionControl where
  mGlobalBucket := .create config.globalRateLimitJps now
  mNormalBucket := .create config.normalRateLimitJps now
  mLowBucket := .create config.lowRateLimitJps now
  mBulkBucket := .create config.bulkRateLimitJps now
  mShedBulk := false
  mAdmissionStrict := false
  mHoldingQueueCapacity := config.holdingQueueCapacity
  mHoldingQueueDepth := 0
  mRejections := fun _ => 0

/-- `++mRejections[error]`. -/
def countRejection (ac : AdmissionControl) (e : SubmitError) : AdmissionControl :=
  { ac with mRejections := Function.update ac.mRejections e (ac.mRejections e + 1) }

/-- Layer 1: the global bucket. -/
def checkGlobalRate (ac : AdmissionControl) (now : TimePoint) :
    Option SubmitError × AdmissionControl :=
  -- a token spent here is gone even when a later layer rejects the job
  let r := ac.mGlobalBucket.tryConsume now
  let ac := { ac with mGlobalBucket := r.2 }
  if r.1 then (none, ac) else (some .rateLimited, ac.countRejection .rateLimited)

/-- Layer 2, the mode overrides: strict mode sheds everything below High, bulk-shed mode Bulk. -/
def checkModes (ac : AdmissionControl) (priority : Priority) :
    Option SubmitError × AdmissionControl :=
  if !priority.holdable && (ac.mAdmissionStrict || (priority = .bulk && ac.mShedBulk)) then
    (some .priorityRejected, ac.countRejection .priorityRejected)
  else (none, ac)

/-- Layer 2, the bucket of the priority.  Critical and High have none. -/
def checkPriorityRate (ac : AdmissionControl) (now : TimePoint) (priority : Priority) :
    Option SubmitError × AdmissionControl :=
  let verdict (r : Bool × TokenBucket) (ac : AdmissionControl) :=
    if r.1 then (none, ac) else (some .priorityRejected, ac.countRejection .priorityRejected)
  match priority with
  | .critical | .high => (none, ac)
  | .normal =>
      let r := ac.mNormalBucket.tryConsume now
      verdict r { ac with mNormalBucket := r.2 }
  | .low =>
      let r := ac.mLowBucket.tryConsume now
      verdict r { ac with mLowBucket := r.2 }
  | .bulk =>
      let r := ac.mBulkBucket.tryConsume now
      verdict r { ac with mBulkBucket := r.2 }

/-- What layer 3 decides before it touches the holding depth. -/
inductive CapacityVerdict
  | pass
  | reserve
  | reject
  deriving DecidableEq, Repr

/-- Layer 3: a saturated cluster admits Critical and High only, each against a holding slot. -/
def capacityVerdict (priority : Priority) (clusterSaturated : Bool) : CapacityVerdict :=
  if clusterSaturated then
    -- the holding queue takes Critical and High alone
    if priority.holdable then .reserve else .reject
  else .pass

/-- `tryReserveHoldingSlot` without interference: the compare-and-swap succeeds at once. -/
def tryReserveHoldingSlot (ac : AdmissionControl) : Option SubmitError × AdmissionControl :=
  if ac.mHoldingQueueCapacity ≤ ac.mHoldingQueueDepth then
    (some .holdingQueueFull, ac.countRejection .holdingQueueFull)
  else (none, { ac with mHoldingQueueDepth := ac.mHoldingQueueDepth + 1 })

/-- The whole gate, as one thread runs it alone.  The bucket of the priority reads the clock again,
after the global one: `now` is the first reading and `later` the second. -/
def evaluate (ac : AdmissionControl) (now later : TimePoint) (priority : Priority)
    (clusterSaturated : Bool) : Option SubmitError × AdmissionControl :=
  match ac.checkGlobalRate now with
  | (some e, ac) => (some e, ac)
  | (none, ac) =>
    match ac.checkModes priority with
    | (some e, ac) => (some e, ac)
    | (none, ac) =>
      match ac.checkPriorityRate later priority with
      | (some e, ac) => (some e, ac)
      | (none, ac) =>
        match capacityVerdict priority clusterSaturated with
        | .pass => (none, ac)
        | .reserve => ac.tryReserveHoldingSlot
        | .reject => (some .clusterSaturated, ac.countRejection .clusterSaturated)

/-- `fetch_sub(1)` on the 32-bit depth. -/
def releaseFromHoldingQueue (ac : AdmissionControl) : AdmissionControl :=
  { ac with mHoldingQueueDepth := fetchSub32 ac.mHoldingQueueDepth }

/-! ### Every rejection is counted -/

/-- The rejections counted by a step with this verdict. -/
def Counts (ac ac' : AdmissionControl) (verdict : Option SubmitError) : Prop :=
  ∀ e, ac'.mRejections e = ac.mRejections e + if verdict = some e then 1 else 0

theorem counts_none {ac ac' : AdmissionControl} (h : ac'.mRejections = ac.mRejections) :
    Counts ac ac' none := fun e => by rw [h, if_neg (by simp), Nat.add_zero]

theorem countRejection_counts {ac ac' : AdmissionControl} (h : ac'.mRejections = ac.mRejections)
    (error : SubmitError) : Counts ac (ac'.countRejection error) (some error) := by
  intro e
  show Function.update ac'.mRejections error (ac'.mRejections error + 1) e = _
  rw [Function.update_apply, h]
  by_cases he : e = error
  · rw [if_pos he, if_pos (congrArg some he.symm), he]
  · rw [if_neg he, if_neg (fun heq => he (Option.some.inj heq).symm), Nat.add_zero]

theorem checkGlobalRate_counts (ac : AdmissionControl) (now : TimePoint) :
    Counts ac (ac.checkGlobalRate now).2 (ac.checkGlobalRate now).1 := by
  unfold checkGlobalRate
  dsimp only
  split
  · exact counts_none rfl
  · exact countRejection_counts rfl _

theorem checkModes_counts (ac : AdmissionControl) (priority : Priority) :
    Counts ac (ac.checkModes priority).2 (ac.checkModes priority).1 := by
  unfold checkModes
  split
  · exact countRejection_counts rfl _
  · exact counts_none rfl

theorem checkPriorityRate_counts (ac : AdmissionControl) (now : TimePoint) (priority : Priority) :
    Counts ac (ac.checkPriorityRate now priority).2 (ac.checkPriorityRate now priority).1 := by
  cases priority <;> simp only [checkPriorityRate]
  case critical | high => exact counts_none rfl
  case normal | low | bulk =>
    split
    · exact counts_none rfl
    · exact countRejection_counts rfl _

/-! ### The rate layers leave the holding slots alone -/

/-- Two gates with the same holding slots. -/
def SameSlots (ac ac' : AdmissionControl) : Prop :=
  ac'.mHoldingQueueCapacity = ac.mHoldingQueueCapacity ∧
    ac'.mHoldingQueueDepth = ac.mHoldingQueueDepth

theorem countRejection_sameSlots (ac : AdmissionControl) (e : SubmitError) :
    SameSlots ac (ac.countRejection e) := ⟨rfl, rfl⟩

theorem checkGlobalRate_sameSlots (ac : AdmissionControl) (now : TimePoint) :
    SameSlots ac (ac.checkGlobalRate now).2 := by
  unfold checkGlobalRate
  dsimp only
  split <;> exact ⟨rfl, rfl⟩

theorem checkModes_sameSlots (ac : AdmissionControl) (priority : Priority) :
    SameSlots ac (ac.checkModes priority).2 := by
  unfold checkModes
  split <;> exact ⟨rfl, rfl⟩

theorem checkPriorityRate_sameSlots (ac : AdmissionControl) (now : TimePoint)
    (priority : Priority) : SameSlots ac (ac.checkPriorityRate now priority).2 := by
  cases priority <;> simp only [checkPriorityRate]
  case critical | high => exact ⟨rfl, rfl⟩
  case normal | low | bulk => split <;> exact ⟨rfl, rfl⟩

end AdmissionControl

end FatpBalancer
