/-
# The aging engine

Priority aging and deadline expiry with the time passed in.  The tracked jobs are a finite map from
job ids; `tick` is one pass over it in which each entry is handled on its own.

Since an entry is handled without a look at the others, a tick is given by what it does with one
entry, `tickEntry`: it expires, is promoted by one band, or stays.  The events of a tick are
collected from the entries in the order of the map.
-/
import FatpBalancer.Job
import FatpBalancer.Lib.HashMap

namespace FatpBalancer

/-- Thresholds in clock ticks, as the comparison `waited >= *threshold` reads them. -/
structure AgingConfig where
  bulkToLow : Duration := 60 * 1000000000
  lowToNormal : Duration := 45 * 1000000000
  normalToHigh : Duration := 30 * 1000000000
  highToCriticalEnabled : Bool := false
  highToCritical : Duration := 15 * 1000000000

structure TrackedJob where
  id : JobId
  currentPriority : Priority
  deadline : Option TimePoint
  lastBumpAt : TimePoint
  deriving DecidableEq, Repr

structure AgedEvent where
  id : JobId
  oldPriority : Priority
  newPriority : Priority
  deriving DecidableEq, Repr

structure ExpiredEvent where
  id : JobId
  priority : Priority
  deriving DecidableEq, Repr

structure TickResult where
  aged : List AgedEvent
  expired : List ExpiredEvent

structure AgingEngine where
  mConfig : AgingConfig
  mTracked : HashMap JobId TrackedJob := ∅

namespace AgingEngine

/-- The waiting time before a job of this priority ages, none at or above the ceiling. -/
def agingThreshold (config : AgingConfig) : Priority → Option Duration
  | .bulk => some config.bulkToLow
  | .low => some config.lowToNormal
  | .normal => some config.normalToHigh
  | .high => if config.highToCriticalEnabled then some config.highToCritical else none
  | .critical => none

/-- The next higher band: `static_cast<Priority>(p - 1)`. -/
def promotedPriority : Priority → Priority
  | .bulk => .low
  | .low => .normal
  | .normal => .high
  | .high | .critical => .critical

/-- `track`: a no-op for an id that is tracked already. -/
def track (a : AgingEngine) (job : Job) (now : TimePoint) : AgingEngine :=
  if (a.mTracked.lookup job.id).isSome then a
  else
    { a with
      mTracked := a.mTracked.insert job.id
        { id := job.id, currentPriority := job.priority, deadline := job.deadline,
          lastBumpAt := now } }

/-- `untrack`: a no-op for an id that is not tracked. -/
def untrack (a : AgingEngine) (id : JobId) : AgingEngine :=
  { a with mTracked := a.mTracked.erase id }

/-- What a tick does with one entry. -/
inductive TickEntry
  | expire
  | promote (newPriority : Priority)
  | keep

def tickEntry (config : AgingConfig) (now : TimePoint) (entry : TrackedJob) : TickEntry :=
  -- expiry comes before aging: an expired job is not promoted by the same tick
  if entry.deadline.any fun d => decide (d ≤ now) then .expire
  else
    match agingThreshold config entry.currentPriority with
    | none => .keep
    | some threshold =>
        if threshold ≤ now - entry.lastBumpAt then .promote (promotedPriority entry.currentPriority)
        else .keep

/-- The entry after a tick, none when it expired. -/
def tickedEntry (config : AgingConfig) (now : TimePoint) (entry : TrackedJob) : Option TrackedJob :=
  match tickEntry config now entry with
  | .expire => none
  | .promote p => some { entry with currentPriority := p, lastBumpAt := now }
  | .keep => some entry

def agedEvent? (config : AgingConfig) (now : TimePoint) (entry : TrackedJob) : Option AgedEvent :=
  match tickEntry config now entry with
  | .promote p => some { id := entry.id, oldPriority := entry.currentPriority, newPriority := p }
  | .expire | .keep => none

def expiredEvent? (config : AgingConfig) (now : TimePoint) (entry : TrackedJob) :
    Option ExpiredEvent :=
  match tickEntry config now entry with
  | .expire => some { id := entry.id, priority := entry.currentPriority }
  | .promote _ | .keep => none

def tick (a : AgingEngine) (now : TimePoint) : TickResult × AgingEngine :=
  let tracked := a.mTracked.entries.map fun e => e.2
  ({ aged := tracked.filterMap (agedEvent? a.mConfig now)
     expired := tracked.filterMap (expiredEvent? a.mConfig now) },
   { a with mTracked := HashMap.pass (fun _ entry => tickedEntry a.mConfig now entry) a.mTracked })

def isTracked (a : AgingEngine) (id : JobId) : Bool := (a.mTracked.lookup id).isSome

/-- The tracked priority, `Normal` for a job that is not tracked. -/
def currentPriority (a : AgingEngine) (id : JobId) : Priority :=
  match a.mTracked.lookup id with
  | some entry => entry.currentPriority
  | none => .normal

/-! ## Who is tracked afterwards -/

theorem isTracked_track (a : AgingEngine) (job : Job) (now : TimePoint) (id : JobId) :
    (a.track job now).isTracked id = true ↔ id = job.id ∨ a.isTracked id = true := by
  unfold track
  split
  · next h =>
      constructor
      · exact Or.inr
      · rintro (rfl | h')
        · exact h
        · exact h'
  · simp only [isTracked, HashMap.lookup_insert_eq]
    split
    · next heq => simp [heq]
    · next hne => simp [hne]

theorem isTracked_untrack (a : AgingEngine) (id id' : JobId) :
    (a.untrack id).isTracked id' = true ↔ id' ≠ id ∧ a.isTracked id' = true := by
  simp only [isTracked, untrack, HashMap.lookup_erase_eq]
  split
  · next heq => simp [heq]
  · next hne => simp [hne]

/-- A tick starts tracking nothing. -/
theorem isTracked_of_tick {a : AgingEngine} {now : TimePoint} {id : JobId}
    (h : (a.tick now).2.isTracked id = true) : a.isTracked id = true := by
  simp only [isTracked, tick, HashMap.lookup_pass] at h ⊢
  cases hl : a.mTracked.lookup id with
  | none => simp [hl] at h
  | some entry => rfl

end AgingEngine

end FatpBalancer
