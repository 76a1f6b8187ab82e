/-
# The life of a tracked job

Runs of the aging engine, and what they report about one job.  The engine is taken apart into
machines of one entry, which shows that the jobs do not influence each other; a tracking period is
then a run of one entry, along which the priorities form a chain of bands.

* `life` is the history of a single entry under the operations of a whole run, and `projects_life`
  says that the engine's entry for a job is the life of that entry: the other jobs drop out.
* `LifeStep` and `life_open` follow an entry that nothing ends: each tick reports one promotion at
  most, and the promotions form a chain of bands, each after its own waiting time.
* `Period` collects what is said of a tracking period: the chain, the band reached, and the end of
  it by an expiry or an `untrack`.
-/
import FatpBalancer.AgingEngine
import FatpBalancer.Lib.Emitter

namespace FatpBalancer

/-! ## Runs

A run is a list of operations, and its reports are those of its ticks, in order. -/

inductive AgingOp
  | track (job : Job) (now : TimePoint)
  | untrack (id : JobId)
  | tick (now : TimePoint)

/-- What a tick reports about one job. -/
structure TickReport where
  time : TimePoint
  aged : List AgedEvent
  expired : List ExpiredEvent
  deriving DecidableEq, Repr

def TickReport.Quiet (r : TickReport) : Prop := r.aged = [] ∧ r.expired = []

/-- At most one event, and no expiry. -/
def TickReport.AtMostOnePromotion (r : TickReport) : Prop := r.aged.length ≤ 1 ∧ r.expired = []

def TickResult.about (r : TickResult) (id : JobId) (now : TimePoint) : TickReport where
  time := now
  aged := r.aged.filter fun e => e.id = id
  expired := r.expired.filter fun e => e.id = id

namespace AgingEngine

/-- A fresh engine. -/
def create (config : AgingConfig) : AgingEngine := { mConfig := config }

def apply (a : AgingEngine) : AgingOp → AgingEngine
  | .track job now => a.track job now
  | .untrack id => a.untrack id
  | .tick now => (a.tick now).2

def run (a : AgingEngine) (ops : List AgingOp) : AgingEngine := ops.foldl apply a

/-- The engine, with what its ticks report about a job. -/
def reporter (id : JobId) : Emitter AgingEngine AgingOp TickReport where
  step := apply
  emit a
    | .track _ _ | .untrack _ => []
    | .tick now => [(a.tick now).1.about id now]

/-- The reports of a run about a job, one for each tick. -/
def reports (a : AgingEngine) (id : JobId) (ops : List AgingOp) : List TickReport :=
  (reporter id).outputs a ops

theorem run_append (a : AgingEngine) (ops ops' : List AgingOp) :
    a.run (ops ++ ops') = (a.run ops).run ops' := List.foldl_append

/-! ## One entry

The map is taken apart by its keys; an entry is filed under its own id, so no operation on one key
touches another. -/

/-- The entry that `track` makes. -/
def entryOf (job : Job) (now : TimePoint) : TrackedJob where
  id := job.id
  currentPriority := job.priority
  deadline := job.deadline
  lastBumpAt := now

/-- What a tick reports about an entry, if there is one. -/
def entryReport (config : AgingConfig) (now : TimePoint) (entry : Option TrackedJob) :
    TickReport where
  time := now
  aged := (entry.bind (agedEvent? config now)).toList
  expired := (entry.bind (expiredEvent? config now)).toList

/-- The entry of one job, under the operations on all jobs. -/
def life (config : AgingConfig) (id : JobId) : Emitter (Option TrackedJob) AgingOp TickReport where
  step entry
    | .track job now =>
        if id = job.id then some (entry.getD (entryOf job now)) else entry
    | .untrack id' => if id = id' then none else entry
    | .tick now => entry.bind (tickedEntry config now)
  emit entry
    | .track _ _ | .untrack _ => []
    | .tick now => [entryReport config now entry]

/-- Every entry has the id that it is filed under. -/
structure Filed (config : AgingConfig) (a : AgingEngine) : Prop where
  mConfig : a.mConfig = config
  id_eq : ∀ id entry, a.mTracked.lookup id = some entry → entry.id = id

theorem filed_create (config : AgingConfig) : Filed config (create config) where
  mConfig := rfl
  id_eq _ _ h := by cases h

theorem tickedEntry_id {config : AgingConfig} {now : TimePoint} {entry entry' : TrackedJob}
    (h : tickedEntry config now entry = some entry') : entry'.id = entry.id := by
  unfold tickedEntry at h
  split at h <;> cases h <;> rfl

theorem agedEvent?_id {config : AgingConfig} {now : TimePoint} {entry : TrackedJob} {e : AgedEvent}
    (h : agedEvent? config now entry = some e) : e.id = entry.id := by
  unfold agedEvent? at h
  split at h <;> cases h
  rfl

theorem expiredEvent?_id {config : AgingConfig} {now : TimePoint} {entry : TrackedJob}
    {e : ExpiredEvent} (h : expiredEvent? config now entry = some e) : e.id = entry.id := by
  unfold expiredEvent? at h
  split at h <;> cases h
  rfl

theorem lookup_track (a : AgingEngine) (job : Job) (now : TimePoint) (id : JobId) :
    (a.track job now).mTracked.lookup id =
      if id = job.id then some ((a.mTracked.lookup id).getD (entryOf job now))
      else a.mTracked.lookup id := by
  unfold track
  split
  · next h =>
      split
      · next heq =>
          obtain ⟨entry, hentry⟩ := Option.isSome_iff_exists.mp h
          rw [heq, hentry]
          rfl
      · rfl
  · next h =>
      rw [HashMap.lookup_insert_eq]
      split
      · next heq =>
          rw [heq, Option.not_isSome_iff_eq_none.mp h]
          rfl
      · rfl

theorem about_tick {config : AgingConfig} {a : AgingEngine} (h : Filed config a) (now : TimePoint)
    (id : JobId) :
    (a.tick now).1.about id now = entryReport config now (a.mTracked.lookup id) := by
  have hentry : ∀ e ∈ a.mTracked.entries, e.2.id = e.1 := by
    intro e he
    exact h.id_eq e.1 e.2 (AList.mem_lookup_iff.mpr he)
  unfold TickResult.about entryReport tick
  rw [h.mConfig]
  congr 1
  · exact HashMap.filter_filterMap_dlookup (agedEvent? config now) AgedEvent.id _
      a.mTracked.nodupKeys (fun e he w hw => (agedEvent?_id hw).trans (hentry e he)) id
  · exact HashMap.filter_filterMap_dlookup (expiredEvent? config now) ExpiredEvent.id _
      a.mTracked.nodupKeys (fun e he w hw => (expiredEvent?_id hw).trans (hentry e he)) id

theorem Filed.apply {config : AgingConfig} {a : AgingEngine} (h : Filed config a) (op : AgingOp) :
    Filed config (a.apply op) := by
  cases op with
  | track job now =>
      refine ⟨?_, fun id entry hentry => ?_⟩
      · simp only [AgingEngine.apply, track]
        split <;> exact h.mConfig
      · rw [AgingEngine.apply, lookup_track] at hentry
        split at hentry
        · next heq =>
            obtain rfl := Option.some.inj hentry
            cases hold : a.mTracked.lookup id with
            | none => exact heq.symm
            | some entry => exact h.id_eq id entry hold
        · exact h.id_eq id entry hentry
  | untrack id =>
      refine ⟨h.mConfig, fun id' entry hentry => ?_⟩
      simp only [AgingEngine.apply, untrack, HashMap.lookup_erase_eq] at hentry
      split at hentry
      · cases hentry
      · exact h.id_eq id' entry hentry
  | tick now =>
      refine ⟨h.mConfig, fun id entry hentry => ?_⟩
      simp only [AgingEngine.apply, tick, HashMap.lookup_pass] at hentry
      obtain ⟨old, hold, hentry⟩ := Option.bind_eq_some_iff.mp hentry
      rw [tickedEntry_id hentry]
      exact h.id_eq id old hold

/-- **An entry lives on its own.**  The engine read at one id is the machine of one entry. -/
theorem projects_life (config : AgingConfig) (id : JobId) :
    Emitter.Projects (reporter id) (life config id) (Filed config) fun a => a.mTracked.lookup id where
  keeps _ op h := h.apply op
  step a op h := by
    cases op with
    | track job now => exact lookup_track a job now id
    | untrack id' => exact HashMap.lookup_erase_eq id' id a.mTracked
    | tick now =>
        simp only [reporter, apply, tick, HashMap.lookup_pass, life, h.mConfig]
  emit a op h := by
    cases op with
    | track | untrack => rfl
    | tick now => exact congrArg ([·]) (about_tick h now id)

section

variable {config : AgingConfig} {a : AgingEngine}

theorem Filed.run (ha : Filed config a) (ops : List AgingOp) : Filed config (a.run ops) :=
  Emitter.after_invariant (M := reporter 0) (fun _ op _ h => h.apply op) ha

theorem Filed.lookup_run (ha : Filed config a) (id : JobId) (ops : List AgingOp) :
    (a.run ops).mTracked.lookup id = (life config id).after (a.mTracked.lookup id) ops :=
  (projects_life config id).after ha ops

theorem Filed.reports_eq (ha : Filed config a) (id : JobId) (ops : List AgingOp) :
    a.reports id ops = (life config id).outputs (a.mTracked.lookup id) ops :=
  (projects_life config id).outputs ha ops

end

end AgingEngine

/-! ## Other jobs

Leaving out the operations on other jobs changes nothing for a job. -/

/-- The operation is a tick, or is about the job. -/
def AgingOp.concerns (id : JobId) : AgingOp → Bool
  | .track job _ => id = job.id
  | .untrack id' => id = id'
  | .tick _ => true

namespace AgingEngine

theorem life_ignores (config : AgingConfig) (id : JobId) :
    (life config id).Ignores (AgingOp.concerns id) := by
  intro entry op hop
  cases op with
  | track job now => exact ⟨if_neg (of_decide_eq_false hop), rfl⟩
  | untrack id' => exact ⟨if_neg (of_decide_eq_false hop), rfl⟩
  | tick now => cases hop

/-- The two runs treat a job alike: they say the same about it, tick by tick and in the end. -/
structure SameFor (id : JobId) (config : AgingConfig) (ops ops' : List AgingOp) : Prop where
  reports : (create config).reports id ops = (create config).reports id ops'
  isTracked : ((create config).run ops).isTracked id = ((create config).run ops').isTracked id
  currentPriority : ((create config).run ops).currentPriority id =
    ((create config).run ops').currentPriority id

/-- **What happens to a job depends on the ticks and on its own operations alone.** -/
theorem sameFor_of_concerns {config : AgingConfig} {id : JobId} {ops ops' : List AgingOp}
    (h : ops.filter (AgingOp.concerns id) = ops'.filter (AgingOp.concerns id)) :
    SameFor id config ops ops' := by
  have hfiled := filed_create config
  have hignores := life_ignores config id
  have hlookup : ((create config).run ops).mTracked.lookup id =
      ((create config).run ops').mTracked.lookup id := by
    rw [hfiled.lookup_run, hfiled.lookup_run, ← hignores.after_filter, h, hignores.after_filter]
  refine ⟨?_, ?_, ?_⟩
  · rw [hfiled.reports_eq, hfiled.reports_eq, ← hignores.outputs_filter, h,
      hignores.outputs_filter]
  · unfold isTracked
    rw [hlookup]
  · unfold currentPriority
    rw [hlookup]

end AgingEngine

/-! ## Bands -/

namespace AgingConfig

/-- The highest band that aging leads to. -/
def ceiling (config : AgingConfig) : Priority :=
  if config.highToCriticalEnabled then .critical else .high

/-- The waiting time of a band, which `Critical` does not have. -/
def threshold (config : AgingConfig) : Priority → Duration
  | .bulk => config.bulkToLow
  | .low => config.lowToNormal
  | .normal => config.normalToHigh
  | .high => config.highToCritical
  | .critical => 0

end AgingConfig

namespace AgingEngine

theorem agingThreshold_eq (config : AgingConfig) (p : Priority) :
    agingThreshold config p =
      if config.ceiling.value < p.value then some (config.threshold p) else none := by
  unfold AgingConfig.ceiling
  cases p <;> cases h : config.highToCriticalEnabled <;>
    simp [agingThreshold, AgingConfig.threshold, Priority.value, h]

/-- A promotion is by one band. -/
theorem value_promotedPriority {p : Priority} (h : 0 < p.value) :
    (promotedPriority p).value + 1 = p.value := by
  cases p with
  | critical => exact absurd h (Nat.lt_irrefl 0)
  | high | normal | low | bulk => rfl

/-- What a tick does with the entry of a job, and when. -/
theorem tickEntry_cases (config : AgingConfig) (now : TimePoint) {job : Job} {entry : TrackedJob}
    (hdeadline : entry.deadline = job.deadline) :
    (job.deadlinePassed now = true ∧ tickEntry config now entry = .expire) ∨
    (job.deadlinePassed now = false ∧ config.ceiling.value < entry.currentPriority.value ∧
      config.threshold entry.currentPriority ≤ now - entry.lastBumpAt ∧
      tickEntry config now entry = .promote (promotedPriority entry.currentPriority)) ∨
    (job.deadlinePassed now = false ∧
      (config.ceiling.value < entry.currentPriority.value →
        now - entry.lastBumpAt < config.threshold entry.currentPriority) ∧
      tickEntry config now entry = .keep) := by
  unfold tickEntry Job.deadlinePassed
  rw [agingThreshold_eq, hdeadline]
  split
  · next hdue => exact Or.inl ⟨hdue, rfl⟩
  · next hdue =>
      have hdue := Bool.eq_false_iff.mpr hdue
      by_cases hbelow : config.ceiling.value < entry.currentPriority.value
      · rw [if_pos hbelow]
        by_cases hwaited : config.threshold entry.currentPriority ≤ now - entry.lastBumpAt
        · exact Or.inr (Or.inl ⟨hdue, hbelow, hwaited, if_pos hwaited⟩)
        · exact Or.inr (Or.inr ⟨hdue, fun _ => not_le.mp hwaited, if_neg hwaited⟩)
      · rw [if_neg hbelow]
        exact Or.inr (Or.inr ⟨hdue, fun h => absurd h hbelow, rfl⟩)

end AgingEngine

/-! ## The period of one entry

From its `track` on, over operations that do not end it. -/

/-- The operation ends the period of a tracked job: it is untracked, or a tick comes at or after its
deadline. -/
def AgingOp.ends (job : Job) : AgingOp → Bool
  | .track _ _ => false
  | .untrack id => job.id = id
  | .tick now => job.deadlinePassed now

namespace AgingEngine

/-- What an operation that ends nothing does with an entry, and what is reported. -/
inductive LifeStep (config : AgingConfig) (entry : TrackedJob) :
    AgingOp → TrackedJob → List TickReport → Prop
  | pass {op : AgingOp} : (∀ now, op ≠ .tick now) → LifeStep config entry op entry []
  | keep {now : TimePoint} :
      (config.ceiling.value < entry.currentPriority.value →
        now - entry.lastBumpAt < config.threshold entry.currentPriority) →
      LifeStep config entry (.tick now) entry [{ time := now, aged := [], expired := [] }]
  | promote {now : TimePoint} :
      config.ceiling.value < entry.currentPriority.value →
      config.threshold entry.currentPriority ≤ now - entry.lastBumpAt →
      LifeStep config entry (.tick now)
        { entry with
          currentPriority := promotedPriority entry.currentPriority, lastBumpAt := now }
        [{ time := now
           aged := [{ id := entry.id, oldPriority := entry.currentPriority,
                      newPriority := promotedPriority entry.currentPriority }]
           expired := [] }]

/-- The entry belongs to the job. -/
structure EntryFor (job : Job) (entry : TrackedJob) : Prop where
  id : entry.id = job.id
  deadline : entry.deadline = job.deadline

theorem entryFor_entryOf (job : Job) (now : TimePoint) : EntryFor job (entryOf job now) := ⟨rfl, rfl⟩

section

variable {config : AgingConfig} {job : Job} {entry : TrackedJob}

theorem LifeStep.entryFor {op : AgingOp} {entry' : TrackedJob} {rs : List TickReport}
    (h : LifeStep config entry op entry' rs) (hentry : EntryFor job entry) : EntryFor job entry' := by
  cases h with
  | pass | keep => exact hentry
  | promote => exact ⟨hentry.id, hentry.deadline⟩

variable (config) in
theorem life_step (hentry : EntryFor job entry) {op : AgingOp} (hop : op.ends job = false) :
    ∃ entry' rs, LifeStep config entry op entry' rs ∧
      (life config job.id).step (some entry) op = some entry' ∧
      (life config job.id).emit (some entry) op = rs := by
  cases op with
  | track job' now =>
      refine ⟨entry, [], .pass nofun, ?_, rfl⟩
      simp only [life, Option.getD_some, ite_self]
  | untrack id => exact ⟨entry, [], .pass nofun, if_neg (of_decide_eq_false hop), rfl⟩
  | tick now =>
      rcases tickEntry_cases config now hentry.deadline with
        ⟨hdue, -⟩ | ⟨-, hbelow, hwaited, htick⟩ | ⟨-, hwaits, htick⟩
      · exact absurd hdue (Bool.eq_false_iff.mp hop)
      · refine ⟨_, _, .promote hbelow hwaited, ?_, ?_⟩
        · simp only [life, Option.bind_some, tickedEntry, htick]
        · simp only [life, entryReport, Option.bind_some, agedEvent?, expiredEvent?, htick,
            Option.toList_some, Option.toList_none]
      · refine ⟨_, _, .keep hwaits, ?_, ?_⟩
        · simp only [life, Option.bind_some, tickedEntry, htick]
        · simp only [life, entryReport, Option.bind_some, agedEvent?, expiredEvent?, htick,
            Option.toList_none]

/-- The tick that ends a period expires the entry and reports nothing else. -/
theorem life_expire (hentry : EntryFor job entry) {now : TimePoint}
    (hdue : job.deadlinePassed now = true) :
    (life config job.id).step (some entry) (.tick now) = none ∧
      (life config job.id).emit (some entry) (.tick now) =
        [{ time := now
           aged := []
           expired := [{ id := job.id, priority := entry.currentPriority }] }] := by
  rcases tickEntry_cases config now hentry.deadline with ⟨-, htick⟩ | ⟨hnot, -⟩ | ⟨hnot, -⟩
  · refine ⟨?_, ?_⟩
    · simp only [life, Option.bind_some, tickedEntry, htick]
    · simp only [life, entryReport, Option.bind_some, agedEvent?, expiredEvent?, htick,
        Option.toList_some, Option.toList_none, hentry.id]
  · exact absurd hdue (Bool.eq_false_iff.mp hnot)
  · exact absurd hdue (Bool.eq_false_iff.mp hnot)

end

/-- Until it is tracked, nothing is reported about a job. -/
theorem life_none (config : AgingConfig) {id : JobId} {ops : List AgingOp}
    (h : ∀ job now, .track job now ∈ ops → job.id ≠ id) :
    (life config id).after none ops = none ∧
      ∀ r ∈ (life config id).outputs none ops, r.Quiet := by
  induction ops with
  | nil => exact ⟨rfl, nofun⟩
  | cons op ops ih =>
      have hrest := ih fun job now hmem => h job now (List.mem_cons_of_mem _ hmem)
      have hstep : (life config id).step none op = none := by
        cases op with
        | track job now => exact if_neg (Ne.symm (h job now (List.mem_cons_self ..)))
        | untrack id' => exact ite_self _
        | tick now => rfl
      have hemit : ∀ r ∈ (life config id).emit none op, r.Quiet := by
        cases op with
        | track | untrack => exact nofun
        | tick now =>
            intro r hr
            obtain rfl := List.mem_singleton.mp hr
            exact ⟨rfl, rfl⟩
      rw [Emitter.after_cons, Emitter.outputs_cons, hstep]
      refine ⟨hrest.1, fun r hr => ?_⟩
      rcases List.mem_append.mp hr with hr | hr
      · exact hemit r hr
      · exact hrest.2 r hr

/-! ## The chain of promotions

Each promotion begins where the last one ended, and no sooner than the threshold of its band allows.
-/

/-- The promotions in the reports, with their times. -/
def promotions (reports : List TickReport) : List (TimePoint × AgedEvent) :=
  reports.flatMap fun r => r.aged.map fun e => (r.time, e)

/-- Each promotion starts where the one before it ended, goes up by one band and not past the
ceiling, and comes after the waiting time of the band it leaves. -/
def PromotionChain (config : AgingConfig) (id : JobId) :
    Priority → TimePoint → List (TimePoint × AgedEvent) → Prop
  | _, _, [] => True
  | p, since, (time, e) :: rest =>
      (e.id = id ∧ e.oldPriority = p ∧ e.newPriority.value + 1 = p.value ∧
        config.ceiling.value ≤ e.newPriority.value ∧ config.threshold p ≤ time - since) ∧
      PromotionChain config id e.newPriority time rest

/-- Where a chain that starts at a priority ends. -/
def chainEnd (p : Priority) (chain : List (TimePoint × AgedEvent)) : Priority :=
  chain.foldl (fun _ e => e.2.newPriority) p

section

variable {config : AgingConfig} {job : Job} {entry : TrackedJob}

variable (config) in
/-- The entry of a job while nothing ends its period. -/
theorem life_open (hentry : EntryFor job entry) {ops : List AgingOp}
    (hops : ∀ op ∈ ops, op.ends job = false) :
    ∃ entry' reports, (life config job.id).after (some entry) ops = some entry' ∧
      (life config job.id).outputs (some entry) ops = reports ∧ EntryFor job entry' ∧
      (∀ r ∈ reports, r.AtMostOnePromotion) ∧
      PromotionChain config job.id entry.currentPriority entry.lastBumpAt (promotions reports) ∧
      entry'.currentPriority = chainEnd entry.currentPriority (promotions reports) := by
  induction ops generalizing entry with
  | nil => exact ⟨entry, [], rfl, rfl, hentry, nofun, trivial, rfl⟩
  | cons op ops ih =>
      obtain ⟨entry', rs, hlife, hstep, hemit⟩ :=
        life_step config hentry (hops op (List.mem_cons_self ..))
      obtain ⟨last, reports, hafter, houtputs, hlast, hreports, hchain, hend⟩ :=
        ih (hlife.entryFor hentry) fun op' hop' => hops op' (List.mem_cons_of_mem _ hop')
      rw [Emitter.after_cons, Emitter.outputs_cons, hstep, hemit, houtputs]
      refine ⟨last, rs ++ reports, hafter, rfl, hlast, ?_, ?_⟩
      · intro r hr
        rcases List.mem_append.mp hr with hr | hr
        · cases hlife with
          | pass => cases hr
          | keep | promote =>
              obtain rfl := List.mem_singleton.mp hr
              exact ⟨by simp, rfl⟩
        · exact hreports r hr
      · cases hlife with
        | pass | keep => exact ⟨hchain, hend⟩
        | promote hbelow hwaited =>
            have hvalue := value_promotedPriority (Nat.lt_of_le_of_lt (Nat.zero_le _) hbelow)
            have hceiling : config.ceiling.value ≤
                (promotedPriority entry.currentPriority).value := by omega
            exact ⟨⟨⟨hentry.id, rfl, hvalue, hceiling, hwaited⟩, hchain⟩, hend⟩

end

/-! ## The period of a job

The same, read off the engine instead of the entry. -/

/-- A period of a job in an engine `a` that has just begun to track it at `t0`, over operations that
do not end it, and beyond. -/
structure Period (config : AgingConfig) (a : AgingEngine) (job : Job) (t0 : TimePoint)
    (ops : List AgingOp) : Prop where
  -- no tick reports an expiry, or more than one promotion
  single : ∀ r ∈ a.reports job.id ops, r.AtMostOnePromotion
  chain : PromotionChain config job.id job.priority t0 (promotions (a.reports job.id ops))
  isTracked : (a.run ops).isTracked job.id = true
  currentPriority : (a.run ops).currentPriority job.id =
    chainEnd job.priority (promotions (a.reports job.id ops))
  -- the tick that ends the period reports the expiry alone
  expires : ∀ now, job.deadlinePassed now = true →
    (a.run ops).reports job.id [.tick now] =
      [{ time := now
         aged := []
         expired := [{ id := job.id, priority := (a.run ops).currentPriority job.id }] }]
  -- after the end the job is not tracked, and nothing is reported, until it is tracked anew
  silent : ∀ op rest, op.ends job = true → (∀ job' now, .track job' now ∈ rest → job'.id ≠ job.id) →
    (a.run (ops ++ op :: rest)).isTracked job.id = false ∧
      ∀ r ∈ (a.run (ops ++ [op])).reports job.id rest, r.Quiet

section

variable {config : AgingConfig} {job : Job} {entry : TrackedJob} {a : AgingEngine}

theorem isTracked_of_lookup {id : JobId} (h : a.mTracked.lookup id = some entry) :
    a.isTracked id = true := by
  unfold AgingEngine.isTracked
  rw [h]
  rfl

theorem isTracked_of_lookup_none {id : JobId} (h : a.mTracked.lookup id = none) :
    a.isTracked id = false := by
  unfold AgingEngine.isTracked
  rw [h]
  rfl

theorem currentPriority_of_lookup {id : JobId} (h : a.mTracked.lookup id = some entry) :
    a.currentPriority id = entry.currentPriority := by
  unfold AgingEngine.currentPriority
  rw [h]

/-- The operation that ends a period leaves no entry. -/
theorem life_ends (hentry : EntryFor job entry) {op : AgingOp} (hop : op.ends job = true) :
    (life config job.id).step (some entry) op = none := by
  cases op with
  | track job' now => cases hop
  | untrack id => exact if_pos (of_decide_eq_true hop)
  | tick now => exact (life_expire hentry hop).1

/-- An engine that has just begun to track a job. -/
theorem period_of_filed (ha : Filed config a) {t0 : TimePoint}
    (hentry : a.mTracked.lookup job.id = some (entryOf job t0)) {ops : List AgingOp}
    (hops : ∀ op ∈ ops, op.ends job = false) : Period config a job t0 ops := by
  obtain ⟨last, reports, hafter, hreports, hlast, hsingle, hchain, hend⟩ :=
    life_open config (entryFor_entryOf job t0) hops
  rw [← hentry, ← ha.lookup_run] at hafter
  rw [← hentry, ← ha.reports_eq] at hreports
  subst hreports
  have hcurrent := currentPriority_of_lookup hafter
  refine ⟨hsingle, hchain, isTracked_of_lookup hafter, hcurrent.trans hend, fun now hdue => ?_,
    fun op rest hop hrest => ?_⟩
  · rw [(ha.run ops).reports_eq, hafter, hcurrent, Emitter.outputs_cons,
      (life_expire hlast hdue).2]
    rfl
  · have hended : (a.run (ops ++ [op])).mTracked.lookup job.id = none := by
      rw [run_append, (ha.run ops).lookup_run, hafter, Emitter.after_cons,
        life_ends hlast hop]
      rfl
    have hnone := life_none config hrest
    refine ⟨isTracked_of_lookup_none ?_, ?_⟩
    · rw [← List.singleton_append, ← List.append_assoc, run_append,
        (ha.run (ops ++ [op])).lookup_run, hended, hnone.1]
    · rw [(ha.run (ops ++ [op])).reports_eq, hended]
      exact hnone.2

end

/-- An effective `track`. -/
theorem lookup_run_track {config : AgingConfig} {before : List AgingOp} {job : Job}
    (hnew : ((create config).run before).isTracked job.id = false) (t0 : TimePoint) :
    ((create config).run (before ++ [.track job t0])).mTracked.lookup job.id =
      some (entryOf job t0) := by
  have hnone : ((create config).run before).mTracked.lookup job.id = none :=
    Option.not_isSome_iff_eq_none.mp (Bool.eq_false_iff.mp hnew)
  rw [run_append]
  refine (lookup_track _ job t0 job.id).trans ?_
  rw [if_pos rfl, hnone]
  rfl

/-- **The life of a tracked job.**  In every run, a job that begins to be tracked climbs band by band
until its period ends, and what happens to it depends on the ticks and its own operations alone. -/
theorem aging_period (config : AgingConfig) (before ops : List AgingOp) (job : Job) (t0 : TimePoint)
    (hnew : ((create config).run before).isTracked job.id = false)
    (hops : ∀ op ∈ ops, op.ends job = false) :
    Period config ((create config).run (before ++ [.track job t0])) job t0 ops ∧
      ∀ ops', ops'.filter (AgingOp.concerns job.id) =
          (before ++ .track job t0 :: ops).filter (AgingOp.concerns job.id) →
        SameFor job.id config ops' (before ++ .track job t0 :: ops) := by
  refine ⟨?_, fun ops' h => sameFor_of_concerns h⟩
  exact period_of_filed ((filed_create config).run _) (lookup_run_track hnew t0) hops

/-- Ten clock ticks in every band. -/
def fastConfig : AgingConfig :=
  { bulkToLow := 10, lowToNormal := 10, normalToHigh := 10, highToCritical := 10 }

def bulkJob : Job := { id := 12, priority := .bulk, deadline := some 30 }

/-- Ticks before the deadline, another job, and a second `track`. -/
def bulkOps : List AgingOp :=
  [.tick 10, .track { id := 7 } 11, .untrack 7, .tick 15, .track bulkJob 16, .tick 20]

/-- A bulk job through two bands. -/
theorem aging_period_bulk :
    Period fastConfig ((create fastConfig).run ([.track { id := 7 } 0] ++ [.track bulkJob 0]))
      bulkJob 0 bulkOps :=
  (aging_period fastConfig [.track { id := 7 } 0] bulkOps bulkJob 0 (by decide) (by decide)).1

end AgingEngine

end FatpBalancer
