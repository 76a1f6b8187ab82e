/-
# No starvation

A tracked job without a deadline reaches the ceiling in bounded time, however the ticks are spread.
A late tick throws away what was waited beyond the threshold, and grants one band only; so each band
costs at most its threshold and one gap between ticks, and what is left to climb at that price is a
potential that no tick raises.

`climbTime` is that price and `Climbing` the invariant: at each tick the entry is either where it
comes to rest, or the time that is left until the bound pays for the bands that are left.  The time
within a band and the gap before a tick are charged together, so a late tick is paid by the band it
ends.  The induction is on the ticks, and the bound is a sum over the bands.
-/
import FatpBalancer.AgingRuns
import Mathlib.Algebra.Order.BigOperators.Group.List
import Mathlib.Data.List.Chain
import Mathlib.Tactic.Linarith

namespace FatpBalancer

namespace AgingConfig

/-- The bands from a priority up to the ceiling. -/
def bandsBelow (config : AgingConfig) (p : Priority) : List Priority :=
  [Priority.bulk, .low, .normal, .high].filter fun band =>
    band.value ≤ p.value ∧ config.ceiling.value < band.value

/-- What the bands cost at most, with ticks that are `delta` apart. -/
def climbTime (config : AgingConfig) (delta : Duration) (p : Priority) : Duration :=
  ((config.bandsBelow p).map fun band => config.threshold band + delta).sum

/-- Where a job comes to rest: at the ceiling, unless it began above it. -/
def restsAt (config : AgingConfig) (p : Priority) : Priority :=
  if p.value ≤ config.ceiling.value then p else config.ceiling

variable {config : AgingConfig} {delta : Duration} {p : Priority}

/-- The band that is left comes first. -/
theorem bandsBelow_promoted (h : config.ceiling.value < p.value) :
    config.bandsBelow p = p :: config.bandsBelow (AgingEngine.promotedPriority p) := by
  unfold bandsBelow
  unfold ceiling at h ⊢
  revert h
  cases config.highToCriticalEnabled <;> cases p <;> decide

/-- A promotion pays for its band. -/
theorem climbTime_promoted (h : config.ceiling.value < p.value) :
    config.climbTime delta p =
      config.threshold p + delta + config.climbTime delta (AgingEngine.promotedPriority p) := by
  unfold climbTime
  rw [bandsBelow_promoted h, List.map_cons, List.sum_cons]

/-- No band has a negative price. -/
theorem climbTime_nonneg (hthreshold : ∀ p, 0 ≤ config.threshold p) (hdelta : 0 < delta) :
    0 ≤ config.climbTime delta p := by
  refine List.sum_nonneg fun x hx => ?_
  obtain ⟨band, -, rfl⟩ := List.mem_map.mp hx
  exact add_nonneg (hthreshold band) hdelta.le

/-- A promotion does not change where the job comes to rest. -/
theorem restsAt_promoted (h : config.ceiling.value < p.value) :
    config.restsAt (AgingEngine.promotedPriority p) = config.restsAt p := by
  unfold restsAt
  unfold ceiling at h ⊢
  revert h
  cases config.highToCriticalEnabled <;> cases p <;> decide

/-- Where it rests is no lower than where it is. -/
theorem value_restsAt_le (config : AgingConfig) (p : Priority) :
    (config.restsAt p).value ≤ config.ceiling.value := by
  unfold restsAt
  split
  · assumption
  · exact le_rfl

end AgingConfig

/-- The time of a tick; other operations have none. -/
def AgingOp.tickTime? : AgingOp → Option TimePoint
  | .tick now => some now
  | .track _ _ | .untrack _ => none

namespace AgingEngine

/-- The times of the ticks. -/
def tickTimes (ops : List AgingOp) : List TimePoint := ops.filterMap AgingOp.tickTime?

/-- An entry on its way, `last` being the time of the last tick: it will rest where the job is due
to rest, it can afford the bands that are left, and it has not waited longer than its band asks. -/
structure Climbing (config : AgingConfig) (delta : Duration) (p : Priority) (limit : TimePoint)
    (entry : TrackedJob) (last : TimePoint) : Prop where
  rests : config.restsAt entry.currentPriority = config.restsAt p
  potential : entry.lastBumpAt + config.climbTime delta entry.currentPriority ≤ limit
  waited : config.ceiling.value < entry.currentPriority.value →
    last ≤ entry.lastBumpAt + config.threshold entry.currentPriority

section

variable {config : AgingConfig} {delta : Duration} {p : Priority} {limit last : TimePoint}
  {job : Job} {entry entry' : TrackedJob} {op : AgingOp} {ops : List AgingOp} {rs : List TickReport}

/-- No tick raises the potential, when it comes in time. -/
theorem Climbing.step (hthreshold : ∀ p, 0 ≤ config.threshold p)
    (h : Climbing config delta p limit entry last) (hlife : LifeStep config entry op entry' rs)
    (hgap : ∀ now, op.tickTime? = some now → now - last ≤ delta) :
    Climbing config delta p limit entry' (op.tickTime?.getD last) := by
  cases hlife with
  | pass hop =>
      cases op with
      | track | untrack => exact h
      | tick now => exact absurd rfl (hop now)
  | @keep now hwaits =>
      refine ⟨h.rests, h.potential, fun hbelow => ?_⟩
      have hwait := hwaits hbelow
      show now ≤ _
      linarith
  | @promote now hbelow _ =>
      have hwaited := h.waited hbelow
      have hpotential := h.potential
      have hnow : now - last ≤ delta := hgap now rfl
      rw [AgingConfig.climbTime_promoted hbelow] at hpotential
      refine ⟨(AgingConfig.restsAt_promoted hbelow).trans h.rests, ?_, fun _ => ?_⟩
      · show now + _ ≤ limit
        linarith
      · exact le_add_of_nonneg_right (hthreshold _)

/-- Once the limit is reached, so is the ceiling. -/
theorem Climbing.settled (hthreshold : ∀ p, 0 ≤ config.threshold p) (hdelta : 0 < delta)
    (h : Climbing config delta p limit entry last) (hlate : limit ≤ last) :
    entry.currentPriority = config.restsAt p := by
  rw [← h.rests]
  unfold AgingConfig.restsAt
  split
  · rfl
  · next hbelow =>
      have hbelow := not_le.mp hbelow
      have hwaited := h.waited hbelow
      have hpotential := h.potential
      rw [AgingConfig.climbTime_promoted hbelow] at hpotential
      have hrest := AgingConfig.climbTime_nonneg (p := promotedPriority entry.currentPriority)
        hthreshold hdelta
      linarith

theorem ends_of_ne_untrack (hdeadline : job.deadline = none) (hop : op ≠ .untrack job.id) :
    op.ends job = false := by
  cases op with
  | track job' now => rfl
  | untrack id => exact decide_eq_false fun h => hop (h ▸ rfl)
  | tick now =>
      unfold AgingOp.ends Job.deadlinePassed
      rw [hdeadline]
      rfl

/-- An entry climbs through any operations that keep it, if the ticks are not too far apart. -/
theorem life_climbs (hthreshold : ∀ p, 0 ≤ config.threshold p) (hentry : EntryFor job entry)
    (hops : ∀ op ∈ ops, op.ends job = false)
    (hgap : (last :: tickTimes ops).IsChain fun s t => t - s ≤ delta)
    (h : Climbing config delta p limit entry last) :
    ∃ entry', (life config job.id).after (some entry) ops = some entry' ∧
      Climbing config delta p limit entry' ((tickTimes ops).getLastD last) := by
  induction ops generalizing entry last with
  | nil => exact ⟨entry, rfl, h⟩
  | cons op ops ih =>
      obtain ⟨entry', rs, hlife, hstep, -⟩ :=
        life_step config hentry (hops op (List.mem_cons_self ..))
      have hrest : ∀ op' ∈ ops, op'.ends job = false :=
        fun op' hop' => hops op' (List.mem_cons_of_mem _ hop')
      rw [Emitter.after_cons, hstep]
      unfold tickTimes at hgap ⊢
      cases htime : op.tickTime? with
      | none =>
          rw [List.filterMap_cons_none htime] at hgap ⊢
          have hclimbing := h.step hthreshold hlife fun now hnow => by
            rw [htime] at hnow
            cases hnow
          rw [htime] at hclimbing
          exact ih (hlife.entryFor hentry) hrest hgap hclimbing
      | some now =>
          rw [List.filterMap_cons_some htime] at hgap ⊢
          obtain ⟨hnow, hgap⟩ := List.isChain_cons_cons.mp hgap
          have hclimbing := h.step hthreshold hlife fun now' hnow' => by
            rw [htime] at hnow'
            exact Option.some.inj hnow' ▸ hnow
          rw [htime] at hclimbing
          rw [List.getLastD_cons]
          exact ih (hlife.entryFor hentry) hrest hgap hclimbing

/-- At the ceiling and without a deadline, an entry stays as it is and nothing is reported. -/
theorem life_rests (hentry : EntryFor job entry) (hops : ∀ op ∈ ops, op.ends job = false)
    (hceiling : entry.currentPriority.value ≤ config.ceiling.value) :
    (life config job.id).after (some entry) ops = some entry ∧
      ∀ r ∈ (life config job.id).outputs (some entry) ops, r.Quiet := by
  induction ops with
  | nil => exact ⟨rfl, nofun⟩
  | cons op ops ih =>
      obtain ⟨hafter, hquiet⟩ := ih fun op' hop' => hops op' (List.mem_cons_of_mem _ hop')
      obtain ⟨entry', rs, hlife, hstep, hemit⟩ :=
        life_step config hentry (hops op (List.mem_cons_self ..))
      rw [Emitter.after_cons, Emitter.outputs_cons, hstep, hemit]
      cases hlife with
      | pass => exact ⟨hafter, hquiet⟩
      | keep => exact ⟨hafter, List.forall_mem_cons.mpr ⟨⟨rfl, rfl⟩, hquiet⟩⟩
      | promote hbelow => exact absurd hceiling (not_le.mpr hbelow)

end

section

variable {config : AgingConfig} {delta : Duration} {a : AgingEngine} {job : Job}
  {t0 now : TimePoint} {pre post : List AgingOp}

/-- A tick at the bound or later finds the job at rest. -/
theorem at_rest_by_bound (hthreshold : ∀ p, 0 ≤ config.threshold p) (hdelta : 0 < delta)
    (ha : Filed config a) (hentry : a.mTracked.lookup job.id = some (entryOf job t0))
    (hopen : ∀ op ∈ pre ++ [.tick now], op.ends job = false)
    (hgap : (t0 :: tickTimes (pre ++ [.tick now])).IsChain fun s t => t - s ≤ delta)
    (hlate : t0 + config.climbTime delta job.priority ≤ now) :
    (a.run (pre ++ [.tick now])).isTracked job.id = true ∧
      (a.run (pre ++ [.tick now])).currentPriority job.id = config.restsAt job.priority := by
  have hstart : Climbing config delta job.priority (t0 + config.climbTime delta job.priority)
      (entryOf job t0) t0 := by
    refine ⟨rfl, le_rfl, ?_⟩
    intro _
    exact le_add_of_nonneg_right (hthreshold _)
  obtain ⟨entry, hafter, hclimbing⟩ :=
    life_climbs hthreshold (entryFor_entryOf job t0) hopen hgap hstart
  have htimes : tickTimes (pre ++ [.tick now]) = tickTimes pre ++ [now] := List.filterMap_append
  rw [htimes, List.getLastD_concat] at hclimbing
  rw [← hentry, ← ha.lookup_run] at hafter
  refine ⟨isTracked_of_lookup hafter, ?_⟩
  rw [currentPriority_of_lookup hafter]
  exact hclimbing.settled hthreshold hdelta hlate

/-- A job at rest stays there, without events. -/
theorem stays_at_rest (ha : Filed config a)
    (hentry : a.mTracked.lookup job.id = some (entryOf job t0))
    (hopen : ∀ op ∈ pre ++ post, op.ends job = false)
    (hrest : (a.run pre).currentPriority job.id = config.restsAt job.priority) :
    (a.run (pre ++ post)).isTracked job.id = true ∧
      (a.run (pre ++ post)).currentPriority job.id = config.restsAt job.priority ∧
      ∀ r ∈ (a.run pre).reports job.id post, r.Quiet := by
  have hpre : ∀ op ∈ pre, op.ends job = false := by
    intro op hop
    exact hopen op (List.mem_append_left _ hop)
  have hpost : ∀ op ∈ post, op.ends job = false := by
    intro op hop
    exact hopen op (List.mem_append_right _ hop)
  obtain ⟨entry, -, hafter, -, hfor, -⟩ := life_open config (entryFor_entryOf job t0) hpre
  rw [← hentry, ← ha.lookup_run] at hafter
  have hcurrent := (currentPriority_of_lookup hafter).symm.trans hrest
  have hceiling : entry.currentPriority.value ≤ config.ceiling.value := by
    rw [hcurrent]
    exact config.value_restsAt_le job.priority
  obtain ⟨hlast, hquiet⟩ := life_rests hfor hpost hceiling
  rw [← hafter, ← (ha.run pre).reports_eq] at hquiet
  have hend : (a.run (pre ++ post)).mTracked.lookup job.id = some entry := by
    rw [run_append, (ha.run pre).lookup_run, hafter, hlast]
  exact ⟨isTracked_of_lookup hend, (currentPriority_of_lookup hend).trans hcurrent, hquiet⟩

end

/-- **No starvation.**  A job without a deadline that begins to be tracked at `t0` and is never
untracked rests at the ceiling from the first tick that comes at its bound or later, when no tick
comes more than `delta` after the one before it; and at the ceiling it stays, without events. -/
theorem no_starvation (config : AgingConfig) (hthreshold : ∀ p, 0 ≤ config.threshold p)
    (delta : Duration) (hdelta : 0 < delta) (before ops : List AgingOp) (job : Job) (t0 : TimePoint)
    (hdeadline : job.deadline = none)
    (hnew : ((create config).run before).isTracked job.id = false)
    (hkept : ∀ op ∈ ops, op ≠ .untrack job.id)
    (hgap : (t0 :: tickTimes ops).IsChain fun s t => t - s ≤ delta) :
    let a := (create config).run (before ++ [.track job t0])
    let rest := config.restsAt job.priority
    (∀ pre now post, ops = pre ++ .tick now :: post →
      t0 + config.climbTime delta job.priority ≤ now →
      (a.run (pre ++ [.tick now])).isTracked job.id = true ∧
        (a.run (pre ++ [.tick now])).currentPriority job.id = rest) ∧
    ∀ pre post, ops = pre ++ post → (a.run pre).currentPriority job.id = rest →
      (a.run ops).isTracked job.id = true ∧ (a.run ops).currentPriority job.id = rest ∧
        ∀ r ∈ (a.run pre).reports job.id post, r.Quiet := by
  intro a rest
  have hfiled : Filed config a := (filed_create config).run _
  have hentry : a.mTracked.lookup job.id = some (entryOf job t0) := lookup_run_track hnew t0
  have hopen : ∀ op ∈ ops, op.ends job = false := by
    intro op hop
    exact ends_of_ne_untrack hdeadline (hkept op hop)
  constructor
  · intro pre now post hsplit hlate
    rw [List.append_cons] at hsplit
    subst hsplit
    have hreached : ∀ op ∈ pre ++ [.tick now], op.ends job = false := by
      intro op hop
      exact hopen op (List.mem_append_left _ hop)
    -- the ticks up to this one are a prefix of all ticks
    unfold tickTimes at hgap
    rw [List.filterMap_append, ← List.cons_append] at hgap
    exact at_rest_by_bound hthreshold hdelta hfiled hentry hreached hgap.left_of_append hlate
  · intro pre post hsplit hrest
    subst hsplit
    exact stays_at_rest hfiled hentry hopen hrest

def patientJob : Job := { id := 3, priority := .bulk }

/-- Ticks five apart, each band of ten ending within one of them. -/
def slowTicks : List AgingOp :=
  [.tick 5, .tick 10, .tick 15, .tick 20, .tick 25, .tick 30, .tick 35, .tick 40]

/-- A bulk job rests at `High` after three bands of fifteen. -/
theorem no_starvation_bulk :
    (((create fastConfig).run ([] ++ [.track patientJob 0])).run
      (slowTicks ++ [.tick 45])).currentPriority 3 = .high :=
  ((no_starvation fastConfig (fun p => by cases p <;> decide) 5 (by decide) []
    (slowTicks ++ [.tick 45]) patientJob 0 rfl rfl (by simp [slowTicks]) (by decide)).1
    slowTicks 45 [] rfl (by decide)).2

end AgingEngine

end FatpBalancer
