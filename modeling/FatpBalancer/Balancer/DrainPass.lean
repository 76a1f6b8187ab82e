/-
# One pass of the drain loop

The inner loop takes the entries in the order in which the queue serves them.  It drops an entry that
is past its deadline or out of retries, goes on after an entry that it has placed, and stops at the
first one that it can do neither with, which it puts back.  What stands behind that entry is not
looked at.

`Pass` is a run up to the end of the pass, with the decisions of the environment collected on the
way: clocks, metrics, the policy's answers and the nodes'.  `fate` computes from these what becomes
of an entry, and `StopsClean` says in these terms that the pass stops at no entry with a dead one
behind it.

The equivalence is proved step by step, backwards: `LeavesClean` is what the rest of a pass has to
meet at each program counter of the drain thread, and every step takes it on unchanged.
-/
import FatpBalancer.Balancer.Flood
import FatpBalancer.Balancer.History
import FatpBalancer.Balancer.Holding

universe u

namespace FatpBalancer

open Machine

variable {F : Type u} [FloatOps F] {cfg : BalancerConfig F} {ev : Event} {s s' : State F}

/-! ## A pass

Other threads may go on during the pass: store new jobs, cancel held ones, finish jobs on nodes.
-/

/-- What the environment decides for the loop: the clock and the metrics at the head of an
iteration, the answer of the policy, the answer of the node. -/
inductive Decision
  | check (now : TimePoint) (metrics : List LoadMetrics)
  | choose (selected : Option NodeId)
  | offer (accepted : Option JobHandle)

/-- What this event decides for the loop. -/
def State.decides (s : State F) (ev : Event) : List Decision :=
  match ev.actor, s.drain with
  | .drain, .entry _ => [.check ev.input.now ev.input.metrics]
  | .drain, .select _ => [.choose ev.input.selected]
  | .drain, .nodeSubmit _ _ => [.offer ev.input.accepted]
  | _, _ => []

/-- A run of the balancer up to the end of the pass, with what was decided on the way.  The clock
reads `t` or later, and the other threads leave the queue as it is. -/
inductive Pass (cfg : BalancerConfig F) (t : TimePoint) : State F → List Decision → State F → Prop
  | ends {s : State F} (hpc : s.drain = .waiting) : Pass cfg t s [] s
  | goesOn {s s₁ s' : State F} {ds : List Decision} (ev : Event) (hbusy : s.drain ≠ .waiting)
      (hclock : ev.actor = .drain → t ≤ ev.input.now)
      (hqueue : ev.actor ≠ .drain → s₁.m.mHoldingQueue = s.m.mHoldingQueue)
      (hstep : step cfg s ev = some s₁) (hrest : Pass cfg t s₁ ds s') :
      Pass cfg t s (s.decides ev ++ ds) s'

/-- The deadline has come, or the retries are used up. -/
def Dead (cfg : BalancerConfig F) (t : TimePoint) (e : HeldEntry) : Prop :=
  e.job.deadlinePassed t = true ∨
    (0 < cfg.holdingQueue.maxRetries ∧ cfg.holdingQueue.maxRetries ≤ e.job.holdRetries)

instance (cfg : BalancerConfig F) (t : TimePoint) (e : HeldEntry) : Decidable (Dead cfg t e) :=
  inferInstanceAs (Decidable (_ ∨ _))

def NoneDead (cfg : BalancerConfig F) (t : TimePoint) (entries : List HeldEntry) : Prop :=
  ∀ e ∈ entries, ¬Dead cfg t e

/-! ## Where a pass stops

An entry is dropped, placed, or put back, and when it is put back the pass is over. -/

/-- What becomes of an entry that the pass takes. -/
inductive Fate
  | swept
  | placed
  /-- put back without an attempt, and the pass stops -/
  | skipped
  /-- put back after a failed attempt, and the pass stops -/
  | failed

def offerFate : List Decision → Fate × List Decision
  | .offer (some _) :: ds => (.placed, ds)
  | ds => (.failed, ds.tail)

def chooseFate (cfg : BalancerConfig F) : List Decision → Fate × List Decision
  | .choose selected :: ds =>
      if (selected.bind (findNode cfg)).isSome then offerFate ds else (.failed, ds)
  | ds => (.failed, ds)

/-- The fate of the entry, by the decisions to come. -/
def fate (cfg : BalancerConfig F) (e : HeldEntry) : List Decision → Fate × List Decision
  | .check now metrics :: ds =>
      if Dead cfg now e then (.swept, ds)
      else if areAllEligibleOverloaded metrics e.job.priority then (.skipped, ds)
      else chooseFate cfg ds
  | ds => (.failed, ds)

/-- One more failed attempt is one too many. -/
def LastAttempt (cfg : BalancerConfig F) (e : HeldEntry) : Prop :=
  0 < cfg.holdingQueue.maxRetries ∧
    cfg.holdingQueue.maxRetries ≤ fetchAdd32 e.job.holdRetries

/-- The pass does not stop short of a dead entry: none stands behind the entry at which it stops,
and this entry does not die of the attempt. -/
def StopsClean (cfg : BalancerConfig F) (t : TimePoint) :
    List HeldEntry → List Decision → Prop
  | [], _ => True
  | e :: rest, ds =>
      match fate cfg e ds with
      | (.swept, ds) | (.placed, ds) => StopsClean cfg t rest ds
      | (.skipped, _) => NoneDead cfg t rest
      | (.failed, _) => NoneDead cfg t rest ∧ ¬LastAttempt cfg e

/-- The same, with the entry in hand and its fate known. -/
def FateClean (cfg : BalancerConfig F) (t : TimePoint) (e : HeldEntry) (rest : List HeldEntry) :
    Fate × List Decision → Prop
  | (.swept, ds) | (.placed, ds) => StopsClean cfg t rest ds
  | (.skipped, _) => NoneDead cfg t rest
  | (.failed, _) => NoneDead cfg t rest ∧ ¬LastAttempt cfg e

theorem stopsClean_cons {t : TimePoint} {e : HeldEntry} {rest : List HeldEntry}
    {ds : List Decision} :
    StopsClean cfg t (e :: rest) ds ↔ FateClean cfg t e rest (fate cfg e ds) := by
  rw [StopsClean]
  rcases fate cfg e ds with ⟨_ | _ | _ | _, ds⟩ <;> rfl

/-! ## One step of a pass

The condition before the step is equivalent to the condition after it, on the decisions that are
left. -/

theorem deadlinePassed_mono {job : Job} {t now : TimePoint} (hclock : t ≤ now)
    (h : job.deadlinePassed t = true) : job.deadlinePassed now = true := by
  unfold Job.deadlinePassed at h ⊢
  obtain ⟨deadline, hdeadline, hpassed⟩ := (Option.any_eq_true _ _).mp h
  refine (Option.any_eq_true _ _).mpr ⟨deadline, hdeadline, ?_⟩
  have hpassed := of_decide_eq_true hpassed
  exact decide_eq_true (hpassed.trans hclock)

theorem not_dead_of_later {t now : TimePoint} {e : HeldEntry} (hclock : t ≤ now)
    (h : ¬Dead cfg now e) : ¬Dead cfg t e := by
  rintro (hpassed | hretries)
  · exact h (Or.inl (deadlinePassed_mono hclock hpassed))
  · exact h (Or.inr hretries)

theorem noneDead_cons {t : TimePoint} {e : HeldEntry} {rest : List HeldEntry} :
    NoneDead cfg t (e :: rest) ↔ ¬Dead cfg t e ∧ NoneDead cfg t rest :=
  List.forall_mem_cons

theorem dead_retryEntry {t : TimePoint} {e : HeldEntry}
    (hlive : e.job.deadlinePassed t = false) :
    Dead cfg t (retryEntry e) ↔ LastAttempt cfg e := by
  have hsame : (retryEntry e).job.deadlinePassed t = false := hlive
  unfold Dead LastAttempt
  rw [hsame]
  simp [retryEntry]

/-- The drain thread has no entry in hand: it is at the head of the loop or on its way there. -/
def DrainPc.between : DrainPc → Bool
  | .looping | .dropRelease _ | .dropping _ | .releaseSlot _ | .register _ => true
  | _ => false

/-- The deadline of an entry under attempt was still to come. -/
def InTime (t : TimePoint) (s : State F) : Prop :=
  ∀ e ∈ s.drain.attempting, e.job.deadlinePassed t = false

/-- What the rest of the pass has to meet, at each program counter of the drain thread. -/
def LeavesClean (cfg : BalancerConfig F) (t : TimePoint) (s : State F) (ds : List Decision) :
    Prop :=
  let rest := s.m.mHoldingQueue.entries
  match s.drain with
  | .waiting => NoneDead cfg t rest
  | .looping | .dropRelease _ | .dropping _ | .releaseSlot _ | .register _ =>
      StopsClean cfg t rest ds
  | .entry e => StopsClean cfg t (e :: rest) ds
  | .select e => FateClean cfg t e rest (chooseFate cfg ds)
  | .nodeSubmit _ e => FateClean cfg t e rest (offerFate ds)
  | .requeue e => NoneDead cfg t (e :: rest)

theorem leavesClean_between {t : TimePoint} {ds : List Decision}
    (hpc : s.drain.between = true) :
    LeavesClean cfg t s ds ↔ StopsClean cfg t s.m.mHoldingQueue.entries ds := by
  unfold LeavesClean
  cases h : s.drain <;> rw [h] at hpc <;> first | rfl | cases hpc

theorem inTime_between {t : TimePoint} (hpc : s.drain.between = true) : InTime t s := by
  intro e he
  cases h : s.drain with
  | select | nodeSubmit =>
      rw [h] at hpc
      cases hpc
  | _ =>
      rw [h] at he
      cases he

/-- The entry of a failed attempt goes back with its retry counted. -/
theorem fateClean_failed {t : TimePoint} {e : HeldEntry} {rest : List HeldEntry}
    {ds : List Decision} (hlive : e.job.deadlinePassed t = false) :
    FateClean cfg t e rest (.failed, ds) ↔ NoneDead cfg t (retryEntry e :: rest) := by
  rw [noneDead_cons, dead_retryEntry hlive]
  exact and_comm

/-- A check at or after `t` that does not drop the entry finds its deadline still to come. -/
theorem not_passed_of_not_dead {t now : TimePoint} {e : HeldEntry} (hclock : t ≤ now)
    (h : ¬Dead cfg now e) : e.job.deadlinePassed t = false := by
  by_contra hpassed
  exact not_dead_of_later hclock h (Or.inl (Bool.not_eq_false _ ▸ hpassed))

/-- A step that takes the pass on: what the rest has to meet is what it had to meet. -/
def TakesOn (cfg : BalancerConfig F) (t : TimePoint) (s : State F) (ev : Event)
    (s' : State F) : Prop :=
  InTime t s' ∧
    ∀ ds, LeavesClean cfg t s (s.decides ev ++ ds) ↔ LeavesClean cfg t s' ds

theorem entry_takesOn {t : TimePoint} {e : HeldEntry} (hpc : s.drain = .entry e)
    (hactor : ev.actor = .drain) (hclock : t ≤ ev.input.now)
    (h : drainStep cfg ev.input s = some s') : TakesOn cfg t s ev s' := by
  have hold : ∀ ds, LeavesClean cfg t s (s.decides ev ++ ds) ↔
      FateClean cfg t e s.m.mHoldingQueue.entries
        (fate cfg e (.check ev.input.now ev.input.metrics :: ds)) := by
    intro ds
    rw [← stopsClean_cons]
    simp only [LeavesClean, State.decides, hactor, hpc, List.singleton_append]
  simp only [drainStep, hpc] at h
  split at h
  · next hdead =>
      have hdead : Dead cfg ev.input.now e := hdead
      cases h
      refine ⟨inTime_between rfl, fun ds => (hold ds).trans ?_⟩
      rw [fate, if_pos hdead]
      exact Iff.rfl
  · next hdead =>
      have hdead : ¬Dead cfg ev.input.now e := hdead
      split at h
      · next hsaturated =>
          cases h
          refine ⟨by rintro _ ⟨⟩, fun ds => (hold ds).trans ?_⟩
          rw [fate, if_neg hdead, if_pos hsaturated]
          show NoneDead cfg t _ ↔ NoneDead cfg t (e :: _)
          rw [noneDead_cons]
          exact (and_iff_right (not_dead_of_later hclock hdead)).symm
      · next hroom =>
          cases h
          refine ⟨?_, fun ds => (hold ds).trans ?_⟩
          · rintro _ ⟨⟩
            exact not_passed_of_not_dead hclock hdead
          · rw [fate, if_neg hdead, if_neg hroom]
            exact Iff.rfl

theorem select_takesOn {t : TimePoint} {e : HeldEntry} (hpc : s.drain = .select e)
    (hactor : ev.actor = .drain) (hlive : e.job.deadlinePassed t = false)
    (h : drainStep cfg ev.input s = some s') : TakesOn cfg t s ev s' := by
  have hold : ∀ ds, LeavesClean cfg t s (s.decides ev ++ ds) ↔
      FateClean cfg t e s.m.mHoldingQueue.entries
        (chooseFate cfg (.choose ev.input.selected :: ds)) := by
    intro ds
    simp only [LeavesClean, State.decides, hactor, hpc, List.singleton_append]
  simp only [drainStep, hpc] at h
  split at h
  · next hnone =>
      cases h
      refine ⟨by rintro _ ⟨⟩, fun ds => (hold ds).trans ?_⟩
      rw [chooseFate, hnone]
      exact fateClean_failed hlive
  · next id hsome =>
      split at h
      · next hnode =>
          cases h
          refine ⟨by rintro _ ⟨⟩, fun ds => (hold ds).trans ?_⟩
          rw [chooseFate, hsome, Option.bind_some, hnode]
          exact fateClean_failed hlive
      · next nodeId hnode =>
          cases h
          refine ⟨?_, fun ds => (hold ds).trans ?_⟩
          · rintro _ ⟨⟩
            exact hlive
          · rw [chooseFate, hsome, Option.bind_some, hnode]
            -- the submission time is no part of the checks
            exact Iff.rfl

theorem nodeSubmit_takesOn {t : TimePoint} {nodeId : NodeId} {e : HeldEntry}
    (hpc : s.drain = .nodeSubmit nodeId e) (hactor : ev.actor = .drain)
    (hlive : e.job.deadlinePassed t = false)
    (h : drainStep cfg ev.input s = some s') : TakesOn cfg t s ev s' := by
  have hold : ∀ ds, LeavesClean cfg t s (s.decides ev ++ ds) ↔
      FateClean cfg t e s.m.mHoldingQueue.entries
        (offerFate (.offer ev.input.accepted :: ds)) := by
    intro ds
    simp only [LeavesClean, State.decides, hactor, hpc, List.singleton_append]
  simp only [drainStep, hpc] at h
  split at h
  · next hnone =>
      cases h
      refine ⟨by rintro _ ⟨⟩, fun ds => (hold ds).trans ?_⟩
      rw [hnone]
      exact fateClean_failed hlive
  · next handle hsome =>
      split at h
      · cases h
        refine ⟨inTime_between rfl, fun ds => (hold ds).trans ?_⟩
        rw [hsome]
        exact Iff.rfl
      · cases h

/-- A step that leaves the queue as it is and brings no entry into the thread's hands. -/
theorem takesOn_between {t : TimePoint} (hpc : s.drain.between = true)
    (hdecides : s.decides ev = []) (hpc' : s'.drain.between = true)
    (hqueue : s'.m.mHoldingQueue = s.m.mHoldingQueue) : TakesOn cfg t s ev s' := by
  refine ⟨inTime_between hpc', fun ds => ?_⟩
  rw [hdecides, leavesClean_between hpc, leavesClean_between hpc', hqueue]
  exact Iff.rfl

theorem looping_takesOn {t : TimePoint} (hpc : s.drain = .looping) (hactor : ev.actor = .drain)
    (h : drainStep cfg ev.input s = some s') : TakesOn cfg t s ev s' := by
  have hold : ∀ ds, LeavesClean cfg t s (s.decides ev ++ ds) ↔
      StopsClean cfg t s.m.mHoldingQueue.entries ds := by
    intro ds
    simp only [LeavesClean, State.decides, hactor, hpc, List.nil_append]
  simp only [drainStep, hpc] at h
  split at h
  · next hq =>
      cases h
      refine ⟨by rintro _ ⟨⟩, fun ds => (hold ds).trans ?_⟩
      show _ ↔ NoneDead cfg t s.m.mHoldingQueue.entries
      rw [HoldingQueue.tryDequeue_eq_none.mp hq]
      exact iff_of_true trivial (by rintro _ ⟨⟩)
  · next entry queue hq =>
      cases h
      refine ⟨by rintro _ ⟨⟩, fun ds => (hold ds).trans ?_⟩
      rw [HoldingQueue.tryDequeue_entries hq]
      exact Iff.rfl

theorem requeue_takesOn {t : TimePoint} {e : HeldEntry} (hpc : s.drain = .requeue e)
    (hinv : HoldingInv cfg s)
    (h : drainStep cfg ev.input s = some s') : TakesOn cfg t s ev s' := by
  have hold : ∀ ds, LeavesClean cfg t s (s.decides ev ++ ds) ↔
      NoneDead cfg t (e :: s.m.mHoldingQueue.entries) := by
    intro ds
    simp only [LeavesClean, hpc]
  -- the slot of the entry in hand is still reserved
  have hroom : s.m.mHoldingQueue.mSize < s.m.mHoldingQueue.mCapacity := by
    have hdepth := hinv.depth
    have hle := hinv.depth_le
    have hcapacity := hinv.queueCapacity
    rw [takenSlots, hpc, DrainPc.holdsEntry, Bool.toNat_true] at hdepth
    omega
  simp only [drainStep, hpc, HoldingQueue.requeue_ok e hroom] at h
  cases h
  refine ⟨by rintro _ ⟨⟩, fun ds => (hold ds).trans ?_⟩
  have hperm := HoldingQueue.entries_pushBack_perm s.m.mHoldingQueue e
  exact forall_congr' fun a => imp_congr_left hperm.mem_iff.symm

theorem drain_takesOn {t : TimePoint} (hbusy : s.drain ≠ .waiting) (hactor : ev.actor = .drain)
    (hclock : t ≤ ev.input.now) (hinv : HoldingInv cfg s) (htime : InTime t s)
    (h : drainStep cfg ev.input s = some s') : TakesOn cfg t s ev s' := by
  cases hpc : s.drain with
  | waiting => exact absurd hpc hbusy
  | looping => exact looping_takesOn hpc hactor h
  | entry e => exact entry_takesOn hpc hactor hclock h
  | select e => exact select_takesOn hpc hactor (htime e (by rw [hpc]; rfl)) h
  | nodeSubmit nodeId e => exact nodeSubmit_takesOn hpc hactor (htime e (by rw [hpc]; rfl)) h
  | requeue e => exact requeue_takesOn hpc hinv h
  | dropRelease e | releaseSlot r =>
      simp only [drainStep, hpc] at h
      cases h
      refine takesOn_between (by rw [hpc]; rfl) ?_ rfl rfl
      simp only [State.decides, hactor, hpc]
  | dropping f =>
      simp only [drainStep, hpc] at h
      cases h
      refine takesOn_between (by rw [hpc]; rfl) ?_ ?_ (finalizeStep_move s f).sameOutside.queue
      · simp only [State.decides, hactor, hpc]
      · cases (finalizeStep s f).2 <;> rfl
  | register r =>
      simp only [drainStep, hpc] at h
      cases h
      refine takesOn_between (by rw [hpc]; rfl) ?_ ?_
        (registerStep_move cfg ev.input s r).sameOutside.queue
      · simp only [State.decides, hactor, hpc]
      · cases (registerStep cfg ev.input s r).2 <;> rfl

theorem step_takesOn {t : TimePoint} (hbusy : s.drain ≠ .waiting)
    (hclock : ev.actor = .drain → t ≤ ev.input.now)
    (hqueue : ev.actor ≠ .drain → s'.m.mHoldingQueue = s.m.mHoldingQueue)
    (hinv : HoldingInv cfg s) (htime : InTime t s) (h : step cfg s ev = some s') :
    TakesOn cfg t s ev s' := by
  by_cases hactor : ev.actor = .drain
  · refine drain_takesOn hbusy hactor (hclock hactor) hinv htime ?_
    rw [step, hactor] at h
    exact h
  · have hpc : s'.drain = s.drain := (step_move h).drain_eq hactor
    have hdecides : s.decides ev = [] := by
      unfold State.decides
      split
      · next hev _ => exact absurd hev hactor
      · next hev _ => exact absurd hev hactor
      · next hev _ => exact absurd hev hactor
      · rfl
    refine ⟨?_, fun ds => ?_⟩
    · unfold InTime
      rw [hpc]
      exact htime
    · rw [hdecides, List.nil_append]
      unfold LeavesClean
      rw [hpc, hqueue hactor]

/-! ## The whole pass

At its end there is nothing more to meet, so that the condition at its beginning is all there is.
-/

theorem Pass.leavesClean {t : TimePoint} {ds : List Decision} (hpass : Pass cfg t s ds s')
    (hs : (balancer cfg).Reach anyEvent s) (htime : InTime t s) :
    NoneDead cfg t s'.m.mHoldingQueue.entries ↔ LeavesClean cfg t s ds := by
  induction hpass with
  | ends hpc =>
      unfold LeavesClean
      rw [hpc]
  | goesOn ev hbusy hclock hqueue hstep hrest ih =>
      obtain ⟨htime', htaken⟩ :=
        step_takesOn hbusy hclock hqueue (holdingInv_reach hs) htime hstep
      rw [htaken]
      exact ih (.step ev hs trivial hstep) htime'

/-- **A pass sweeps the queue if and only if it does not stop short of a dead entry.**  After every
completed pass, no entry whose deadline has come by the start of the pass is left, nor one that is out
of retries, exactly when no such entry stands behind the entry at which the pass stops, and when a
failed attempt was not the last one of that entry. -/
theorem pass_sweeps_iff {t : TimePoint} {ds : List Decision}
    (hs : (balancer cfg).Reach anyEvent s) (hpc : s.drain = .looping)
    (hpass : Pass cfg t s ds s') :
    NoneDead cfg t s'.m.mHoldingQueue.entries ↔
      StopsClean cfg t s.m.mHoldingQueue.entries ds := by
  have hbetween : s.drain.between = true := by
    rw [hpc]
    rfl
  rw [hpass.leavesClean hs (inTime_between hbetween), leavesClean_between hbetween]

/-! ### Two passes

One that gets past its first entry, and one that does not. -/

/-- The drain thread alone takes the pass to its end, under these inputs. -/
def drains (cfg : BalancerConfig F) (t : TimePoint) :
    State F → List Input → Option (List Decision × State F)
  | s, [] =>
      match s.drain with
      | .waiting => some ([], s)
      | _ => none
  | s, inp :: inps =>
      match s.drain with
      | .waiting => none
      | _ =>
          if t ≤ inp.now then
            (step cfg s { actor := .drain, input := inp }).bind fun s₁ =>
              (drains cfg t s₁ inps).map fun r =>
                (s.decides { actor := .drain, input := inp } ++ r.1, r.2)
          else none

theorem pass_of_drains {t : TimePoint} {inps : List Input} {r : List Decision × State F}
    (h : drains cfg t s inps = some r) : Pass cfg t s r.1 r.2 := by
  induction inps generalizing s r with
  | nil =>
      rw [drains] at h
      split at h
      · next hpc =>
          cases h
          exact .ends hpc
      · cases h
  | cons inp inps ih =>
      rw [drains] at h
      split at h
      · cases h
      · next hbusy =>
          split at h
          · next hclock =>
              obtain ⟨s₁, hstep, h⟩ := Option.bind_eq_some_iff.mp h
              obtain ⟨r₁, hr₁, rfl⟩ := Option.map_eq_some_iff.mp h
              exact .goesOn _ hbusy (fun _ => hclock) (fun hne => absurd rfl hne) hstep (ih hr₁)
          · cases h

/-- The drain thread is at the head of the inner loop. -/
def DrainPc.atHead : DrainPc → Bool
  | .looping => true
  | _ => false

theorem DrainPc.eq_of_atHead {pc : DrainPc} (h : pc.atHead = true) : pc = .looping := by
  cases pc <;> first | rfl | cases h

/-- A critical job without a deadline and a high one with the deadline 5, both held, and the drain
thread at the head of its loop. -/
def lateBehind : List Event :=
  submitScript 0 { priority := .critical } 11 { metrics := [{ state := .overloaded }] } ++
    submitScript 1 { priority := .high, deadline := some 5 } 11
      { metrics := [{ state := .overloaded }] } ++
    [{ actor := .drain }]

/-- The pass that begins at 10 under these inputs leaves such entries of the two in the queue. -/
def passLeaves (inps : List Input) (p : List HeldEntry → Bool) (s : State Rat) : Bool :=
  s.drain.atHead && s.m.mHoldingQueue.entries.length == 2 &&
    (drains oneNode 10 s inps).any fun r => p r.2.m.mHoldingQueue.entries

theorem exists_of_passLeaves {inps : List Input} {p : List HeldEntry → Bool} {s : State Rat}
    (h : passLeaves inps p s = true) : ∃ s' ds, s.drain = .looping ∧
      s.m.mHoldingQueue.entries.length = 2 ∧ Pass oneNode 10 s ds s' ∧
        p s'.m.mHoldingQueue.entries = true := by
  simp only [passLeaves, Bool.and_eq_true, beq_iff_eq] at h
  obtain ⟨⟨hpc, htwo⟩, hany⟩ := h
  obtain ⟨r, hr, hleaves⟩ := (Option.any_eq_true _ _).mp hany
  exact ⟨r.2, r.1, DrainPc.eq_of_atHead hpc, htwo, pass_of_drains hr, hleaves⟩

/-- At 10 the cluster has room: the first job is dispatched and the second one dropped. -/
theorem pass_sweeps_iff_placed : ∃ s s' : State Rat, ∃ ds,
    s.m.mHoldingQueue.entries.length = 2 ∧ s'.m.mHoldingQueue.entries.isEmpty = true ∧
      (NoneDead oneNode 10 s'.m.mHoldingQueue.entries ↔
        StopsClean oneNode 10 s.m.mHoldingQueue.entries ds) := by
  obtain ⟨s, hs, hp⟩ := exists_reach (balancer oneNode) anyEvent lateBehind
    (passLeaves (List.replicate 16 { now := 10, selected := some 0, accepted := some 7 })
      List.isEmpty) (by decide +kernel)
  obtain ⟨s', ds, hpc, htwo, hpass, hempty⟩ := exists_of_passLeaves hp
  exact ⟨s, s', ds, htwo, hempty, pass_sweeps_iff hs hpc hpass⟩

/-- **An expired job behind a saturated one is not swept.**  At 10 the cluster is still saturated: the
pass puts the first job back and ends with the second one, whose deadline was 5, in the queue. -/
theorem saturated_pass_leaves_late : ∃ s s' : State Rat, ∃ ds,
    (balancer oneNode).Reach anyEvent s ∧ s.drain = .looping ∧ Pass oneNode 10 s ds s' ∧
      ∃ e ∈ s'.m.mHoldingQueue.entries, e.job.deadlinePassed 10 = true := by
  obtain ⟨s, hs, hp⟩ := exists_reach (balancer oneNode) anyEvent lateBehind
    (passLeaves (List.replicate 3 { now := 10, metrics := [{ state := .overloaded }] })
      fun entries => entries.any fun e => e.job.deadlinePassed 10) (by decide +kernel)
  obtain ⟨s', ds, hpc, -, hpass, hany⟩ := exists_of_passLeaves hp
  exact ⟨s, s', ds, hs, hpc, hpass, List.any_eq_true.mp hany⟩

end FatpBalancer
