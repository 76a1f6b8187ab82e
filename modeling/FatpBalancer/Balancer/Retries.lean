/-
# The retry budget of a held job

An attempt is an iteration of the drain loop that reaches the policy.  The counter `holdRetries`
travels inside the job value: into the queue, into the loop's hands, into the node and back from the
snapshot.  The attempts of a run, and those that failed, are noted in a ledger beside it, and the
counter of a job is compared with the ledger wherever the job is.

`RetryInv` distributes the comparison over the places of a job.

* Stored, the job is `Resting`: every attempt so far has failed, and the counter has counted the
  failures.
* In the loop's hands it is `InHand`: an attempt may be under way, which is noted but not counted
  yet.
* On a node its last attempt has not failed, and the counter the node was handed is still that of
  the failures.

That each job is in one place only comes from the accounting of the places, so no counter is touched
behind the back of another.
-/
import FatpBalancer.Balancer.Finalization
import FatpBalancer.Balancer.Flood

universe u

namespace FatpBalancer

open Machine

variable {F : Type u} [FloatOps F] {cfg : BalancerConfig F} {ev : Event} {s s' : State F}

/-! ## The ledger of the attempts

The ledger is not part of the balancer: it is a list of calls, one entry for each event that is an
attempt, beside which the machine runs unchanged. -/

/-- The calls whose job an attempt was made for, and those whose attempt failed. -/
structure AttemptLedger where
  attempts : List CallId := []
  failed : List CallId := []

/-- The job for which this event is an attempt: the loop asks the policy. -/
def State.attempts (s : State F) (ev : Event) : Option CallId :=
  match ev.actor, s.drain with
  | .drain, .select e => some e.onDone.call
  | _, _ => none

/-- The job for which an attempt fails in this event: no node is selected, the node is unknown, or
the node refuses. -/
def State.failsAttempt (cfg : BalancerConfig F) (s : State F) (ev : Event) : Option CallId :=
  match ev.actor, s.drain with
  | .drain, .select e =>
      if (ev.input.selected.bind (findNode cfg)).isSome then none else some e.onDone.call
  | .drain, .nodeSubmit _ e => if ev.input.accepted.isSome then none else some e.onDone.call
  | _, _ => none

/-- Note the attempt and the failure of this event. -/
def noteAttempt (cfg : BalancerConfig F) (s : State F) (ev : Event) (l : AttemptLedger) :
    AttemptLedger where
  attempts := (s.attempts ev).toList ++ l.attempts
  failed := (s.failsAttempt cfg ev).toList ++ l.failed

/-- The balancer beside the ledger of the attempts. -/
def retryingBalancer (cfg : BalancerConfig F) : Machine (State F × AttemptLedger) Event :=
  (balancer cfg).observe {} (noteAttempt cfg)

/-! ## The counter and the ledger

The counter is incremented by `retryEntry`, at the end of a failed attempt, in the copy that goes
back into the queue. -/

/-- Between two attempts: every attempt has failed, and the counter has counted the failures. -/
structure Resting (cfg : BalancerConfig F) (l : AttemptLedger) (i : CallId) (holdRetries : Nat) :
    Prop where
  attempts : l.attempts.count i = l.failed.count i
  retries : holdRetries = l.failed.count i % 2 ^ 32
  budget : 0 < cfg.holdingQueue.maxRetries → l.failed.count i ≤ cfg.holdingQueue.maxRetries

/-- The entry in the loop's hands: an attempt is made only while there is budget. -/
def InHand (cfg : BalancerConfig F) (l : AttemptLedger) (i : CallId) : DrainPc → Prop
  | .entry e | .requeue e => e.onDone.call = i → Resting cfg l i e.job.holdRetries
  | .select e => e.onDone.call = i → Resting cfg l i e.job.holdRetries ∧
      (0 < cfg.holdingQueue.maxRetries → l.failed.count i < cfg.holdingQueue.maxRetries)
  | .nodeSubmit _ e => e.onDone.call = i → l.attempts.count i = l.failed.count i + 1 ∧
      e.job.holdRetries = l.failed.count i % 2 ^ 32 ∧
      (0 < cfg.holdingQueue.maxRetries → l.failed.count i < cfg.holdingQueue.maxRetries)
  | _ => True

/-- No more attempts than the budget has, and no more failures than attempts. -/
structure Within (cfg : BalancerConfig F) (l : AttemptLedger) (i : CallId) : Prop where
  spent : 0 < cfg.holdingQueue.maxRetries → l.attempts.count i ≤ cfg.holdingQueue.maxRetries
  failed : l.failed.count i ≤ l.attempts.count i

/-- The budget of the job of call `i`, wherever the job is. -/
structure Budget (cfg : BalancerConfig F) (s : State F) (l : AttemptLedger) (i : CallId) :
    Prop where
  within : Within cfg l i
  stored : ∀ e ∈ s.m.mHoldingQueue.entries, e.onDone.call = i →
    Resting cfg l i e.job.holdRetries
  inHand : InHand cfg l i s.drain
  dispatched : ∀ {k : Nat} {d : Dispatch}, s.dispatches[k]? = some d → d.call = i →
    d.capturedJob.holdRetries = l.failed.count i % 2 ^ 32

/-- The call has handed its job to the holding queue. -/
def isHeld (s : State F) (i : CallId) : Prop :=
  ∃ c handle, s.calls[i]? = some c ∧ c.pc.heldHandle? = some handle

/-- The budget of every held job, wherever it is. -/
structure RetryInv (cfg : BalancerConfig F) (s : State F) (l : AttemptLedger) : Prop where
  held : ∀ i, 0 < l.attempts.count i + l.failed.count i → isHeld s i
  numbered : ∀ {i : CallId} {c : Call} {job : Job}, s.calls[i]? = some c →
    c.pc.job? = some job → job.holdRetries = c.job.holdRetries
  budget : ∀ {i : CallId} {c : Call}, s.calls[i]? = some c → c.job.holdRetries = 0 →
    Budget cfg s l i

/-! ## A job is in one place -/

/-- While the loop has the job in its hands, the job is nowhere else. -/
theorem AccountingInv.only_in_hand (h : AccountingInv s) {i : CallId}
    (hcarries : s.drain.carries = some i) :
    (∀ e ∈ s.m.mHoldingQueue.entries, e.onDone.call ≠ i) ∧
      ∀ (k : Nat) (d : Dispatch), s.dispatches[k]? = some d → d.call ≠ i := by
  have hle := h.ended_le i
  unfold waiting ended at hle
  rw [hcarries, owns_self] at hle
  constructor
  · rintro e he rfl
    have := one_le_heldJobs he
    omega
  · rintro k d hd rfl
    have := one_le_places hd
    omega

/-- A job that is not accepted yet is nowhere. -/
theorem AccountingInv.nowhere (h : AccountingInv s) {i : CallId} {c : Call}
    (hc : s.calls[i]? = some c) (hnot : c.pc.accepted = false) :
    (∀ e ∈ s.m.mHoldingQueue.entries, e.onDone.call ≠ i) ∧ s.drain.carries ≠ some i ∧
      ∀ (k : Nat) (d : Dispatch), s.dispatches[k]? = some d → d.call ≠ i := by
  have hplaced := h.placed i
  have hzero : acceptedAt s.calls i = 0 := by
    rw [acceptedAt, hc]
    simp [hnot]
  unfold waiting ended at hplaced
  rw [hzero] at hplaced
  refine ⟨?_, ?_, ?_⟩
  · rintro e he rfl
    have := one_le_heldJobs he
    omega
  · intro hcarries
    rw [hcarries, owns_self] at hplaced
    omega
  · rintro k d hd rfl
    have := one_le_places hd
    omega

/-! ## One step

A step that is no attempt leaves the ledger alone, and a job that the step does not move keeps its
place. -/

/-- An event notes one attempt at most. -/
theorem count_noteAttempt (cfg : BalancerConfig F) (s : State F) (ev : Event) (l : AttemptLedger)
    (i : CallId) :
    (noteAttempt cfg s ev l).attempts.count i = l.attempts.count i + owns i (s.attempts ev) ∧
      (noteAttempt cfg s ev l).failed.count i =
        l.failed.count i + owns i (s.failsAttempt cfg ev) := by
  have hcount : ∀ (o : Option CallId) (l : List CallId),
      (o.toList ++ l).count i = l.count i + owns i o := by
    intro o l
    cases o with
    | none => rfl
    | some j => exact count_cons_owns i j l
  exact ⟨hcount _ _, hcount _ _⟩

/-- A place owns a job at most once. -/
theorem owns_le_one (i : CallId) (o : Option CallId) : owns i o ≤ 1 := by
  unfold owns
  split
  · exact le_refl 1
  · exact Nat.zero_le 1

/-- An attempt is one for the job in the loop's hands. -/
theorem attempts_carried (cfg : BalancerConfig F) {i : CallId}
    (h : s.attempts ev = some i ∨ s.failsAttempt cfg ev = some i) :
    ev.actor = .drain ∧ s.drain.carries = some i := by
  unfold State.attempts State.failsAttempt at h
  cases hactor : ev.actor with
  | drain =>
      refine ⟨rfl, ?_⟩
      cases hpc : s.drain with
      | select e =>
          simp only [hactor, hpc] at h
          rcases h with h | h
          · exact h
          · split at h
            · cases h
            · exact h
      | nodeSubmit nodeId e =>
          simp only [hactor, hpc] at h
          rcases h with h | h
          · cases h
          · split at h
            · cases h
            · exact h
      | _ =>
          simp only [hactor, hpc] at h
          rcases h with h | h <;> cases h
  | _ =>
      simp only [hactor] at h
      rcases h with h | h <;> cases h

/-- A step without an attempt for this job leaves its part of the ledger as it is. -/
theorem noteAttempt_same (cfg : BalancerConfig F) (l : AttemptLedger) {i : CallId}
    (h : ev.actor = .drain → s.drain.carries ≠ some i) :
    (noteAttempt cfg s ev l).attempts.count i = l.attempts.count i ∧
      (noteAttempt cfg s ev l).failed.count i = l.failed.count i := by
  obtain ⟨hattempts, hfailed⟩ := count_noteAttempt cfg s ev l i
  have hnone : ∀ o : Option CallId, o ≠ some i → owns i o = 0 := fun o hne => if_neg hne
  have hnot : ∀ {o : Option CallId}, (o = some i → ev.actor = .drain ∧ s.drain.carries = some i) →
      o ≠ some i := fun himp heq => h (himp heq).1 (himp heq).2
  rw [hattempts, hfailed, hnone _ (hnot fun heq => attempts_carried cfg (Or.inl heq)),
    hnone _ (hnot fun heq => attempts_carried cfg (Or.inr heq))]
  exact ⟨rfl, rfl⟩

/-- Resting is about the counts only. -/
theorem Resting.congr {l l' : AttemptLedger} {i : CallId} {holdRetries : Nat}
    (h : Resting cfg l i holdRetries) (ha : l'.attempts.count i = l.attempts.count i)
    (hf : l'.failed.count i = l.failed.count i) : Resting cfg l' i holdRetries :=
  ⟨by rw [ha, hf, h.attempts], by rw [hf, h.retries], by rw [hf]; exact h.budget⟩

/-- A failed attempt is counted by the ledger and by the job. -/
theorem Resting.failed {l l' : AttemptLedger} {i : CallId} {e : HeldEntry}
    (hattempts : l'.attempts.count i = l.failed.count i + 1)
    (hfailed : l'.failed.count i = l.failed.count i + 1)
    (hretries : e.job.holdRetries = l.failed.count i % 2 ^ 32)
    (hbudget : 0 < cfg.holdingQueue.maxRetries → l.failed.count i < cfg.holdingQueue.maxRetries) :
    Resting cfg l' i (retryEntry e).job.holdRetries := by
  refine ⟨by rw [hattempts, hfailed], ?_, ?_⟩
  · show fetchAdd32 e.job.holdRetries = _
    rw [hretries, hfailed, fetchAdd32]
    omega
  · rw [hfailed]
    exact hbudget

/-- The loop looks at an entry: it attempts a dispatch only while there is budget. -/
theorem InHand.entry {l : AttemptLedger} {i : CallId} {inp : Input} {e : HeldEntry}
    (hrange : cfg.holdingQueue.maxRetries < 2 ^ 32) (hpc : s.drain = .entry e)
    (h : InHand cfg l i s.drain) (hstep : drainStep cfg inp s = some s') :
    InHand cfg l i s'.drain := by
  rw [hpc] at h
  simp only [drainStep, hpc] at hstep
  split at hstep
  · cases hstep
    trivial
  · next hkeep =>
      split at hstep
      · cases hstep
        exact h
      · -- kept by the retry test, so the failures so far are below the limit
        cases hstep
        intro hi
        have hresting := h hi
        refine ⟨hresting, fun hpos => ?_⟩
        have hle := hresting.budget hpos
        have hretries := hresting.retries
        rw [Nat.mod_eq_of_lt (hle.trans_lt hrange)] at hretries
        by_contra hnot
        exact hkeep (Or.inr ⟨hpos, by omega⟩)

/-- The policy is asked: one more attempt, and one more failure if there is no node. -/
theorem Budget.select {l : AttemptLedger} {i : CallId} {e : HeldEntry}
    (h : Budget cfg s l i) (hactor : ev.actor = .drain) (hpc : s.drain = .select e)
    (hstep : drainStep cfg ev.input s = some s') :
    InHand cfg (noteAttempt cfg s ev l) i s'.drain ∧ Within cfg (noteAttempt cfg s ev l) i := by
  obtain ⟨hattempts, hfailed⟩ := count_noteAttempt cfg s ev l i
  have hhand := h.inHand
  rw [hpc] at hhand
  simp only [State.attempts, State.failsAttempt, hactor, hpc] at hattempts hfailed
  simp only [drainStep, hpc] at hstep
  by_cases hi : e.onDone.call = i
  · obtain ⟨hresting, hbudget⟩ := hhand hi
    rw [hi, owns_self, hresting.attempts] at hattempts
    have hspent : 0 < cfg.holdingQueue.maxRetries →
        (noteAttempt cfg s ev l).attempts.count i ≤ cfg.holdingQueue.maxRetries := by
      intro hpos
      rw [hattempts]
      exact hbudget hpos
    have hle := owns_le_one i (if (ev.input.selected.bind (findNode cfg)).isSome then none
      else some e.onDone.call)
    refine ⟨?_, hspent, by omega⟩
    -- no node selected, an unknown node, a node to be asked
    split at hstep
    · next hnone =>
        cases hstep
        rw [hnone, Option.bind_none, if_neg (by simp), hi, owns_self] at hfailed
        exact fun _ => .failed hattempts hfailed hresting.retries hbudget
    · next id hsome =>
        rw [hsome, Option.bind_some] at hfailed
        split at hstep
        · next hnode =>
            cases hstep
            rw [hnode, if_neg (by simp), hi, owns_self] at hfailed
            exact fun _ => .failed hattempts hfailed hresting.retries hbudget
        · next nodeId hnode =>
            cases hstep
            rw [hnode, if_pos Option.isSome_some, owns_none, Nat.add_zero] at hfailed
            intro _
            rw [hattempts, hfailed]
            exact ⟨rfl, hresting.retries, hbudget⟩
  · -- an attempt for another job
    have hzero : owns i (some e.onDone.call) = 0 := if_neg fun heq => hi (Option.some.inj heq)
    have hnone : owns i (if (ev.input.selected.bind (findNode cfg)).isSome then none
        else some e.onDone.call) = 0 := by
      split
      · rfl
      · exact hzero
    refine ⟨?_, fun hpos => ?_, ?_⟩
    · split at hstep
      · cases hstep
        exact fun heq => absurd heq hi
      · split at hstep
        · cases hstep
          exact fun heq => absurd heq hi
        · cases hstep
          exact fun heq => absurd heq hi
    · rw [hattempts, hzero]
      exact h.within.spent hpos
    · rw [hattempts, hfailed, hzero, hnone]
      exact h.within.failed

/-- The node is asked: one more failure if it refuses. -/
theorem Budget.nodeSubmit {l : AttemptLedger} {i : CallId} {nodeId : NodeId} {e : HeldEntry}
    (h : Budget cfg s l i) (hactor : ev.actor = .drain) (hpc : s.drain = .nodeSubmit nodeId e)
    (hstep : drainStep cfg ev.input s = some s') :
    InHand cfg (noteAttempt cfg s ev l) i s'.drain ∧ Within cfg (noteAttempt cfg s ev l) i := by
  obtain ⟨hattempts, hfailed⟩ := count_noteAttempt cfg s ev l i
  have hhand := h.inHand
  rw [hpc] at hhand
  simp only [State.attempts, State.failsAttempt, hactor, hpc, owns_none, Nat.add_zero]
    at hattempts hfailed
  simp only [drainStep, hpc] at hstep
  refine ⟨?_, fun hpos => hattempts ▸ h.within.spent hpos, ?_⟩
  case refine_2 =>
    -- what can fail here is the attempt under way
    have hbefore := h.within.failed
    by_cases hi : e.onDone.call = i
    · obtain ⟨hone, -⟩ := hhand hi
      have hle := owns_le_one i (if ev.input.accepted.isSome then none else some e.onDone.call)
      omega
    · have hzero : owns i (if ev.input.accepted.isSome then none else some e.onDone.call) = 0 := by
        apply if_neg
        split
        · rintro ⟨⟩
        · exact fun heq => hi (Option.some.inj heq)
      omega
  split at hstep
  · next hnone =>
      cases hstep
      intro hi
      obtain ⟨hone, hretries, hbudget⟩ := hhand hi
      have hi : e.onDone.call = i := hi
      rw [hnone, if_neg (by simp), hi, owns_self] at hfailed
      exact .failed (hattempts.trans hone) hfailed hretries hbudget
  · split at hstep
    · cases hstep
      trivial
    · cases hstep

/-- An event that is not about an attempt leaves the ledger as it is. -/
theorem noteAttempt_eq {l : AttemptLedger}
    (h : ev.actor = .drain → s.drain.attempting = none) : noteAttempt cfg s ev l = l := by
  have hnone : s.attempts ev = none ∧ s.failsAttempt cfg ev = none := by
    unfold State.attempts State.failsAttempt
    cases hactor : ev.actor with
    | drain =>
        have hpc := h hactor
        cases hdrain : s.drain <;> rw [hdrain] at hpc <;> first | exact ⟨rfl, rfl⟩ | cases hpc
    | _ => exact ⟨rfl, rfl⟩
  rw [noteAttempt, hnone.1, hnone.2]
  rfl

/-- The entry in the loop's hands after a step, and the attempts of its job. -/
theorem Budget.hand_next {l : AttemptLedger} {i : CallId} (h : Budget cfg s l i)
    (hrange : cfg.holdingQueue.maxRetries < 2 ^ 32) (hstep : step cfg s ev = some s') :
    InHand cfg (noteAttempt cfg s ev l) i s'.drain ∧ Within cfg (noteAttempt cfg s ev l) i := by
  by_cases hactor : ev.actor = .drain
  · have hdrain : drainStep cfg ev.input s = some s' := by
      rw [step, hactor] at hstep
      exact hstep
    have hkeep : s.drain.attempting = none → InHand cfg l i s'.drain →
        InHand cfg (noteAttempt cfg s ev l) i s'.drain ∧
          Within cfg (noteAttempt cfg s ev l) i := by
      intro hnone hhand
      rw [noteAttempt_eq fun _ => hnone]
      exact ⟨hhand, h.within⟩
    cases hpc : s.drain with
    | select e => exact h.select hactor hpc hdrain
    | nodeSubmit nodeId e => exact h.nodeSubmit hactor hpc hdrain
    | entry e => exact hkeep (by rw [hpc]; rfl) (h.inHand.entry hrange hpc hdrain)
    | looping =>
        apply hkeep (by rw [hpc]; rfl)
        simp only [drainStep, hpc] at hdrain
        split at hdrain
        · cases hdrain
          trivial
        · next entry queue hq =>
            cases hdrain
            apply h.stored
            rw [HoldingQueue.tryDequeue_entries hq]
            exact List.mem_cons_self
    | requeue e =>
        apply hkeep (by rw [hpc]; rfl)
        simp only [drainStep, hpc] at hdrain
        split at hdrain <;> cases hdrain <;> trivial
    | waiting | dropRelease e | releaseSlot r =>
        apply hkeep (by rw [hpc]; rfl)
        simp only [drainStep, hpc] at hdrain
        cases hdrain
        trivial
    | dropping f =>
        apply hkeep (by rw [hpc]; rfl)
        simp only [drainStep, hpc] at hdrain
        cases hdrain
        cases (finalizeStep s f).2 <;> trivial
    | register r =>
        apply hkeep (by rw [hpc]; rfl)
        simp only [drainStep, hpc] at hdrain
        cases hdrain
        cases (registerStep cfg ev.input s r).2 <;> trivial
  · rw [noteAttempt_eq fun heq => absurd heq hactor, (step_move hstep).drain_eq hactor]
    exact ⟨h.inHand, h.within⟩

/-- Nothing is noted for a job that is not held yet. -/
theorem RetryInv.unnoted {l : AttemptLedger} (h : RetryInv cfg s l) {i : CallId} {c : Call}
    (hc : s.calls[i]? = some c) (hnot : c.pc.heldHandle? = none) :
    l.attempts.count i = 0 ∧ l.failed.count i = 0 := by
  have hzero : ¬0 < l.attempts.count i + l.failed.count i := by
    intro hpos
    obtain ⟨c', handle, hc', hheld⟩ := h.held i hpos
    obtain rfl := Option.some.inj (hc.symm.trans hc')
    rw [hnot] at hheld
    cases hheld
  omega

/-- What is in the queue after the step. -/
theorem RetryInv.stored_next {l : AttemptLedger} {i : CallId} {c : Call}
    (h : RetryInv cfg s l) (ha : AccountingInv s) (hc : s.calls[i]? = some c)
    (hzero : c.job.holdRetries = 0) (hm : Move cfg ev s s') {e : HeldEntry}
    (he : e ∈ s'.m.mHoldingQueue.entries) (hi : e.onDone.call = i) :
    Resting cfg (noteAttempt cfg s ev l) i e.job.holdRetries := by
  have hbudget := h.budget hc hzero
  rcases hm.entries_cases he with hold | ⟨j, c₀, job, hc₀, hpc, rfl, -⟩ | hpc
  · have hnot : ev.actor = .drain → s.drain.carries ≠ some i := by
      intro _ hcarries
      exact (ha.only_in_hand hcarries).1 e hold hi
    obtain ⟨hattempts, hfailed⟩ := noteAttempt_same cfg l hnot
    exact (hbudget.stored e hold hi).congr hattempts hfailed
  · -- the call has just stored its job
    obtain rfl : j = i := hi
    obtain rfl := Option.some.inj (hc.symm.trans hc₀)
    obtain ⟨hattempts₀, hfailed₀⟩ := h.unnoted hc (by rw [hpc]; rfl)
    have hnot : ev.actor = .drain → s.drain.carries ≠ some j := by
      intro _
      exact (ha.nowhere hc (by rw [hpc]; rfl)).2.1
    obtain ⟨hattempts, hfailed⟩ := noteAttempt_same cfg l hnot
    have hretries : job.holdRetries = c.job.holdRetries := h.numbered hc (by rw [hpc]; rfl)
    refine ⟨?_, ?_, ?_⟩
    · rw [hattempts, hfailed, hattempts₀, hfailed₀]
    · rw [hfailed, hfailed₀]
      exact hretries.trans hzero
    · rw [hfailed, hfailed₀]
      exact fun hpos => hpos.le
  · rw [noteAttempt_eq fun _ => by rw [hpc]; rfl]
    have hhand := hbudget.inHand
    rw [hpc] at hhand
    exact hhand hi

/-- What is on a node after the step. -/
theorem RetryInv.dispatched_next {l : AttemptLedger} {i : CallId} {c : Call}
    (h : RetryInv cfg s l) (ha : AccountingInv s) (hc : s.calls[i]? = some c)
    (hzero : c.job.holdRetries = 0) (hm : Move cfg ev s s') {k : Nat} {d' : Dispatch}
    (hd' : s'.dispatches[k]? = some d') (hi : d'.call = i) :
    d'.capturedJob.holdRetries = (noteAttempt cfg s ev l).failed.count i % 2 ^ 32 := by
  have hbudget := h.budget hc hzero
  cases hd : s.dispatches[k]? with
  | some d =>
      obtain ⟨d₁, hd₁, hmove⟩ := hm.dispatch_next hd
      obtain rfl := Option.some.inj (hd₁.symm.trans hd')
      obtain ⟨hcall, hjob, -⟩ := hmove.same
      have hnot : ev.actor = .drain → s.drain.carries ≠ some i := by
        intro _ hcarries
        exact (ha.only_in_hand hcarries).2 k d hd (hcall.symm.trans hi)
      rw [hjob, (noteAttempt_same cfg l hnot).2]
      exact hbudget.dispatched hd (hcall.symm.trans hi)
  | none =>
      obtain ⟨hmint, ⟨j, c₀, job, hc₀, hpc, hacc⟩ | ⟨entry, hpc, hacc⟩⟩ := hm.fresh hd hd'
      · -- a job of the dispatch path
        obtain rfl : j = i := hacc.call.symm.trans hi
        obtain rfl := Option.some.inj (hc.symm.trans hc₀)
        have hnot : ev.actor = .drain → s.drain.carries ≠ some j := by
          intro _
          exact (ha.nowhere hc (by rw [hpc]; rfl)).2.1
        have hretries : job.holdRetries = c.job.holdRetries := h.numbered hc (by rw [hpc]; rfl)
        rw [hacc.capturedJob, (noteAttempt_same cfg l hnot).2,
          (h.unnoted hc (by rw [hpc]; rfl)).2]
        exact hretries.trans hzero
      · -- the entry in the loop's hands, taken by the node
        have hhand := hbudget.inHand
        rw [hpc] at hhand
        obtain ⟨-, hretries, -⟩ := hhand (hacc.call.symm.trans hi)
        have hnone : owns i (s.failsAttempt cfg ev) = 0 := by
          unfold State.nodeMints at hmint
          unfold State.failsAttempt
          cases hactor : ev.actor with
          | drain =>
              rw [hactor, hpc] at hmint
              obtain ⟨handle, haccepted, -⟩ := Option.map_eq_some_iff.mp hmint
              rw [hpc, haccepted]
              rfl
          | _ => rfl
        rw [hacc.capturedJob, (count_noteAttempt cfg s ev l i).2, hnone]
        exact hretries

/-- A job that the loop does not carry is not in its hands. -/
theorem InHand.of_not_carried {l : AttemptLedger} {i : CallId} {pc : DrainPc}
    (h : pc.carries ≠ some i) : InHand cfg l i pc := by
  cases pc with
  | entry e | requeue e | select e | nodeSubmit nodeId e =>
      exact fun hi => absurd (congrArg some hi) h
  | _ => trivial

/-- A call that has stored its job has done so for good. -/
theorem isHeld.next {i : CallId} (h : isHeld s i) (hm : Move cfg ev s s') : isHeld s' i := by
  obtain ⟨c, handle, hc, hheld⟩ := h
  obtain ⟨c', hc', -, hkeep⟩ := hm.call_next hc
  exact ⟨c', handle, hc', hkeep handle hheld⟩

/-- What is noted is noted for a held job: the ledger grows only with the job in the loop's hands. -/
theorem RetryInv.held_next {l : AttemptLedger} (h : RetryInv cfg s l) (hheld : HeldInv s)
    (hm : Move cfg ev s s') {i : CallId} (hpos : 0 < (noteAttempt cfg s ev l).attempts.count i +
      (noteAttempt cfg s ev l).failed.count i) : isHeld s' i := by
  apply isHeld.next _ hm
  by_cases hcarries : ev.actor = .drain ∧ s.drain.carries = some i
  · have hentry : ∃ e, s.drain.entry? = some e ∧ e.onDone.call = i := by
      have hcarried := hcarries.2
      cases hpc : s.drain <;> rw [hpc] at hcarried <;>
        first | exact ⟨_, rfl, Option.some.inj hcarried⟩ | cases hcarried
    obtain ⟨e, he, rfl⟩ := hentry
    obtain ⟨c, hc, hhandle⟩ := hheld.drain he
    exact ⟨c, e.holdHandle, hc, hhandle⟩
  · obtain ⟨hattempts, hfailed⟩ := noteAttempt_same cfg l
      fun hactor heq => hcarries ⟨hactor, heq⟩
    rw [hattempts, hfailed] at hpos
    exact h.held i hpos

/-- Numbering a job leaves its counter as it was submitted. -/
theorem RetryInv.numbered_next {l : AttemptLedger} (h : RetryInv cfg s l) (hm : Move cfg ev s s')
    {i : CallId} {c' : Call} {job : Job} (hc' : s'.calls[i]? = some c')
    (hjob : c'.pc.job? = some job) : job.holdRetries = c'.job.holdRetries := by
  cases hm.numbering with
  | same hcalls => exact h.numbered (hcalls ▸ hc') hjob
  | begin new hcalls =>
      rw [hcalls] at hc'
      rcases Table.getElem?_append_cases hc' with hold | rfl
      · exact h.numbered hold hjob
      · cases hjob
  | goOn j b b' hb hcalls hsame hnum =>
      rw [hcalls] at hc'
      rcases Table.getElem?_set_cases hc' with ⟨rfl, rfl⟩ | ⟨-, hold⟩
      · cases hnum with
        | same hordinal hissued hnext hpc hnone =>
            rw [hnone] at hjob
            cases hjob
        | number now hordinal hissued hnext hpc hpc' hnew =>
            obtain rfl := Option.some.inj (hnew.symm.trans hjob)
            rw [hsame]
      · exact h.numbered hold hjob

/-- A call that has just been made has its whole budget, and its job is nowhere. -/
theorem Budget.entered {l : AttemptLedger} (ha : AccountingInv s) {i : CallId} {c : Call}
    (hc : s.calls[i]? = some c) (hpc : c.pc = .entered)
    (hheld : 0 < l.attempts.count i + l.failed.count i → isHeld s i) : Budget cfg s l i := by
  obtain ⟨hentries, hcarries, hdispatches⟩ := ha.nowhere hc (by rw [hpc]; rfl)
  have hzero : ¬0 < l.attempts.count i + l.failed.count i := by
    intro hpos
    obtain ⟨c₀, handle, hc₀, hhandle⟩ := hheld hpos
    obtain rfl := Option.some.inj (hc₀.symm.trans hc)
    rw [hpc] at hhandle
    cases hhandle
  have hwithin : Within cfg l i := ⟨fun _ => by omega, by omega⟩
  exact ⟨hwithin, fun e he hi => absurd hi (hentries e he), .of_not_carried hcarries,
    fun {k d} hd hi => absurd hi (hdispatches k d hd)⟩

/-- The places together. -/
theorem RetryInv.next {l : AttemptLedger} (h : RetryInv cfg s l)
    (hs : (balancer cfg).Reach anyEvent s) (hrange : cfg.holdingQueue.maxRetries < 2 ^ 32)
    (hstep : step cfg s ev = some s') : RetryInv cfg s' (noteAttempt cfg s ev l) := by
  have hm := step_move hstep
  have ha := accountingInv_reach hs
  have ha' : AccountingInv s' := accountingInv_reach (hs.step ev trivial hstep)
  have hheld : ∀ i, 0 < (noteAttempt cfg s ev l).attempts.count i +
      (noteAttempt cfg s ev l).failed.count i → isHeld s' i :=
    fun i hpos => h.held_next (heldInv_reach hs) hm hpos
  refine ⟨hheld, fun hc' hjob => h.numbered_next hm hc' hjob, fun {i c'} hc' hzero => ?_⟩
  cases hc : s.calls[i]? with
  | none => exact .entered ha' hc' (hm.call_entered hc hc') (hheld i)
  | some c =>
      obtain ⟨c₁, hc₁, hsame, -⟩ := hm.call_next hc
      obtain rfl := Option.some.inj (hc₁.symm.trans hc')
      rw [hsame] at hzero
      obtain ⟨hhand, hwithin⟩ := (h.budget hc hzero).hand_next hrange hstep
      exact ⟨hwithin, fun e he hi => h.stored_next ha hc hzero hm he hi, hhand,
        fun hd hi => h.dispatched_next ha hc hzero hm hd hi⟩

/-- In every reachable state of the balancer beside its ledger. -/
theorem retryInv_reach {x : State F × AttemptLedger}
    (hx : (retryingBalancer cfg).Reach anyEvent x)
    (hrange : cfg.holdingQueue.maxRetries < 2 ^ 32) : RetryInv cfg x.1 x.2 := by
  have hcreate : RetryInv cfg (balancer cfg).init {} := by
    refine ⟨fun i hpos => ?_, fun hc => (by cases hc), fun hc => (by cases hc)⟩
    cases hpos
  have hx : ((balancer cfg).observe {} (noteAttempt cfg)).Reach (fun y e => anyEvent y.1 e) x := hx
  apply Reach.observed hcreate _ hx
  intro s s' ev l hs h _ hstep
  exact h.next hs hrange hstep

/-! ## The budget

Read from the outside: of each held job the attempts are bounded, its retries are its failures, and
the loop drops it only when its deadline has passed or its budget is used up. -/

/-- A value of the job of call `i`: stored, in the loop's hands, or taken by a node. -/
inductive HasValue (s : State F) (i : CallId) : Job → Prop
  | stored (e : HeldEntry) (he : e ∈ s.m.mHoldingQueue.entries) (hi : e.onDone.call = i) :
      HasValue s i e.job
  | inHand (e : HeldEntry) (he : s.drain.entry? = some e) (hi : e.onDone.call = i) :
      HasValue s i e.job
  | dispatched (k : Nat) (d : Dispatch) (hd : s.dispatches[k]? = some d) (hi : d.call = i) :
      HasValue s i d.capturedJob

/-- The drain loop drops the job of call `i` in this step. -/
def DropsJob (s s' : State F) (i : CallId) : Prop :=
  ∃ e, s.drain = .entry e ∧ e.onDone.call = i ∧ s'.drain = .dropRelease e

/-- The drain loop puts the job of call `i` back without an attempt: the cluster is saturated. -/
def SkipsJob (s s' : State F) (i : CallId) : Prop :=
  ∃ e e', s.drain = .entry e ∧ e.onDone.call = i ∧ s'.drain = .requeue e'

/-- The budget of the job of call `i`. -/
structure KeepsBudget (cfg : BalancerConfig F) (s : State F) (l : AttemptLedger) (i : CallId)
    (c : Call) : Prop where
  attempts : 0 < cfg.holdingQueue.maxRetries → l.attempts.count i ≤ cfg.holdingQueue.maxRetries
  retries : 0 < cfg.holdingQueue.maxRetries → ∀ job, HasValue s i job →
    job.holdRetries = l.failed.count i
  skipped : ∀ {ev s'}, step cfg s ev = some s' → SkipsJob s s' i →
    noteAttempt cfg s ev l = l ∧ ∃ e, s.drain = .entry e ∧ s'.drain = .requeue e
  dropped : ∀ {ev s'}, step cfg s ev = some s' → DropsJob s s' i →
    c.job.deadlinePassed ev.input.now = true ∨
      0 < cfg.holdingQueue.maxRetries ∧ l.failed.count i = cfg.holdingQueue.maxRetries

/-- The counter in any copy of the job is the number of its failed attempts. -/
theorem Budget.retries {l : AttemptLedger} {i : CallId} (h : Budget cfg s l i)
    (hrange : cfg.holdingQueue.maxRetries < 2 ^ 32) (hpos : 0 < cfg.holdingQueue.maxRetries)
    {job : Job} (hjob : HasValue s i job) : job.holdRetries = l.failed.count i := by
  have hlt : l.failed.count i < 2 ^ 32 :=
    (h.within.failed.trans (h.within.spent hpos)).trans_lt hrange
  rw [← Nat.mod_eq_of_lt hlt]
  cases hjob with
  | stored e he hi => exact (h.stored e he hi).retries
  | dispatched k d hd hi => exact h.dispatched hd hi
  | inHand e he hi =>
      have hhand := h.inHand
      cases hpc : s.drain with
      | entry e' | requeue e' =>
          rw [hpc] at he hhand
          obtain rfl := Option.some.inj he
          exact (hhand hi).retries
      | select e' =>
          rw [hpc] at he hhand
          obtain rfl := Option.some.inj he
          exact (hhand hi).1.retries
      | nodeSubmit nodeId e' =>
          rw [hpc] at he hhand
          obtain rfl := Option.some.inj he
          exact (hhand hi).2.1
      | _ =>
          rw [hpc] at he
          cases he

/-- **A held job stays within its retry budget.**  In every run, for every job submitted with
`holdRetries` 0: the drain loop attempts it at most `maxRetries` times, its counter is the number of
its failed attempts wherever the job is, a cycle that finds the cluster saturated is no attempt, and
the loop drops it only past its deadline or after exactly `maxRetries` failed attempts; a
`maxRetries` of 0 never drops it. -/
theorem retries_within_budget {x : State F × AttemptLedger}
    (hx : (retryingBalancer cfg).Reach anyEvent x)
    (hrange : cfg.holdingQueue.maxRetries < 2 ^ 32) {i : CallId} {c : Call}
    (hc : x.1.calls[i]? = some c) (hzero : c.job.holdRetries = 0) :
    KeepsBudget cfg x.1 x.2 i c := by
  have hx' : ((balancer cfg).observe {} (noteAttempt cfg)).Reach
      (fun y e => anyEvent y.1 e) x := hx
  have hbudget := (retryInv_reach hx hrange).budget hc hzero
  have hactor : ∀ {ev : Event} {s' : State F} {e : HeldEntry}, step cfg x.1 ev = some s' →
      x.1.drain = .entry e → s'.drain ≠ .entry e → drainStep cfg ev.input x.1 = some s' := by
    intro ev s' e hstep hpc hmoved
    by_cases hactor : ev.actor = .drain
    · rw [step, hactor] at hstep
      exact hstep
    · exact absurd (((step_move hstep).drain_eq hactor).trans hpc) hmoved
  refine ⟨hbudget.within.spent, fun hpos job => hbudget.retries hrange hpos, ?_, ?_⟩
  · rintro ev s' hstep ⟨e, e', hpc, -, hpc'⟩
    refine ⟨noteAttempt_eq fun _ => by rw [hpc]; rfl, e, hpc, ?_⟩
    have hdrain := hactor hstep hpc (by rw [hpc']; rintro ⟨⟩)
    simp only [drainStep, hpc] at hdrain
    split at hdrain
    · cases hdrain
      cases hpc'
    · split at hdrain
      · cases hdrain
        rfl
      · cases hdrain
        cases hpc'
  · rintro ev s' hstep ⟨e, hpc, rfl, hpc'⟩
    have hdrain := hactor hstep hpc (by rw [hpc']; rintro ⟨⟩)
    obtain ⟨c', n, hc', -, hjob⟩ := (copiesInv_reach hx'.unobserved).drain
      (e := e) (by rw [hpc]; rfl)
    obtain rfl := Option.some.inj (hc.symm.trans hc')
    have hdeadline : e.job.deadlinePassed ev.input.now = c.job.deadlinePassed ev.input.now := by
      rw [Job.deadlinePassed, congrArg Job.deadline hjob, Job.deadlinePassed]
    simp only [drainStep, hpc] at hdrain
    split at hdrain
    · next hdrop =>
        rcases hdrop with hpassed | ⟨hpos, hused⟩
        · exact Or.inl (hdeadline ▸ hpassed)
        · -- the counter is the number of failures, which is within the budget
          have hretries := hbudget.retries hrange hpos (.inHand e (by rw [hpc]; rfl) rfl)
          have hle := hbudget.within.failed.trans (hbudget.within.spent hpos)
          exact Or.inr ⟨hpos, by omega⟩
    · split at hdrain
      · cases hdrain
        cases hpc'
      · cases hdrain
        cases hpc'

/-- One node, and one retry for a held job. -/
def oneRetry : BalancerConfig Rat where
  admission := { capacity_lt := AdmissionConfig.default_lt }
  nodes := [0]
  holdingQueue := { maxRetries := 1 }

/-- The node refuses the job once, and the loop has it in its hands again. -/
theorem retries_within_budget_refused : ∃ x : State Rat × AttemptLedger, ∃ c,
    x.2.failed.count 0 = 1 ∧ x.1.drain.carries = some 0 ∧ KeepsBudget oneRetry x.1 x.2 0 c := by
  obtain ⟨x, hx, hp⟩ := exists_reach (retryingBalancer oneRetry) anyEvent
    (submitScript 0 { priority := .critical } 11 { metrics := [{ state := .overloaded }] } ++
      List.replicate 8 { actor := .drain, input := { selected := some 0 } })
    (fun x => x.2.failed.count 0 == 1 && x.1.drain.carries == some 0 &&
      (x.1.calls[0]?).any fun c => c.job.holdRetries == 0) (by decide +kernel)
  simp only [Bool.and_eq_true, beq_iff_eq] at hp
  obtain ⟨⟨hfailed, hcarries⟩, hany⟩ := hp
  obtain ⟨c, hc, hzero⟩ := (Option.any_eq_true _ _).mp hany
  exact ⟨x, c, hfailed, hcarries,
    retries_within_budget hx (by decide) hc (of_decide_eq_true hzero)⟩

end FatpBalancer
