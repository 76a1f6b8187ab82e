/-
# The balancer: no job is held for ever

Under a limit on the retries, each entry of the holding queue has only so many attempts left, and is
dropped after the last one.  What the queue, the drain thread and the calls that may still store a
job have left is counted as work here, in addition to that of the calls and callbacks, and the steps
of the drain loop pay for it.

Two steps of the loop are not counted: waking up for an empty queue, and putting an entry back
because the cluster looks saturated, which is no attempt.

`heldWork` prices an entry by its attempts, each of them worth the steps of one round of the loop
and of the dispatch it may lead to.  `State.fullWork` adds the price of all entries, stored, in the
loop's hands or still to be stored by a call, to `State.work`.  `State.serves` are the steps that
pay: all those of the calls and callbacks, and those of the loop that take an entry out, ask the
policy, or drop.
-/
import FatpBalancer.Balancer.Progress
import FatpBalancer.Balancer.Unplaced

universe u

namespace FatpBalancer

variable {F : Type u} [FloatOps F] {cfg : BalancerConfig F} {s s' : State F} {ev : Event}
  {inp : Input}

/-! ## What the held jobs have left -/

/-- The attempts until the budget is used up. -/
def attemptsLeft (cfg : BalancerConfig F) (job : Job) : Nat :=
  cfg.holdingQueue.maxRetries - job.holdRetries

/-- An entry pays for the attempts it has left, and for being dropped in the end. -/
def heldWork (cfg : BalancerConfig F) (job : Job) : Nat := 40 * attemptsLeft cfg job + 50

/-- The price of the stored entries. -/
def queueWork (cfg : BalancerConfig F) (queue : HoldingQueue HoldingTerminalCallback) : Nat :=
  Table.total (fun e => heldWork cfg e.job) queue.entries

/-- The call may still store its job. -/
def SubmitPc.mayHold : SubmitPc → Bool
  | .entered | .gate | .globalRate _ | .modes _ | .priorityRate _ | .capacity _ | .reserving _
  | .holdId | .enqueue _ => true
  | _ => false

/-- What a call has to set aside for the job it may store. -/
def SubmitPc.held (cfg : BalancerConfig F) (pc : SubmitPc) : Nat :=
  if pc.mayHold then 40 * cfg.holdingQueue.maxRetries + 52 else 0

/-- An entry in the loop's hands may go back into the queue. -/
def DrainPc.held (cfg : BalancerConfig F) (queue : HoldingQueue HoldingTerminalCallback) :
    DrainPc → Nat
  | .waiting => if queue.entries = [] then 0 else 2
  | .entry e => 40 * attemptsLeft cfg e.job + 10
  | .select e | .nodeSubmit _ e => heldWork cfg (retryEntry e).job + 3
  | .requeue e => heldWork cfg e.job + 3
  | _ => 1

/-- The price of all entries, present and to come. -/
def State.held (cfg : BalancerConfig F) (s : State F) : Nat :=
  queueWork cfg s.m.mHoldingQueue + Table.total (fun c => c.pc.held cfg) s.calls +
    s.drain.held cfg s.m.mHoldingQueue

/-- The work that is left, with that of the held jobs. -/
def State.fullWork (cfg : BalancerConfig F) (s : State F) : Nat := s.work + s.held cfg

/-- Another queue may make the loop wake up, and costs it no more than that. -/
theorem DrainPc.held_le (cfg : BalancerConfig F) (pc : DrainPc)
    (queue queue' : HoldingQueue HoldingTerminalCallback) :
    pc.held cfg queue' ≤ pc.held cfg queue + 2 := by
  cases pc with
  | waiting =>
      simp only [DrainPc.held]
      split <;> split <;> omega
  | _ => exact Nat.le_add_right ..

theorem DrainPc.held_le_of_ne_nil (cfg : BalancerConfig F) (pc : DrainPc)
    {queue : HoldingQueue HoldingTerminalCallback}
    (h : queue.entries ≠ []) (queue' : HoldingQueue HoldingTerminalCallback) :
    pc.held cfg queue' ≤ pc.held cfg queue := by
  cases pc with
  | waiting =>
      simp only [DrainPc.held, if_neg h]
      split <;> omega
  | _ => exact le_rfl

/-! ## The steps of the other threads

They add no entry that was not paid for: a call that stores its job has set the price aside from its
beginning. -/

/-- The price depends on the queue, the calls and the loop. -/
theorem State.held_congr (hcalls : s'.calls = s.calls) (hdrain : s'.drain = s.drain)
    (hqueue : s'.m.mHoldingQueue = s.m.mHoldingQueue) : s'.held cfg ≤ s.held cfg := by
  rw [State.held, State.held, hcalls, hdrain, hqueue]

/-- A call goes on and leaves the queue alone. -/
theorem State.held_submit {i : CallId} {c c' : Call} (hc : s.calls[i]? = some c)
    (hcalls : s'.calls = s.calls.set i c') (hdrain : s'.drain = s.drain)
    (hqueue : s'.m.mHoldingQueue = s.m.mHoldingQueue) (h : c'.pc.held cfg ≤ c.pc.held cfg) :
    s'.held cfg ≤ s.held cfg := by
  have htraded := Table.total_set (w := fun c : Call => c.pc.held cfg) hc c'
  rw [State.held, State.held, hcalls, hdrain, hqueue]
  omega

/-- A call that may hold its job has set the price aside. -/
theorem SubmitPc.held_of_mayHold {pc : SubmitPc} (h : pc.mayHold = true) :
    pc.held cfg = 40 * cfg.holdingQueue.maxRetries + 52 := if_pos h

/-- Wherever it goes from there, it needs no more. -/
theorem SubmitPc.held_le_of_mayHold {pc : SubmitPc} (h : pc.mayHold = true) (pc' : SubmitPc) :
    pc'.held cfg ≤ pc.held cfg := by
  rw [SubmitPc.held_of_mayHold h, SubmitPc.held]
  split <;> omega

/-- In the gate a call may still hold its job. -/
theorem SubmitPc.mayHold_of_gated {pc : SubmitPc} (h : pc.gated = true) : pc.mayHold = true := by
  cases pc <;> first | rfl | cases h

/-- Afterwards it needs nothing. -/
theorem SubmitPc.held_of_not_mayHold {pc : SubmitPc} (h : pc.mayHold = false) :
    pc.held cfg = 0 := by
  rw [SubmitPc.held, h]
  rfl

/-- A `submit` step makes nothing dearer. -/
theorem SubmitMove.held_le {i : CallId} {c : Call} (h : SubmitMove cfg inp s i c s')
    (hc : s.calls[i]? = some c) : s'.held cfg ≤ s.held cfg := by
  have hquiet : ∀ {t : State F} {d : Call}, t.calls = s.calls.set i d → t.drain = s.drain →
      t.m.mHoldingQueue = s.m.mHoldingQueue → c.pc.mayHold = true ∨ d.pc.mayHold = false →
      t.held cfg ≤ s.held cfg := by
    intro t d hcalls hdrain hqueue hhold
    refine State.held_submit hc hcalls hdrain hqueue ?_
    rcases hhold with hhold | hhold
    · exact SubmitPc.held_le_of_mayHold hhold _
    · rw [SubmitPc.held_of_not_mayHold hhold]
      exact Nat.zero_le _
  cases h with
  | enqueued job handle queue hpc hq =>
      have hstored := (HoldingQueue.enqueue_stored hq).1
      have htotal : queueWork cfg queue = heldWork cfg job + queueWork cfg s.m.mHoldingQueue :=
        Table.total_perm hstored.entries
      have htraded := Table.total_set (w := fun c : Call => c.pc.held cfg) hc
        { c with pc := .countHeld handle }
      have hdrain := s.drain.held_le cfg s.m.mHoldingQueue queue
      have hleft : attemptsLeft cfg job ≤ cfg.holdingQueue.maxRetries := Nat.sub_le ..
      have hnow : c.pc.held cfg = 40 * cfg.holdingQueue.maxRetries + 52 :=
        SubmitPc.held_of_mayHold (by rw [hpc]; rfl)
      have hthen : SubmitPc.held cfg (.countHeld handle) = 0 := rfl
      rw [heldWork] at htotal
      rw [State.held, State.held]
      simp only [State.submitAt] at htraded ⊢
      omega
  | reject ac error hpc | advance ac pc hpc =>
      exact hquiet rfl rfl rfl (.inl (SubmitPc.mayHold_of_gated hpc))
  | @register r t r' hpc hr =>
      have hout := hr.sameOutside
      refine hquiet (d := { c with pc := r'.elim (.returned (.ok r.handle)) .register }) ?_
        hout.drain hout.queue (.inr ?_)
      · rw [State.submitAt, hout.calls]
      · cases r' <;> rfl
  | shut hpc | opened hpc | reserve hpc | holdId hpc | notEnqueued _ _ hpc =>
      exact hquiet rfl rfl rfl (.inl (by rw [hpc]; rfl))
  | releaseSlot hpc | countHeld _ hpc | unselected _ hpc | selected _ hpc | assignId _ hpc
  | refused _ _ hpc | accepted _ _ _ hpc | countDispatched _ hpc | backOut _ hpc =>
      exact hquiet rfl rfl rfl (.inr rfl)

/-- An entry that is taken out takes its price along. -/
theorem State.held_taken {entry : HeldEntry} (hcalls : s'.calls = s.calls)
    (hdrain : s'.drain = s.drain) (h : s.m.mHoldingQueue.Taken entry s'.m.mHoldingQueue) :
    s'.held cfg ≤ s.held cfg := by
  have htotal : queueWork cfg s.m.mHoldingQueue =
      heldWork cfg entry.job + queueWork cfg s'.m.mHoldingQueue := Table.total_perm h.entries
  have hne : s.m.mHoldingQueue.entries ≠ [] := by
    intro hnil
    have hlen := h.entries.length_eq
    rw [hnil] at hlen
    cases hlen
  have hle := s.drain.held_le_of_ne_nil cfg hne s'.m.mHoldingQueue
  rw [State.held, State.held, hcalls, hdrain, htotal]
  omega

/-- Nobody but the drain thread, and a new call, adds to what the held jobs have left. -/
theorem step_held_le (h : step cfg s ev = some s') (hactor : ev.actor ≠ .drain)
    (hcalls : s'.calls.length = s.calls.length) : s'.held cfg ≤ s.held cfg := by
  cases step_move h with
  | submitCall job => simp at hcalls
  | submit i c hc hm => exact hm.held_le hc
  | node k d hd hm =>
      obtain ⟨hcalls, -, -, hdrain, -⟩ := hm.threads
      refine State.held_congr hcalls hdrain ?_
      cases hm with
      | finalize f hside hf => exact hf.sameOutside.queue
      | _ => rfl
  | cancel c c' t cancels aging hm hrep =>
      obtain ⟨hcalls, -, -, hdrain, -⟩ := hm.threads
      rcases hm.queue with hqueue | ⟨entry, htaken⟩
      · exact State.held_congr hcalls hdrain hqueue
      · exact State.held_taken hcalls hdrain htaken
  | drain hm hdrain => exact absurd hdrain hactor
  | aging hm => cases hm <;> exact State.held_congr rfl rfl rfl
  | switch k pc hswitch hpc hm => cases hm <;> exact State.held_congr rfl rfl rfl
  | cancelCall | switchCall | toggle | setModes | setDegradationEnabled =>
      exact State.held_congr rfl rfl rfl

/-! ## The drain loop

One round of the loop takes an entry out, and drops it, dispatches it or puts it back with one
attempt less. -/

/-- The loop drops this entry instead of trying it. -/
def dropsEntry (cfg : BalancerConfig F) (inp : Input) (job : Job) : Prop :=
  job.deadlinePassed inp.now ∨
    (0 < cfg.holdingQueue.maxRetries ∧ cfg.holdingQueue.maxRetries ≤ job.holdRetries)

instance (inp : Input) (job : Job) : Decidable (dropsEntry cfg inp job) :=
  inferInstanceAs (Decidable (_ ∨ _))

/-- The drain thread has something to do, and does not find the cluster saturated. -/
def drainServes (cfg : BalancerConfig F) (inp : Input) (s : State F) : Bool :=
  match s.drain with
  | .waiting => !s.m.mHoldingQueue.entries.isEmpty
  | .entry e => dropsEntry cfg inp e.job || !areAllEligibleOverloaded inp.metrics e.job.priority
  | _ => true

/-- What the drain thread and the queue have left between them. -/
def State.drainHeld (cfg : BalancerConfig F) (s : State F) : Nat :=
  queueWork cfg s.m.mHoldingQueue + s.drain.held cfg s.m.mHoldingQueue

/-- A failed attempt is one attempt less. -/
theorem attemptsLeft_retryEntry {e : HeldEntry} (hrange : cfg.holdingQueue.maxRetries < 2 ^ 32)
    (hleft : e.job.holdRetries < cfg.holdingQueue.maxRetries) :
    attemptsLeft cfg (retryEntry e).job + 1 = attemptsLeft cfg e.job := by
  have hnext : (retryEntry e).job.holdRetries = e.job.holdRetries + 1 :=
    fetchAdd32_of_lt (by omega)
  rw [attemptsLeft, attemptsLeft, hnext]
  omega

/-- An entry that is looked at is dropped, or tried if it has an attempt left. -/
theorem drainStep_entry {e : HeldEntry} (h : drainStep cfg inp s = some s')
    (hpc : s.drain = .entry e) (hserves : drainServes cfg inp s = true)
    (hlimit : 0 < cfg.holdingQueue.maxRetries) (hrange : cfg.holdingQueue.maxRetries < 2 ^ 32) :
    s'.dispatches = s.dispatches ∧ s'.drain.work + s'.drainHeld cfg < s.drain.work +
      s.drainHeld cfg := by
  simp only [drainStep, hpc] at h
  split at h
  · cases h
    refine ⟨rfl, ?_⟩
    simp only [State.drainHeld, hpc, DrainPc.work, DrainPc.held]
    omega
  · next hkept =>
      split at h
      · next hsaturated =>
          simp only [drainServes, hpc, hsaturated, dropsEntry, hkept] at hserves
          cases hserves
      · cases h
        rw [not_or, not_and] at hkept
        have hleft := attemptsLeft_retryEntry hrange (not_le.mp (hkept.2 hlimit))
        refine ⟨rfl, ?_⟩
        simp only [State.drainHeld, hpc, DrainPc.work, DrainPc.held, heldWork]
        omega

/-- Every other step of the loop pays too. -/
theorem DrainMove.serves_lt (h : DrainMove cfg inp s s') (hserves : drainServes cfg inp s = true)
    (hentry : ∀ e, s.drain ≠ .entry e) :
    dispatchesWork s'.dispatches + s'.drain.work + s'.drainHeld cfg + s.drain.cost <
      dispatchesWork s.dispatches + s.drain.work + s.drainHeld cfg := by
  -- what is left for the held jobs does not grow while the thread has a job in hand
  have hbusy : s.drain.isBusy = true → s'.drainHeld cfg ≤ s.drainHeld cfg →
      dispatchesWork s'.dispatches + s'.drain.work + s'.drainHeld cfg + s.drain.cost <
        dispatchesWork s.dispatches + s.drain.work + s.drainHeld cfg := by
    intro hbusy hheld
    have hlt := h.work_lt hbusy
    omega
  cases h with
  | wake hpc =>
      simp only [drainServes, hpc, Bool.not_eq_true', List.isEmpty_eq_false_iff] at hserves
      simp only [State.drainHeld, hpc, DrainPc.work, DrainPc.held, DrainPc.cost,
        DrainPc.isSubmitting, if_neg hserves]
      simp
  | drained hpc hq =>
      have hempty := HoldingQueue.tryDequeue_eq_none.mp hq
      simp [State.drainHeld, hpc, DrainPc.work, DrainPc.held, DrainPc.cost, DrainPc.isSubmitting,
        hempty]
  | take entry queue hpc hq =>
      have htotal : queueWork cfg s.m.mHoldingQueue =
          heldWork cfg entry.job + queueWork cfg queue := by
        rw [queueWork, HoldingQueue.tryDequeue_entries hq]
        rfl
      simp only [State.drainHeld, hpc, DrainPc.work, DrainPc.held, DrainPc.cost,
        DrainPc.isSubmitting, htotal, heldWork]
      simp
      omega
  | drop entry hpc | saturated entry hpc | offer entry hpc => exact absurd hpc (hentry entry)
  | unselected entry hpc | selected entry nodeId hpc | refused nodeId entry hpc =>
      refine hbusy (by rw [hpc]; rfl) (le_of_eq ?_)
      simp only [State.drainHeld, hpc]
      rfl
  | requeued entry handle queue hpc hq =>
      have htotal : queueWork cfg queue =
          heldWork cfg entry.job + queueWork cfg s.m.mHoldingQueue :=
        Table.total_perm (HoldingQueue.requeue_stored hq).1.entries
      refine hbusy (by rw [hpc]; rfl) ?_
      simp only [State.drainHeld, hpc, DrainPc.held, htotal]
      split <;> omega
  | lost entry error hpc hq =>
      refine hbusy (by rw [hpc]; rfl) ?_
      simp only [State.drainHeld, hpc, DrainPc.held]
      split <;> omega
  | accepted nodeId entry handle hpc hin hfree =>
      refine hbusy (by rw [hpc]; rfl) ?_
      simp only [State.drainHeld, hpc, DrainPc.held, acceptDispatch]
      omega
  | releaseSlot r hpc | dropRelease entry hpc =>
      refine hbusy (by rw [hpc]; rfl) (le_of_eq ?_)
      simp only [State.drainHeld, hpc]
      rfl
  | @dropping f t f' hpc hf =>
      refine hbusy (by rw [hpc]; rfl) (le_of_eq ?_)
      simp only [State.drainHeld, hpc, hf.sameOutside.queue]
      cases f' <;> rfl
  | @register r t r' hpc hr =>
      refine hbusy (by rw [hpc]; rfl) (le_of_eq ?_)
      simp only [State.drainHeld, hpc, hr.sameOutside.queue]
      cases r' <;> rfl

/-! ## Every step that serves pays

The two kinds of work together. -/

/-- A thread deals with a job, or the drain loop with the queue. -/
def State.serves (cfg : BalancerConfig F) (s : State F) (ev : Event) : Bool :=
  match ev.actor with
  | .drain => drainServes cfg ev.input s
  | _ => s.busy ev

/-- A step that serves makes the full work less, or makes a stale reading fresh. -/
theorem step_serves (hlimit : 0 < cfg.holdingQueue.maxRetries)
    (hrange : cfg.holdingQueue.maxRetries < 2 ^ 32) (h : step cfg s ev = some s')
    (hserves : s.serves cfg ev = true) : Pays (State.fullWork cfg) (s.cost ev.actor) s s' := by
  by_cases hactor : ev.actor = .drain
  · rw [State.serves, hactor] at hserves
    simp only [step, hactor] at h
    have hm := drainStep_move h
    obtain ⟨hcalls, hcancels, -, haging⟩ := hm.threads
    refine ⟨by rw [hcalls], .inl ?_⟩
    have hlt : dispatchesWork s'.dispatches + s'.drain.work + s'.drainHeld cfg + s.drain.cost <
        dispatchesWork s.dispatches + s.drain.work + s.drainHeld cfg := by
      by_cases hentry : ∃ e, s.drain = .entry e
      · obtain ⟨e, hpc⟩ := hentry
        obtain ⟨hdispatches, hlt⟩ := drainStep_entry h hpc hserves hlimit hrange
        have hcost : s.drain.cost = 0 := by rw [hpc]; rfl
        rw [hdispatches, hcost]
        omega
      · exact hm.serves_lt hserves fun e hpc => hentry ⟨e, hpc⟩
    simp only [State.fullWork, State.work, State.held, hcalls, hcancels, haging, State.cost, hactor]
    rw [State.drainHeld, State.drainHeld] at hlt
    omega
  · have hbusy : s.busy ev = true := by
      rw [State.serves] at hserves
      split at hserves
      · next hdrain => exact absurd hdrain hactor
      · exact hserves
    have hpays := step_pays h hbusy
    have hheld : s'.held cfg ≤ s.held cfg := step_held_le h hactor hpays.calls
    refine ⟨hpays.calls, ?_⟩
    rw [State.fullWork, State.fullWork]
    rcases hpays.pays with hlt | ⟨hzero, hle, hless⟩
    · exact .inl (by omega)
    · exact .inr ⟨hzero, by omega, hless⟩

end FatpBalancer
