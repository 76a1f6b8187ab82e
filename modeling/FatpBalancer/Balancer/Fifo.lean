/-
# The order in which held jobs are served

The queue alone is first in, first out.  The drain loop takes its head out to look at it, and when
the job cannot be dispatched puts it back at the end of its list: behind every entry of the same
priority that has been enqueued in the meantime.

The order is that of the enqueues.  Within a priority the entry in the drain thread's hands is the
first of those that were there, and what is served is served in that order as long as no cycle ends
with a `requeue`, which puts its entry behind the others.
-/
import FatpBalancer.Balancer.Flood
import FatpBalancer.Balancer.History

universe u

namespace FatpBalancer

open Machine

variable {F : Type u} [FloatOps F] {cfg : BalancerConfig F} {inp : Input} {ev : Event}
  {s s' : State F}

/-- The drain thread offers an entry to a node only before all stored entries of its priority that
were enqueued later: none that was enqueued earlier is still held.  It takes a high entry out of the
queue only when no critical one is stored. -/
structure ServesInOrder (s s' : State F) : Prop where
  fifo : ∀ nodeId entry r, s.drain = .nodeSubmit nodeId entry → s'.drain = .releaseSlot r →
    ∀ a ∈ s.m.mHoldingQueue.entries, a.job.priority = entry.job.priority → entry.seq < a.seq
  criticalFirst : ∀ entry, s.drain = .looping → s'.drain = .entry entry →
    entry.job.priority ≠ .critical →
    ∀ a ∈ s.m.mHoldingQueue.entries, a.job.priority ≠ .critical

/-- The step is not one that puts an entry back behind another one of its priority. -/
def RequeuesAlone (s : State F) (ev : Event) : Prop :=
  match ev.actor, s.drain with
  | .drain, .requeue entry => (s.m.mHoldingQueue.band entry.job.priority).isEmpty = true
  | _, _ => True

instance (s : State F) (ev : Event) : Decidable (RequeuesAlone s ev) := by
  unfold RequeuesAlone
  split <;> infer_instance

/-- The queue is in order, and the entry in the drain thread's hands comes before what is stored of
its priority. -/
structure OrderInv (s : State F) : Prop where
  ordered : s.m.mHoldingQueue.Ordered
  hand : ∀ {e : HeldEntry}, s.drain.entry? = some e →
    s.m.mHoldingQueue.Foremost e ∧ e.seq < s.m.mHoldingQueue.mNextSeq

theorem OrderInv.create (cfg : BalancerConfig F) : OrderInv (State.create cfg) where
  ordered := ⟨.nil, .nil, by simp [State.create, Members.create],
    by simp [State.create, Members.create],
    by simp [State.create, Members.create, HoldingQueue.entries]⟩
  hand he := by cases he

theorem OrderInv.kept (h : OrderInv s) (hqueue : s'.m.mHoldingQueue = s.m.mHoldingQueue)
    (hdrain : s'.drain = s.drain) : OrderInv s' :=
  ⟨hqueue ▸ h.ordered, fun he => by
    rw [hqueue]
    exact h.hand (hdrain ▸ he)⟩

theorem OrderInv.submit (h : OrderInv s) {i : CallId} {c : Call}
    (hm : SubmitMove cfg inp s i c s') : OrderInv s' := by
  cases hm with
  | enqueued job handle queue hpc hq =>
      refine ⟨h.ordered.enqueue hq, fun {e} he => ?_⟩
      obtain ⟨hforemost, hissued⟩ := h.hand he
      unfold HoldingQueue.enqueue at hq
      split at hq
      · cases hq
      · cases hq
        refine ⟨fun a ha => ?_, ?_⟩
        · rcases HoldingQueue.mem_band_pushBack ha with ha | rfl
          · exact hforemost a ha
          · exact hissued
        · exact (HoldingQueue.pushBack_nextSeq _ _).symm ▸ Nat.lt_succ_of_lt hissued
  | register r hpc hr => exact h.kept hr.sameOutside.queue hr.sameOutside.drain
  | _ => exact h.kept rfl rfl

theorem OrderInv.cancel (h : OrderInv s) {c c' : CancelCall} (hm : CancelMove cfg inp s c s' c') :
    OrderInv s' := by
  cases hm with
  | removed entry queue hpc hbit hq =>
      obtain ⟨hcrit, hhigh, hnext⟩ := HoldingQueue.remove_sublist hq
      refine ⟨h.ordered.sublist hcrit hhigh hnext, fun {e} he => ?_⟩
      obtain ⟨hforemost, hissued⟩ := h.hand he
      refine ⟨fun a ha => hforemost a ?_, hnext ▸ hissued⟩
      unfold HoldingQueue.band at ha ⊢
      split at ha
      · next hp => exact if_pos hp ▸ hcrit.subset ha
      · next hp => exact if_neg hp ▸ hhigh.subset ha
  | finalize f hpc hf => exact h.kept hf.sameOutside.queue hf.sameOutside.drain
  | _ => exact h.kept rfl rfl

theorem OrderInv.drain (h : OrderInv s) (hm : DrainMove cfg inp s s')
    (halone : ∀ entry, s.drain = .requeue entry →
      s.m.mHoldingQueue.band entry.job.priority = []) : OrderInv s' := by
  cases hm with
  | take entry queue hpc hq =>
      obtain ⟨hordered, hforemost, hissued, -⟩ := h.ordered.tryDequeue hq
      refine ⟨hordered, fun {e} he => ?_⟩
      obtain rfl : entry = e := Option.some.inj he
      exact ⟨hforemost, hissued⟩
  -- put back behind an empty band, so in order again
  | requeued entry handle queue hpc hq =>
      obtain ⟨-, hissued⟩ := h.hand (e := entry) (by rw [hpc]; rfl)
      exact ⟨h.ordered.requeue (halone entry hpc) hissued hq, nofun⟩
  | saturated entry hpc | offer entry hpc | unselected entry hpc | selected entry nodeId hpc
  | refused nodeId entry hpc =>
      refine ⟨h.ordered, fun {e} he => ?_⟩
      have hhand := h.hand (e := entry) (by rw [hpc]; rfl)
      obtain rfl := Option.some.inj he
      exact hhand
  | @dropping f t f' hpc hf =>
      have hout := hf.sameOutside
      refine ⟨hout.queue ▸ h.ordered, fun {e} he => ?_⟩
      cases f' <;> cases he
  | @register r t r' hpc hr =>
      have hout := hr.sameOutside
      refine ⟨hout.queue ▸ h.ordered, fun {e} he => ?_⟩
      cases r' <;> cases he
  | wake | drained | drop | dropRelease | accepted | lost | releaseSlot =>
      exact ⟨h.ordered, nofun⟩

theorem OrderInv.next (h : OrderInv s) (hm : Move cfg ev s s') (hok : RequeuesAlone s ev) :
    OrderInv s' := by
  cases hm with
  | submit i c hc hm => exact h.submit hm
  | node k d hd hm =>
      cases hm with
      | finalize f hside hf => exact h.kept hf.sameOutside.queue hf.sameOutside.drain
      | _ => exact h.kept rfl rfl
  | cancel c c' t cancels aging hm hrep => exact (h.cancel hm).kept rfl rfl
  | drain hm hactor =>
      refine h.drain hm fun entry hpc => ?_
      simp only [RequeuesAlone, hactor, hpc, List.isEmpty_iff] at hok
      exact hok
  | aging hm => cases hm <;> exact h.kept rfl rfl
  | switch k pc hactor hpc hm => cases hm <;> exact h.kept rfl rfl
  | _ => exact h.kept rfl rfl

theorem orderInv_reach (hs : (balancer cfg).Reach RequeuesAlone s) : OrderInv s :=
  hs.invariant (.create cfg) fun _ _ h hok hstep => h.next (step_move hstep) hok

theorem Move.entry_taken (h : Move cfg ev s s') {entry : HeldEntry} (hpc : s.drain = .looping)
    (hpc' : s'.drain = .entry entry) :
    ∃ queue, s.m.mHoldingQueue.tryDequeue = some (entry, queue) := by
  rcases h.drain_cases with heq | hm
  · rw [heq, hpc] at hpc'
    cases hpc'
  · cases hm with
    | take entry' queue hpc₀ hq =>
        cases hpc'
        exact ⟨queue, hq⟩
    | @dropping f t f' hpc₀ hf => cases f' <;> cases hpc'
    | @register r t r' hpc₀ hr => cases r' <;> cases hpc'
    | _ => cases hpc'

/-- **Held jobs are served in order as long as no entry is put back behind another.** -/
theorem serves_in_order (hs : (balancer cfg).Reach RequeuesAlone s)
    (hstep : step cfg s ev = some s') : ServesInOrder s s' := by
  have h := orderInv_reach hs
  refine ⟨fun nodeId entry r hpc _ a ha hp => ?_, fun entry hpc hpc' hp a ha hcrit => ?_⟩
  · obtain ⟨hforemost, -⟩ := h.hand (e := entry) (by rw [hpc]; rfl)
    exact hforemost a (hp ▸ h.ordered.mem_band ha)
  · obtain ⟨queue, hq⟩ := (step_move hstep).entry_taken hpc hpc'
    obtain ⟨-, -, -, hempty⟩ := h.ordered.tryDequeue hq
    have := hcrit ▸ h.ordered.mem_band ha
    rw [hempty hp] at this
    cases this

/-- Two critical jobs held one after the other, and the drain thread up to the head of its loop. -/
def twoHeld : List Event :=
  submitScript 0 { priority := .critical } 11 { metrics := [{ state := .overloaded }] } ++
    submitScript 1 { priority := .critical } 11 { metrics := [{ state := .overloaded }] } ++
    [{ actor := .drain }]

/-- The entry taken out of the queue next goes to the node. -/
def serveOne : List Event :=
  [{ actor := .drain }, { actor := .drain }, { actor := .drain, input := { selected := some 0 } }]

/-- A cycle that finds the cluster still saturated. -/
def saturatedCycle : List Event :=
  [{ actor := .drain }, { actor := .drain, input := { metrics := [{ state := .overloaded }] } },
    { actor := .drain }, { actor := .drain }]

/-- The node takes what the drain thread offers. -/
def accept : Event := { actor := .drain, input := { accepted := some 7 } }

/-- The drain thread offers an entry, and the node takes it. -/
def dispatches (cfg : BalancerConfig F) (s : State F) (p : HeldEntry → Bool) : Bool :=
  match s.drain, (step cfg s accept).map State.drain with
  | .nodeSubmit _ entry, some (.releaseSlot _) => p entry
  | _, _ => false

theorem exists_of_dispatches {p : HeldEntry → Bool} (h : dispatches cfg s p = true) :
    ∃ s' nodeId entry r, step cfg s accept = some s' ∧ s.drain = .nodeSubmit nodeId entry ∧
      s'.drain = .releaseSlot r ∧ p entry = true := by
  unfold dispatches at h
  split at h
  · next nodeId entry r hpc hstep =>
      obtain ⟨s', hs', hpc'⟩ := Option.map_eq_some_iff.mp hstep
      exact ⟨s', nodeId, entry, r, hs', hpc, hpc', h⟩
  · cases h

/-- The first of two held jobs goes to the node. -/
theorem serves_in_order_first : ∃ s s' : State Rat, ServesInOrder s s' ∧
    ∃ nodeId entry r, s.drain = .nodeSubmit nodeId entry ∧ s'.drain = .releaseSlot r ∧
      entry.seq = 1 := by
  obtain ⟨s, hs, hp⟩ := exists_reach (balancer oneNode) RequeuesAlone (twoHeld ++ serveOne)
    (fun s => dispatches oneNode s fun entry => entry.seq == 1) (by decide)
  obtain ⟨s', nodeId, entry, r, hstep, hpc, hpc', hseq⟩ := exists_of_dispatches hp
  exact ⟨s, s', serves_in_order hs hstep, nodeId, entry, r, hpc, hpc', by simpa using hseq⟩

/-- A saturated cycle puts the first job behind the second, which is dispatched before it. -/
theorem requeue_overtaken : ∃ s s' : State Rat, (balancer oneNode).Reach anyEvent s ∧
    step oneNode s accept = some s' ∧ ¬ServesInOrder s s' := by
  obtain ⟨s, hs, hp⟩ := exists_reach (balancer oneNode) anyEvent
    (twoHeld ++ saturatedCycle ++ serveOne)
    (fun s => dispatches oneNode s fun entry => s.m.mHoldingQueue.entries.any fun a =>
      a.job.priority == entry.job.priority && decide (a.seq < entry.seq)) (by decide)
  obtain ⟨s', nodeId, entry, r, hstep, hpc, hpc', hover⟩ := exists_of_dispatches hp
  refine ⟨s, s', hs, hstep, fun h => ?_⟩
  simp only [List.any_eq_true, Bool.and_eq_true, beq_iff_eq, decide_eq_true_eq] at hover
  obtain ⟨a, ha, hp, hlt⟩ := hover
  have := h.fifo nodeId entry r hpc hpc' a ha hp
  omega

end FatpBalancer
