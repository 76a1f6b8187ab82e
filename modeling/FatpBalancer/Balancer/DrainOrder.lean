/-
# What the head of the drain order stands for

The drain loop looks at one entry at a time and ends its cycle at the first one that finds the
cluster saturated or finds no node at all.  It may: the entries are served in the order of their
priorities, and a lower priority is accepted by fewer nodes, an overloaded one apart only by nodes
that accept the higher one too.  What the head is refused for, all entries behind it would be
refused for.

`nodeAcceptsPriority_mono` and `noRoom_iff` are about the nodes: a lower priority is accepted by
fewer of them.  `Banded` is about the queue: what is served first has the highest priority there
is.  `HeadCheck` ties the two together in a run, from the moment at which the drain thread takes its
head out to the one at which it gives up, with the metrics it has read.
-/
import FatpBalancer.Balancer.DrainPass
import FatpBalancer.Balancer.Provenance

universe u v

namespace FatpBalancer

open Machine

/-! ## Eligibility and priority

For any list of metrics. -/

/-- No node of the snapshot accepts this priority. -/
def NoneAccepts (metrics : List LoadMetrics) (priority : Priority) : Prop :=
  ∀ m ∈ metrics, nodeAcceptsPriority m.state priority = false

/-- No node of the snapshot accepts this priority without being overloaded. -/
def NoRoom (metrics : List LoadMetrics) (priority : Priority) : Prop :=
  ∀ m ∈ metrics, nodeAcceptsPriority m.state priority = true → m.state = .overloaded

section Eligibility

variable {metrics : List LoadMetrics} {p q : Priority}

/-- A node that accepts a priority accepts every higher one. -/
theorem nodeAcceptsPriority_mono {state : NodeState} (hpq : p.value ≤ q.value)
    (h : nodeAcceptsPriority state q = true) : nodeAcceptsPriority state p = true := by
  revert hpq h
  cases state <;> cases p <;> cases q <;> decide

theorem NoneAccepts.mono (hpq : p.value ≤ q.value) (h : NoneAccepts metrics p) :
    NoneAccepts metrics q := by
  intro m hm
  have hp := h m hm
  rw [← Bool.not_eq_true] at hp ⊢
  exact fun hq => hp (nodeAcceptsPriority_mono hpq hq)

theorem NoRoom.mono (hpq : p.value ≤ q.value) (h : NoRoom metrics p) : NoRoom metrics q :=
  fun m hm hq => h m hm (nodeAcceptsPriority_mono hpq hq)

/-- There is no room for a priority exactly when it is refused everywhere or saturated. -/
theorem noRoom_iff :
    NoRoom metrics p ↔ areAllEligibleOverloaded metrics p = true ∨ NoneAccepts metrics p := by
  rw [areAllEligibleOverloaded_iff]
  constructor
  · intro h
    by_cases hany : ∃ m ∈ metrics, nodeAcceptsPriority m.state p = true
    · exact .inl ⟨hany, h⟩
    · refine .inr fun m hm => ?_
      rw [← Bool.not_eq_true]
      exact fun hp => hany ⟨m, hm, hp⟩
  · rintro (⟨-, h⟩ | h)
    · exact h
    · intro m hm hp
      rw [h m hm] at hp
      cases hp

/-- The overloaded nodes still accept what the holding queue takes, so saturation carries over. -/
theorem saturated_mono (hpq : p.value ≤ q.value) (hq : q.holdable = true)
    (h : areAllEligibleOverloaded metrics p = true) :
    areAllEligibleOverloaded metrics q = true := by
  rw [areAllEligibleOverloaded_iff] at h ⊢
  obtain ⟨⟨m, hm, haccepts⟩, hfull⟩ := h
  have hroom : NoRoom metrics q := NoRoom.mono hpq hfull
  refine ⟨⟨m, hm, ?_⟩, hroom⟩
  rw [hfull m hm haccepts]
  cases q <;> first | rfl | cases hq

end Eligibility

/-! ## The bands of the queue

An entry is in the list of its priority, and the critical list is served first. -/

namespace HoldingQueue

variable {C : Type v} {q q' : HoldingQueue C} {e : Entry C}

/-- Each list holds the entries of its own priority. -/
structure Banded (q : HoldingQueue C) : Prop where
  critical : ∀ e ∈ q.mCritical, e.job.priority = .critical
  high : ∀ e ∈ q.mHigh, e.job.priority = .high

theorem Banded.holdable (h : q.Banded) (he : e ∈ q.entries) : e.job.priority.holdable = true := by
  rcases List.mem_append.mp he with he | he
  · rw [h.critical e he]
    rfl
  · rw [h.high e he]
    rfl

theorem Banded.sublist (h : q.Banded) (hcrit : q'.mCritical.Sublist q.mCritical)
    (hhigh : q'.mHigh.Sublist q.mHigh) : q'.Banded where
  critical e he := h.critical e (hcrit.subset he)
  high e he := h.high e (hhigh.subset he)

theorem Banded.pushBack (h : q.Banded) (he : e.job.priority.holdable = true) :
    (q.pushBack e).Banded := by
  unfold HoldingQueue.pushBack
  split
  · next hcrit =>
      refine ⟨fun a ha => ?_, h.high⟩
      rcases List.mem_append.mp ha with ha | ha
      · exact h.critical a ha
      · rwa [List.mem_singleton.mp ha]
  · next hcrit =>
      refine ⟨h.critical, fun a ha => ?_⟩
      rcases List.mem_append.mp ha with ha | ha
      · exact h.high a ha
      · rw [List.mem_singleton.mp ha]
        cases hp : e.job.priority with
        | critical => exact absurd hp hcrit
        | high => rfl
        | _ =>
            rw [hp] at he
            cases he

theorem Banded.enqueue {job : Job} {onDone : C} {handle : JobHandle} (h : q.Banded)
    (hjob : job.priority.holdable = true) (hq : q.enqueue job onDone = .ok (handle, q')) :
    q'.Banded := by
  unfold HoldingQueue.enqueue at hq
  split at hq
  · cases hq
  · cases hq
    have hnext : ({ q with mNextSeq := q.mNextSeq + 1 } : HoldingQueue C).Banded :=
      ⟨h.critical, h.high⟩
    exact hnext.pushBack hjob

theorem Banded.requeue {handle : JobHandle} (h : q.Banded) (he : e.job.priority.holdable = true)
    (hq : q.requeue e = .ok (handle, q')) : q'.Banded := by
  unfold HoldingQueue.requeue at hq
  split at hq
  · cases hq
  · cases hq
    exact h.pushBack he

theorem Banded.tryDequeue (h : q.Banded) (hq : q.tryDequeue = some (e, q')) : q'.Banded :=
  h.sublist (tryDequeue_sublist hq).1 (tryDequeue_sublist hq).2

/-- The entries are served in the order of their priorities. -/
theorem Banded.sorted (h : q.Banded) :
    q.entries.Pairwise fun a b => a.job.priority.value ≤ b.job.priority.value := by
  refine List.pairwise_append.mpr ⟨?_, ?_, ?_⟩
  · exact List.pairwise_of_forall_mem_list fun a ha b hb => by
      rw [h.critical a ha, h.critical b hb]
  · exact List.pairwise_of_forall_mem_list fun a ha b hb => by
      rw [h.high a ha, h.high b hb]
  · intro a ha b hb
    rw [h.critical a ha]
    exact Nat.zero_le _

theorem Banded.head_le (h : q.Banded) (hq : q.tryDequeue = some (e, q')) {a : Entry C}
    (ha : a ∈ q'.entries) : e.job.priority.value ≤ a.job.priority.value := by
  have hsorted := h.sorted
  rw [tryDequeue_entries hq] at hsorted
  exact (List.pairwise_cons.mp hsorted).1 a ha

end HoldingQueue

/-! ## The bands of the balancer's queue

Only critical and high jobs are held, since only these reserve a slot. -/

/-- The call is after a holding slot, or has one. -/
def SubmitPc.holding : SubmitPc → Bool
  | .reserving _ | .holdId | .enqueue _ => true
  | _ => false

section Balancer

variable {F : Type u} [FloatOps F] {cfg : BalancerConfig F} {inp : Input} {ev : Event}
  {s s' : State F}

/-- Of the admission layers only the last one sends a call for a slot, and only one with a critical
or high job. -/
theorem gatedStep_holding {i : CallId} {c c' : Call} (hc : s.calls[i]? = some c)
    (hgated : c.pc.gated = true) (h : submitStep cfg inp s i c = some s')
    (hc' : s'.calls[i]? = some c') (hpc' : c'.pc.holding = true) :
    c.pc.holding = true ∨ c.job.priority.holdable = true := by
  cases hpc : c.pc with
  | reserving current => exact .inl rfl
  | gate =>
      simp only [submitStep, hpc, Option.some.injEq] at h
      subst h
      obtain rfl := call_of_set hc hc' rfl
      split at hpc' <;> cases hpc'
  | globalRate saturated | modes saturated | priorityRate saturated =>
      simp only [submitStep, hpc, Option.some.injEq] at h
      subst h
      obtain rfl := call_of_set hc hc' rfl
      revert hpc'
      dsimp only
      generalize Prod.fst _ = verdict
      cases verdict <;> simp [SubmitPc.holding]
  | capacity saturated =>
      refine .inr ?_
      simp only [submitStep, hpc, AdmissionControl.capacityVerdict] at h
      split at h
      · cases h
        obtain rfl := call_of_set hc hc' rfl
        cases hpc'
      · next hreserve =>
          split at hreserve
          · split at hreserve
            · assumption
            · cases hreserve
          · cases hreserve
      · cases h
        obtain rfl := call_of_set hc hc' rfl
        cases hpc'
  | _ =>
      rw [hpc] at hgated
      cases hgated

theorem submitStep_holding {i : CallId} {c c' : Call} (hc : s.calls[i]? = some c)
    (h : submitStep cfg inp s i c = some s') (hc' : s'.calls[i]? = some c')
    (hpc' : c'.pc.holding = true) : c.pc.holding = true ∨ c.job.priority.holdable = true := by
  cases submitStep_move h with
  | advance ac pc hgated => exact gatedStep_holding hc hgated h hc' hpc'
  | reserve hpc | holdId hpc =>
      left
      rw [hpc]
      rfl
  | @register r t r' hpc hr =>
      obtain rfl := call_of_set hc hc' (by rw [State.submitAt, hr.sameOutside.calls])
      cases r' <;> cases hpc'
  | _ =>
      obtain rfl := call_of_set hc hc' rfl
      cases hpc'

/-- Held are critical and high jobs alone, and each in its own list. -/
structure BandsInv (s : State F) : Prop where
  calls : ∀ {i : CallId} {c : Call}, s.calls[i]? = some c → c.pc.holding = true →
    c.job.priority.holdable = true
  queue : s.m.mHoldingQueue.Banded
  drain : ∀ {e : HeldEntry}, s.drain.entry? = some e → e.job.priority.holdable = true

theorem BandsInv.create (cfg : BalancerConfig F) : BandsInv (State.create cfg) where
  calls hc := by cases hc
  queue := ⟨List.forall_mem_nil _, List.forall_mem_nil _⟩
  drain he := by cases he

theorem BandsInv.calls_next (h : BandsInv s) (hstep : step cfg s ev = some s') {i : CallId}
    {c' : Call} (hc' : s'.calls[i]? = some c') (hpc' : c'.pc.holding = true) :
    c'.job.priority.holdable = true := by
  rcases (step_move hstep).call_back hc' with hentered | ⟨c, hc, rfl | ⟨hactor, hm⟩⟩
  · rw [hentered] at hpc'
    cases hpc'
  · exact h.calls hc hpc'
  · have hsubmit : submitStep cfg ev.input s i c = some s' := by
      rw [step, hactor] at hstep
      simpa only [hc, Option.bind_some] using hstep
    obtain ⟨b, hcalls, hjob⟩ := hm.calls
    obtain rfl := call_of_set hc hc' hcalls
    rw [hjob]
    rcases submitStep_holding hc hsubmit hc' hpc' with hpc | hholdable
    · exact h.calls hc hpc
    · exact hholdable

/-- A numbered copy has the priority of the job that was submitted. -/
theorem IsCopy.priority {calls : List Call} {call : CallId} {job : Job} {c : Call}
    (h : IsCopy calls call job) (hc : calls[call]? = some c) :
    job.priority = c.job.priority := by
  obtain ⟨b, n, hb, -, hjob⟩ := h
  obtain rfl := Option.some.inj (hb.symm.trans hc)
  rw [hjob]

theorem SameEntry.priority {e e' : HeldEntry} (h : SameEntry e e') :
    e'.job.priority = e.job.priority := by
  obtain ⟨submitted, holdRetries, hjob⟩ := h.job
  rw [hjob]

theorem BandsInv.queue_next (h : BandsInv s) (hcopies : CopiesInv s) (hm : Move cfg ev s s') :
    s'.m.mHoldingQueue.Banded := by
  cases hm.queue with
  | kept hqueue => exact hqueue ▸ h.queue
  | enqueued i c job handle hc hpc hq =>
      have hjob := (hcopies.calls hc (by rw [hpc]; rfl)).priority hc
      refine h.queue.enqueue ?_ hq
      rw [hjob]
      exact h.calls hc (by rw [hpc]; rfl)
  | removed handle entry hq =>
      obtain ⟨hcrit, hhigh, -⟩ := HoldingQueue.remove_sublist hq
      exact h.queue.sublist hcrit hhigh
  | taken entry hpc hq => exact h.queue.tryDequeue hq
  | requeued entry handle hpc hq => exact h.queue.requeue (h.drain (by rw [hpc]; rfl)) hq

theorem BandsInv.next (h : BandsInv s) (hcopies : CopiesInv s) (hstep : step cfg s ev = some s') :
    BandsInv s' where
  calls := h.calls_next hstep
  queue := h.queue_next hcopies (step_move hstep)
  drain he := by
    rcases (step_move hstep).drain_entry he with ⟨e₀, he₀, hsame⟩ | ⟨-, he⟩
    · rw [hsame.priority]
      exact h.drain he₀
    · exact h.queue.holdable he

theorem bandsInv_reach {ok : State F → Event → Prop} (hs : (balancer cfg).Reach ok s) :
    BandsInv s :=
  hs.invariant (.create cfg) fun _ hs h _ hstep => h.next (copiesInv_reach hs) hstep

/-! ## The break of the drain cycle

The metrics are those of the drain thread's own reading, so that other threads may change the nodes
meanwhile. -/

/-- The drain thread looks at the head of the queue: it takes `e` out and leaves `behind`, the other
threads go on, and it checks the entry against the snapshot in `inp`. -/
inductive HeadCheck (cfg : BalancerConfig F) (e : HeldEntry)
    (behind : HoldingQueue HoldingTerminalCallback) (inp : Input) (s s' : State F) : Prop
  | check {s₀ s₁ : State F} {take : Input} {others : List Event}
      (hs : (balancer cfg).Reach anyEvent s₀) (hpc : s₀.drain = .looping)
      (hhead : s₀.m.mHoldingQueue.tryDequeue = some (e, behind))
      (htake : step cfg s₀ { actor := .drain, input := take } = some s₁)
      (hothers : ∀ ev ∈ others, ev.actor ≠ .drain) (hrun : (balancer cfg).run s₁ others = some s)
      (hcheck : step cfg s { actor := .drain, input := inp } = some s')

theorem HeadCheck.reach {e : HeldEntry} {behind : HoldingQueue HoldingTerminalCallback}
    (h : HeadCheck cfg e behind inp s s') : (balancer cfg).Reach anyEvent s := by
  obtain @⟨s₀, s₁, take, others, hs, -, -, htake, -, hrun, -⟩ := h
  have hs₁ : (balancer cfg).Reach anyEvent s₁ :=
    .step { actor := .drain, input := take } hs trivial htake
  exact hs₁.run others hrun

/-- The entry is in the hands of the drain thread until the check. -/
theorem HeadCheck.inHand {e : HeldEntry} {behind : HoldingQueue HoldingTerminalCallback}
    (h : HeadCheck cfg e behind inp s s') : s.drain = .entry e := by
  obtain ⟨hs, hpc, hhead, htake, hothers, hrun, -⟩ := h
  refine run_invariant (I := fun t => t.drain = .entry e) (fun _ _ ev hev he hstep => ?_) ?_ hrun
  · exact ((step_move hstep).drain_eq (hothers ev hev)).trans he
  · simp only [step, drainStep, hpc, hhead, Option.some.injEq] at htake
    rw [← htake]

theorem HeadCheck.saturated {e : HeldEntry} {behind : HoldingQueue HoldingTerminalCallback}
    (h : HeadCheck cfg e behind inp s s') (hpc' : s'.drain = .requeue e) :
    areAllEligibleOverloaded inp.metrics e.job.priority = true := by
  have hpc := h.inHand
  obtain ⟨-, -, -, -, -, -, hcheck⟩ := h
  simp only [step, drainStep, hpc] at hcheck
  split at hcheck
  · cases hcheck
    cases hpc'
  · split at hcheck
    · assumption
    · cases hcheck
      cases hpc'

theorem HeadCheck.value_le {e a : HeldEntry} {behind : HoldingQueue HoldingTerminalCallback}
    (h : HeadCheck cfg e behind inp s s')
    (ha : a ∈ behind.entries ∨ a ∈ s.m.mHoldingQueue.entries ∧
      (a.job.priority = .critical → e.job.priority = .critical)) :
    e.job.priority.value ≤ a.job.priority.value := by
  have hinv := bandsInv_reach h.reach
  have he := hinv.drain (e := e) (by rw [h.inHand]; rfl)
  rcases ha with ha | ⟨ha, hcrit⟩
  · obtain ⟨hs, -, hhead, -, -, -, -⟩ := h
    exact (bandsInv_reach hs).queue.head_le hhead ha
  -- a critical entry that stands behind this one says that this one is critical
  · have ha := hinv.queue.holdable ha
    revert he ha hcrit
    cases e.job.priority <;> cases a.job.priority <;> decide

/-- **The drain cycle ends on an entry for all entries behind it.**  Where the head of the queue
finds the cluster saturated, or no node that accepts its priority, every entry behind it finds the
same.  So no entry that was in the queue when the thread took its head had a node that would have
accepted it without being overloaded, nor had one that came in between, except a critical one that
came while a high one was in hand. -/
theorem head_blocks_behind (cfg : BalancerConfig F) :
    (∀ {C : Type v} {q q' : HoldingQueue C} {e : Entry C} (metrics : List LoadMetrics), q.Banded →
      q.tryDequeue = some (e, q') →
        (areAllEligibleOverloaded metrics e.job.priority = true →
          ∀ a ∈ q'.entries, areAllEligibleOverloaded metrics a.job.priority = true) ∧
        (NoneAccepts metrics e.job.priority →
          ∀ a ∈ q'.entries, NoneAccepts metrics a.job.priority)) ∧
      (∀ s, (balancer cfg).Reach anyEvent s → s.m.mHoldingQueue.Banded) ∧
      ∀ e behind inp s s', HeadCheck cfg e behind inp s s' →
        s'.drain = .requeue e ∨ NoneAccepts inp.metrics e.job.priority →
        ∀ a, a ∈ behind.entries ∨ a ∈ s.m.mHoldingQueue.entries ∧
            (a.job.priority = .critical → e.job.priority = .critical) →
          NoRoom inp.metrics a.job.priority := by
  refine ⟨fun {C q q' e} metrics hq hhead => ⟨fun hfull a ha => ?_, fun hnone a ha => ?_⟩,
    fun s hs => (bandsInv_reach hs).queue, fun e behind inp s s' hlook hbreak a ha => ?_⟩
  · exact saturated_mono (hq.head_le hhead ha) ((hq.tryDequeue hhead).holdable ha) hfull
  · exact hnone.mono (hq.head_le hhead ha)
  · have hroom : NoRoom inp.metrics e.job.priority :=
      noRoom_iff.mpr (hbreak.imp_left hlook.saturated)
    exact hroom.mono (hlook.value_le ha)

/-- The drain thread is at the head of its loop, takes an entry with one more behind it, and puts it
back because the cluster is saturated. -/
def breaksBeforeOne (s : State Rat) : Bool :=
  s.drain.atHead && s.m.mHoldingQueue.tryDequeue.any fun r =>
    r.2.entries.length == 1 &&
      ((balancer oneNode).run s [{ actor := .drain },
        { actor := .drain, input := { metrics := [{ state := .overloaded }] } }]).any fun s' =>
          match s'.drain with
          | .requeue e => decide (e = r.1)
          | _ => false

/-- A critical job ends the cycle, and the high one behind it would have found no room. -/
theorem head_blocks_behind_high : ∃ (e : HeldEntry)
    (behind : HoldingQueue HoldingTerminalCallback) (inp : Input) (s s' : State Rat),
      HeadCheck oneNode e behind inp s s' ∧ s'.drain = .requeue e ∧ behind.entries.length = 1 ∧
        ∀ a ∈ behind.entries, NoRoom inp.metrics a.job.priority := by
  obtain ⟨s₀, hs, hp⟩ := exists_reach (balancer oneNode) anyEvent lateBehind breaksBeforeOne
    (by decide +kernel)
  simp only [breaksBeforeOne, Bool.and_eq_true, Option.any_eq_true, beq_iff_eq] at hp
  obtain ⟨hpc, ⟨e, behind⟩, hhead, hone, s', hrun, hbreak⟩ := hp
  obtain ⟨s₁, htake, hrun⟩ := Option.bind_eq_some_iff.mp hrun
  obtain ⟨s₂, hcheck, hend⟩ := Option.bind_eq_some_iff.mp hrun
  obtain rfl := Option.some.inj hend
  have hlook : HeadCheck oneNode e behind { metrics := [{ state := .overloaded }] } s₁ s₂ :=
    .check hs (DrainPc.eq_of_atHead hpc) hhead htake (List.forall_mem_nil _) rfl hcheck
  have hpc' : s₂.drain = .requeue e := by
    split at hbreak
    · next hpc' => rw [hpc', of_decide_eq_true hbreak]
    · cases hbreak
  exact ⟨e, behind, _, s₁, s₂, hlook, hpc', hone, fun a ha =>
    (head_blocks_behind.{0, 0} oneNode).2.2 e behind _ s₁ s₂ hlook (.inl hpc') a (.inl ha)⟩

end Balancer

end FatpBalancer
