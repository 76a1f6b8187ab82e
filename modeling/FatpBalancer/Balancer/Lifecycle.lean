/-
# The life of an accepted job

The results about the places of the jobs: the depth of the admission gate is exact and no held job
is ever lost; every job is finalised once; and `mSubmittedCount` is the number of jobs in flight for
as long as that number fits into its 32 bits.

The work has been done in `Balancer.Holding` and `Balancer.Accounting`; what is new is the reading.
`located` puts the places into words, `FinalizedOnce` says when a job that has left has been
finalised, and `CounterExact` what the 32-bit counter shows, including that no step takes it below
zero.
-/
import FatpBalancer.Balancer.Accounting
import FatpBalancer.Balancer.Flood
import FatpBalancer.Balancer.History

universe u

namespace FatpBalancer

open Machine

variable {F : Type u} [FloatOps F] {cfg : BalancerConfig F} {inp : Input} {ev : Event}
  {s s' : State F}

/-! ## Held jobs

The depth is compared with the queue, the threads between the two locks and the entry in the drain
thread's hands. -/

/-- A thread stands before `releaseFromHoldingQueue`. -/
def releasing (s : State F) : Prop :=
  (∃ c ∈ s.calls, c.pc = .releaseSlot) ∨ (∃ c ∈ s.allCancels, c.pc.holdsEntry = true) ∨
    (∃ entry, s.drain = .dropRelease entry) ∨ ∃ r, s.drain = .releaseSlot r

/-- The job of call `i` is held, on a node, or has left the system. -/
def located (s : State F) (i : CallId) : Prop :=
  (∃ entry ∈ s.m.mHoldingQueue.entries, entry.onDone.call = i) ∨ s.drain.carries = some i ∨
    (∃ d ∈ s.dispatches, d.call = i) ∨ i ∈ s.dropped ∨ i ∈ s.removed

theorem HoldingInv.takenSlots_pos (h : HoldingInv cfg s) (hs : releasing s) :
    0 < takenSlots s := by
  unfold takenSlots
  rcases hs with ⟨c, hc, hpc⟩ | ⟨c, hc, hpc⟩ | ⟨entry, hpc⟩ | ⟨r, hpc⟩
  · exact absurd hpc (h.enqueues c hc)
  · obtain ⟨k, hk⟩ := List.getElem?_of_mem hc
    have : c.pc.holdsEntry.toNat ≤ removals s.allCancels :=
      Table.le_total (w := fun c : CancelCall => c.pc.holdsEntry.toNat) hk
    rw [hpc, Bool.toNat_true] at this
    omega
  · simp only [hpc, DrainPc.holdsEntry, Bool.toNat_true]
    omega
  · simp only [hpc, DrainPc.holdsEntry, Bool.toNat_true]
    omega

theorem owns_pos {i : CallId} {o : Option CallId} (h : 0 < owns i o) : o = some i := by
  by_contra hne
  simp [owns, hne] at h

/-- An accepted job is found in one of its places. -/
theorem AccountingInv.located (h : AccountingInv s) {i : CallId} (hi : accepted s i = true) :
    located s i := by
  have hplaced := h.placed i
  rw [show acceptedAt s.calls i = (accepted s i).toNat from rfl, hi, Bool.toNat_true] at hplaced
  by_contra hnot
  simp only [FatpBalancer.located, not_or, not_exists, not_and] at hnot
  obtain ⟨hqueue, hdrain, hnode, hdropped, hremoved⟩ := hnot
  -- a job that is in none of the places has weight 0 in each, against `placed`
  have hheld : heldJobs s.m.mHoldingQueue.entries i = 0 := by
    by_contra hne
    obtain ⟨e, he, hpos⟩ := Table.exists_of_total_pos (Nat.pos_of_ne_zero hne)
    exact hqueue e he (Option.some.inj (owns_pos hpos))
  have hcarry : owns i s.drain.carries = 0 := by simp [owns, hdrain]
  have hon : onNodes s.dispatches i = 0 := by
    by_contra hne
    obtain ⟨d, hd, hpos⟩ := Table.exists_of_total_pos (Nat.pos_of_ne_zero hne)
    have := owns_pos hpos
    unfold Dispatch.onNode at this
    split at this <;> simp_all
  have hleft : leftNodes s.dispatches i = 0 := by
    by_contra hne
    obtain ⟨d, hd, hpos⟩ := Table.exists_of_total_pos (Nat.pos_of_ne_zero hne)
    have := owns_pos hpos
    unfold Dispatch.left at this
    split at this <;> simp_all
  rw [waiting, ended, hheld, hcarry, hon, hleft, List.count_eq_zero.mpr hdropped,
    List.count_eq_zero.mpr hremoved] at hplaced
  omega

/-- **The holding slots are exact.**  In every reachable state the depth of the gate is the size of
the queue plus the slots of the threads in transit, it stays within the capacity, and it is positive
whenever it is about to be decremented.  So every enqueue of `submit` and every requeue of the drain
loop succeeds, and every accepted job is in one of its places. -/
theorem holding_slots_exact (hs : (balancer cfg).Reach anyEvent s) :
    s.m.mAdmission.mHoldingQueueDepth =
        s.m.mHoldingQueue.mSize + s.drain.holdsEntry.toNat + reservations s.calls +
          removals s.allCancels ∧
      s.m.mHoldingQueue.mSize = s.m.mHoldingQueue.entries.length ∧
      s.m.mAdmission.mHoldingQueueDepth ≤ cfg.admission.holdingQueueCapacity ∧
      (releasing s → 0 < s.m.mAdmission.mHoldingQueueDepth) ∧
      (∀ c ∈ s.calls, ∀ job onDone, c.pc = .enqueue job →
        ∃ r, s.m.mHoldingQueue.enqueue job onDone = .ok r) ∧
      (∀ entry, s.drain = .requeue entry → ∃ r, s.m.mHoldingQueue.requeue entry = .ok r) ∧
      ∀ i, accepted s i = true → located s i := by
  have h := holdingInv_reach hs
  refine ⟨h.depth, h.sized, h.depth_le, fun hrel => ?_, fun c hc job onDone hpc => ?_,
    fun entry hpc => ?_, fun i hi => (accountingInv_reach hs).located hi⟩
  · rw [h.depth]
    exact h.takenSlots_pos hrel
  -- the slot the call has reserved is room in the queue
  · obtain ⟨i, hi⟩ := List.getElem?_of_mem hc
    have hres := le_reservations hi
    rw [hpc] at hres
    have hroom := h.room (by
      simp only [SubmitPc.reserved, Bool.toNat_true] at hres
      unfold takenSlots
      omega)
    exact ⟨_, HoldingQueue.enqueue_ok job onDone hroom⟩
  -- and so is the slot of the entry in the loop's hands
  · have hroom := h.room (by
      simp only [takenSlots, hpc, DrainPc.holdsEntry, Bool.toNat_true]
      omega)
    exact ⟨_, HoldingQueue.requeue_ok entry hroom⟩

/-- A critical job is held while the only node is overloaded, then taken by the drain thread. -/
theorem holding_slots_exact_held : ∃ s : State Rat,
    s.m.mAdmission.mHoldingQueueDepth = 1 ∧ s.m.mHoldingQueue.mSize = 0 ∧
      s.m.mAdmission.mHoldingQueueDepth =
        s.m.mHoldingQueue.mSize + s.drain.holdsEntry.toNat + reservations s.calls +
          removals s.allCancels := by
  obtain ⟨s, hs, hp⟩ := exists_reach (balancer oneNode) anyEvent
    (submitScript 0 { priority := .critical } 11 { metrics := [{ state := .overloaded }] } ++
      [{ actor := .drain }, { actor := .drain }])
    (fun s => s.m.mAdmission.mHoldingQueueDepth == 1 && s.m.mHoldingQueue.mSize == 0) (by decide)
  obtain ⟨hdepth, hsize⟩ : _ = 1 ∧ _ = 0 := by simpa using hp
  exact ⟨s, hdepth, hsize, (holding_slots_exact hs).1⟩

/-! ## Finalisation

Between leaving and being finalised a job is in exactly one thread's hands, or waits in the
registration state of a dispatch whose registering thread is on its way. -/

/-- The job of call `i` has left: it was dropped or removed from the queue, cancelled on its node,
or its callback has returned and its registration is published. -/
def hasLeft (s : State F) (i : CallId) : Prop :=
  i ∈ s.dropped ∨ i ∈ s.removed ∨
    ∃ d ∈ s.dispatches, d.call = i ∧
      (d.side = .cancelled ∨ d.side = .called ∧ d.regState.published = true)

/-- A thread is inside `finalizeJobLifecycle` for the job of call `i`, or gives its holding slot
back on the way there. -/
def beingFinalized (s : State F) (i : CallId) : Prop :=
  (∃ c ∈ s.calls, c.pc.handles = some i) ∨ (∃ c ∈ s.allCancels, c.pc.handles = some i) ∨
    (∃ d ∈ s.dispatches, d.handles = some i) ∨ s.drain.handles = some i

/-- Every accepted job is finalised at most once, and once all threads are done with a job that has
left, exactly once. -/
structure FinalizedOnce (s : State F) : Prop where
  atMost : ∀ i, accepted s i = true → finalizedCount s i ≤ 1
  exactly : ∀ i, hasLeft s i → ¬beingFinalized s i → finalizedCount s i = 1

/-- `mSubmittedCount` counts the jobs in flight, and no step takes it from 0 to the largest 32-bit
number. -/
structure CounterExact (cfg : BalancerConfig F) (s : State F) : Prop where
  count : s.m.mSubmittedCount = inFlight s
  noUnderflow : ∀ ev s', step cfg s ev = some s' →
    s'.m.mSubmittedCount ≤ s.m.mSubmittedCount + 1

theorem AccountingInv.ended_le (h : AccountingInv s) (i : CallId) : waiting s i + ended s i ≤ 1 := by
  rw [h.placed i, acceptedAt]
  exact Bool.toNat_le _

theorem owns_self (i : CallId) : owns i (some i) = 1 := if_pos rfl

/-- A job leaves through one dispatch at most. -/
theorem AccountingInv.left_unique (h : AccountingInv s) {i : CallId} {j k : Nat} {d d' : Dispatch}
    (hj : s.dispatches[j]? = some d) (hk : s.dispatches[k]? = some d') (hd : d.left = some i)
    (hd' : d'.left = some i) : d = d' := by
  obtain rfl | hne := eq_or_ne j k
  · exact Option.some.inj (hj.symm.trans hk)
  · have hle := h.ended_le i
    have : owns i d.left + owns i d'.left ≤ leftNodes s.dispatches i :=
      Table.add_le_total (w := fun d : Dispatch => owns i d.left) hj hk hne
    rw [hd, hd', owns_self] at this
    unfold ended at hle
    omega

theorem hasLeft_left {d : Dispatch}
    (h : d.side = .cancelled ∨ d.side = .called ∧ d.regState.published = true) :
    d.left = some d.call := by
  rcases h with h | ⟨h, -⟩ <;> rw [Dispatch.left, h]

theorem AccountingInv.ended_pos (_h : AccountingInv s) {i : CallId} (hleft : hasLeft s i) :
    0 < ended s i := by
  unfold ended
  rcases hleft with hmem | hmem | ⟨d, hd, hcall, hside⟩
  · have := List.count_pos_iff.mpr hmem
    omega
  · have := List.count_pos_iff.mpr hmem
    omega
  · obtain ⟨k, hk⟩ := List.getElem?_of_mem hd
    have : owns i d.left ≤ leftNodes s.dispatches i :=
      Table.le_total (w := fun d : Dispatch => owns i d.left) hk
    rw [hasLeft_left hside, hcall, owns_self] at this
    omega

/-- Of a job that has left, nothing waits in a registration state. -/
theorem AccountingInv.early_eq_none (h : AccountingInv s) {i : CallId} (hleft : hasLeft s i)
    {d : Dispatch} (hd : d ∈ s.dispatches) : d.early ≠ some i := by
  intro hearly
  unfold Dispatch.early at hearly
  split at hearly
  case isFalse => cases hearly
  case isTrue hsome =>
  obtain ⟨hside, hpublished⟩ := h.consistent d hd fun hnone => by simp [hnone] at hsome
  have hcall : d.left = some i := by rw [Dispatch.left, hside, hearly]
  obtain ⟨k, hk⟩ := List.getElem?_of_mem hd
  have hone : owns i d.left ≤ leftNodes s.dispatches i :=
    Table.le_total (w := fun d : Dispatch => owns i d.left) hk
  have hle := h.ended_le i
  rw [hcall, owns_self] at hone
  unfold ended at hle
  -- dropped, removed, or let go by another dispatch: in each case it would have left twice
  rcases hleft with hmem | hmem | ⟨d', hd', hcall', hside'⟩
  · have := List.count_pos_iff.mpr hmem
    omega
  · have := List.count_pos_iff.mpr hmem
    omega
  · obtain ⟨k', hk'⟩ := List.getElem?_of_mem hd'
    obtain rfl := h.left_unique hk hk' hcall (by rw [hasLeft_left hside', hcall'])
    simp [hside, hpublished] at hside'

theorem total_owns_eq_zero {α : Type} {w : α → Option CallId} {l : List α} {i : CallId}
    (h : ∀ a ∈ l, w a ≠ some i) : Table.total (fun a => owns i (w a)) l = 0 := by
  by_contra hne
  obtain ⟨a, ha, hpos⟩ := Table.exists_of_total_pos (Nat.pos_of_ne_zero hne)
  exact h a ha (owns_pos hpos)

theorem AccountingInv.finalizedOnce (h : AccountingInv s) : FinalizedOnce s where
  atMost i _ := (h.finalizedCount_le i).trans (Bool.toNat_le _)
  exactly i hleft hidle := by
    simp only [beingFinalized, not_or, not_exists, not_and] at hidle
    obtain ⟨hcalls, hcancels, hnodes, hdrain⟩ := hidle
    have hhandling : handling s i = 0 := by
      have hc : callsHandle s.calls i = 0 := total_owns_eq_zero hcalls
      have hx : cancelsHandle s.allCancels i = 0 := total_owns_eq_zero hcancels
      have hn : nodesHandle s.dispatches i = 0 := by
        rw [nodesHandle, Table.total_add, total_owns_eq_zero hnodes,
          total_owns_eq_zero fun d hd => h.early_eq_none hleft hd]
      have hd : owns i s.drain.handles = 0 := if_neg hdrain
      rw [handling, hc, hx, hn, hd]
    have hsettled := h.settled i
    have hpos := h.ended_pos hleft
    have hle := h.ended_le i
    omega

/-! ## The counter

An equation modulo 2³², and an equation of numbers while the jobs in flight are fewer. -/

theorem FinalizeMove.finalized_suffix {f : Finalize} {f' : Option Finalize}
    (h : FinalizeMove s f s' f') : s.finalized <:+ s'.finalized := by
  rcases h.finalized_cases with ⟨hf, -, -⟩ | ⟨hf, -, -⟩
  · exact hf ▸ List.suffix_rfl
  · exact hf ▸ List.suffix_cons _ _

theorem RegisterMove.finalized_suffix {r : Register} {r' : Option Register}
    (h : RegisterMove cfg inp s r s' r') : s.finalized <:+ s'.finalized := by
  cases h with
  | finalize f hstage hf => exact hf.finalized_suffix
  | _ => exact List.suffix_rfl

/-- No step takes a finalisation back. -/
theorem Move.finalized_suffix (h : Move cfg ev s s') : s.finalized <:+ s'.finalized := by
  cases h with
  | submit i c hc hm =>
      cases hm with
      | register r hpc hr => exact hr.finalized_suffix
      | _ => exact List.suffix_rfl
  | node k d hd hm =>
      cases hm with
      | finalize f hside hf => exact hf.finalized_suffix
      | _ => exact List.suffix_rfl
  | cancel c c' t cancels aging hm hrep =>
      cases hm with
      | finalize f hpc hf => exact hf.finalized_suffix
      | _ => exact List.suffix_rfl
  | drain hm =>
      cases hm with
      | dropping f hpc hf => exact hf.finalized_suffix
      | register r hpc hr => exact hr.finalized_suffix
      | _ => exact List.suffix_rfl
  | aging hm => cases hm <;> exact List.suffix_rfl
  | switch k pc hactor hpc hm => cases hm <;> exact List.suffix_rfl
  | _ => exact List.suffix_rfl

theorem Move.finalizedCount_le (h : Move cfg ev s s') (i : CallId) :
    finalizedCount s i ≤ finalizedCount s' i :=
  h.finalized_suffix.sublist.countP_le

/-- A step opens at most one call. -/
theorem Move.openCalls_le (h : Move cfg ev s s') : openCalls s'.calls ≤ openCalls s.calls + 1 := by
  rcases h.calls_cases with hcalls | ⟨job, hcalls⟩ | ⟨i, c, hc, -, hm⟩
  · exact hcalls ▸ Nat.le_succ _
  · rw [hcalls]
    simp [openCalls, SubmitPc.rejected]
  · obtain ⟨c', hcalls, -⟩ := hm.calls
    have := openCalls_set hc c'
    have : (!c'.pc.rejected).toNat ≤ 1 := Bool.toNat_le _
    rw [hcalls]
    omega

theorem CounterExact.of_lt (hs : (balancer cfg).Reach anyEvent s) (hlt : inFlight s < 2 ^ 32) :
    CounterExact cfg s where
  count := by
    rw [(accountingInv_reach hs).submittedCount_eq, Nat.mod_eq_of_lt hlt]
  noUnderflow ev s' hstep := by
    have h := accountingInv_reach hs
    have h' := accountingInv_reach (hs.step ev trivial hstep)
    have hopen := (step_move hstep).openCalls_le
    have hfinalized := (step_move hstep).finalized_suffix.length_le
    have hle : s'.m.mSubmittedCount ≤ inFlight s' := by
      rw [h'.submittedCount_eq]
      exact Nat.mod_le _ _
    have := h.submittedCount_eq
    have := h.openCalls_eq
    have := h'.openCalls_eq
    omega

/-- **Every job is finalised once, and the counter is exact below 2³².**  In every reachable state
every accepted job is finalised at most once, and a job that has left exactly once when the threads
are done with it; `mSubmittedCount` equals the number of jobs in flight if and only if that number
is below 2³². -/
theorem lifecycle_exact (hs : (balancer cfg).Reach anyEvent s) :
    FinalizedOnce s ∧ (CounterExact cfg s ↔ inFlight s < 2 ^ 32) := by
  have h := accountingInv_reach hs
  refine ⟨h.finalizedOnce, fun hcount => ?_, .of_lt hs⟩
  rw [← hcount.count]
  exact h.count_lt

/-- A job that completes before its `submit` has registered it. -/
theorem lifecycle_exact_early : ∃ s : State Rat,
    finalizedCount s 0 = 1 ∧ FinalizedOnce s ∧ (CounterExact oneNode s ↔ inFlight s < 2 ^ 32) := by
  obtain ⟨s, hs, hp⟩ := exists_reach (balancer oneNode) anyEvent
    (submitScript 0 {} 9 { selected := some 0, accepted := some 7 } ++
      [{ actor := .node 0 }, { actor := .node 0 }] ++ List.replicate 9 { actor := .submit 0 })
    (fun s => finalizedCount s 0 == 1) (by decide)
  exact ⟨s, by simpa using hp, lifecycle_exact hs⟩

theorem Flooded.inFlight_eq {n : Nat} {s : State Rat} (hf : Flooded n s)
    (hs : (balancer oneNode).Reach anyEvent s) : inFlight s = n := by
  have hopen : openCalls s.calls = s.calls.length := by
    have hone : ∀ c ∈ s.calls, (!c.pc.rejected).toNat = 1 := by
      intro c hc
      obtain ⟨handle, hpc⟩ := hf.accepted c hc
      rw [hpc]
      rfl
    rw [openCalls, Table.total, List.map_congr_left hone]
    simp
  have := (accountingInv_reach hs).openCalls_eq
  rw [hopen, hf.length, hf.unfinalized, List.length_nil] at this
  omega

/-- With 2³² jobs in flight the counter is 0. -/
theorem counter_wraps : ∃ s : State Rat, (balancer oneNode).Reach anyEvent s ∧
    inFlight s = 2 ^ 32 ∧ s.m.mSubmittedCount = 0 ∧ ¬CounterExact oneNode s := by
  obtain ⟨s, hs, hf⟩ := flooded_reach (2 ^ 32)
  have hn := hf.inFlight_eq hs
  have hzero : s.m.mSubmittedCount = 0 := by
    rw [(accountingInv_reach hs).submittedCount_eq, hn, Nat.mod_self]
  refine ⟨s, hs, hn, hzero, fun hcount => ?_⟩
  have := hcount.count
  rw [hzero, hn] at this
  omega

end FatpBalancer
