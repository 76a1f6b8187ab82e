/-
# The holding slots

The depth the admission gate counts and the size of the holding queue are two counters under two
different locks.  The difference between them is always accounted for by the threads in transit:
submits that have reserved a slot and not enqueued yet, the entry in the drain thread's hands, and
cancels that have removed an entry and not given its slot back.

`HoldingInv` says this as an equation between the reserved depth and `takenSlots`, and adds that the
depth stays within the configured capacity and that no `enqueue` finds the queue full.  It is proved
step by step: `HoldingInv.balance` is the general lemma, for a step that changes the counter and the
transits by the same amount, and the lemmas after it are its instances for a call, a node, a cancel
and the drain thread.

`requeue` is the one operation that enters the queue without reserving; it can never find the queue
full, since the entry in the drain thread's hands still has its slot.
-/
import FatpBalancer.Balancer.Moves

universe u

namespace FatpBalancer

variable {F : Type u} [FloatOps F]

/-! ## The slots in transit

A slot is reserved by a compare-and-swap before the entry is stored, and given back by a decrement
after the entry has been taken out, so between the two counters there is always somebody. -/

/-- A slot is reserved and nothing is enqueued yet. -/
def SubmitPc.reserved : SubmitPc → Bool
  | .holdId | .enqueue _ => true
  | _ => false

/-- The drain thread is between `tryDequeue` and `requeue` or the release of the slot. -/
def DrainPc.holdsEntry : DrainPc → Bool
  | .entry _ | .dropRelease _ | .select _ | .nodeSubmit _ _ | .requeue _ | .releaseSlot _ => true
  | .waiting | .looping | .dropping _ | .register _ => false

/-- The cancel is between `remove` and the release of the slot. -/
def CancelPc.holdsEntry : CancelPc → Bool
  | .releaseSlot _ => true
  | _ => false

/-- The calls with a slot and no entry yet. -/
def reservations (calls : List Call) : Nat := Table.total (fun c => c.pc.reserved.toNat) calls

/-- The cancels with an entry they have taken out and whose slot they still have. -/
def removals (cancels : List CancelCall) : Nat :=
  Table.total (fun c => c.pc.holdsEntry.toNat) cancels

/-- The slots that are taken: by a stored entry or by a thread in transit. -/
def takenSlots (s : State F) : Nat :=
  s.m.mHoldingQueue.mSize + s.drain.holdsEntry.toNat + reservations s.calls +
    removals s.allCancels

/-- The invariant of the two counters. -/
structure HoldingInv (cfg : BalancerConfig F) (s : State F) : Prop where
  gateCapacity : s.m.mAdmission.mHoldingQueueCapacity = cfg.admission.holdingQueueCapacity
  queueCapacity : s.m.mHoldingQueue.mCapacity = cfg.admission.holdingQueueCapacity
  sized : s.m.mHoldingQueue.Sized
  depth : s.m.mAdmission.mHoldingQueueDepth = takenSlots s
  depth_le : s.m.mAdmission.mHoldingQueueDepth ≤ cfg.admission.holdingQueueCapacity
  enqueues : ∀ c ∈ s.calls, c.pc ≠ .releaseSlot

variable {cfg : BalancerConfig F} {inp : Input} {ev : Event}
  {s s' : State F}

/-- Both counters begin at zero. -/
theorem HoldingInv.create (cfg : BalancerConfig F) : HoldingInv cfg (State.create cfg) where
  gateCapacity := rfl
  queueCapacity := rfl
  sized := rfl
  depth := rfl
  depth_le := Nat.zero_le _
  enqueues := by simp [State.create]

/-- What every step has to show: the capacities stay, and depth and taken slots move together. -/
theorem HoldingInv.balance (h : HoldingInv cfg s)
    (hgate : s'.m.mAdmission.mHoldingQueueCapacity = s.m.mAdmission.mHoldingQueueCapacity)
    (hqueue : s'.m.mHoldingQueue.mCapacity = s.m.mHoldingQueue.mCapacity)
    (hsized : s'.m.mHoldingQueue.Sized)
    (hbalance : s'.m.mAdmission.mHoldingQueueDepth + takenSlots s =
      s.m.mAdmission.mHoldingQueueDepth + takenSlots s')
    (hle : s'.m.mAdmission.mHoldingQueueDepth ≤ s.m.mAdmission.mHoldingQueueCapacity)
    (henq : ∀ c ∈ s'.calls, c.pc ≠ .releaseSlot) : HoldingInv cfg s' where
  gateCapacity := hgate.trans h.gateCapacity
  queueCapacity := hqueue.trans h.queueCapacity
  sized := hsized
  depth := by have := h.depth; omega
  depth_le := hle.trans h.gateCapacity.le
  enqueues := henq

/-- A reserved slot leaves room in the queue. -/
theorem HoldingInv.room (h : HoldingInv cfg s)
    (htransit : s.m.mHoldingQueue.mSize < takenSlots s) :
    s.m.mHoldingQueue.mSize < s.m.mHoldingQueue.mCapacity := by
  have := h.depth
  have := h.depth_le
  have := h.queueCapacity
  omega

/-- Replacing one call exchanges its share of the reservations. -/
theorem reservations_set {calls : List Call} {i : CallId} {c : Call} (hc : calls[i]? = some c)
    (c' : Call) :
    reservations (calls.set i c') + c.pc.reserved.toNat =
      reservations calls + c'.pc.reserved.toNat :=
  Table.total_set hc c'

/-- One call with a slot makes for at least one reservation. -/
theorem le_reservations {calls : List Call} {i : CallId} {c : Call} (hc : calls[i]? = some c) :
    c.pc.reserved.toNat ≤ reservations calls :=
  Table.le_total (w := fun c : Call => c.pc.reserved.toNat) hc

/-- In the gate a call has no slot. -/
theorem SubmitPc.reserved_of_gated {pc : SubmitPc} (h : pc.gated = true) : pc.reserved = false := by
  cases pc <;> simp_all [SubmitPc.gated, SubmitPc.reserved]

/-- No call is about to give its slot back after a failed `enqueue`, since none fails. -/
theorem enqueues_set {i : CallId} {c' : Call} (h : ∀ c ∈ s.calls, c.pc ≠ .releaseSlot)
    (hc' : c'.pc ≠ .releaseSlot) : ∀ c ∈ s.calls.set i c', c.pc ≠ .releaseSlot := by
  intro x hx
  obtain hx | rfl := List.mem_or_eq_of_mem_set hx
  · exact h x hx
  · exact hc'

/-- A call that leaves with an error has no slot. -/
theorem SubmitPc.reserved_of_leaving {pc : SubmitPc} {error : SubmitError}
    (h : pc.leaving = some error) : pc.reserved = false := by
  cases pc <;> simp_all [SubmitPc.leaving, SubmitPc.reserved]

/-- A `submit` step that touches neither the queue nor the slots. -/
theorem HoldingInv.quietCall (h : HoldingInv cfg s) {i : CallId} {c : Call}
    (hc : s.calls[i]? = some c) (c' : Call) (hcalls : s'.calls = s.calls.set i c')
    (hframe : s'.drain = s.drain ∧ s'.allCancels = s.allCancels)
    (hac : s.m.mAdmission.SameSlots s'.m.mAdmission)
    (hq : s'.m.mHoldingQueue = s.m.mHoldingQueue) (hpc : c'.pc.reserved = c.pc.reserved)
    (hne : c'.pc ≠ .releaseSlot) : HoldingInv cfg s' := by
  have hset := reservations_set hc c'
  have hdepth := h.depth
  have hle := h.depth_le
  refine h.balance hac.1 (by rw [hq]) (hq ▸ h.sized) ?_ ?_ ?_
  · simp only [takenSlots, hcalls, hframe, hq, hac.2]
    rw [hpc] at hset
    omega
  · rw [hac.2, h.gateCapacity]
    exact hle
  · rw [hcalls]
    exact enqueues_set h.enqueues hne

/-- Reserving, storing and backing out are the steps of `submit` that count. -/
theorem HoldingInv.submit (h : HoldingInv cfg s) {i : CallId} {c : Call}
    (hc : s.calls[i]? = some c) (hm : SubmitMove cfg inp s i c s') : HoldingInv cfg s' := by
  have hset := reservations_set hc
  have hdepth := h.depth
  have hle := h.depth_le
  have hcap := h.gateCapacity
  cases hm with
  | shut hpc | opened hpc | holdId hpc | countHeld handle hpc | unselected error hpc
  | selected nodeId hpc | assignId nodeId hpc | refused nodeId job hpc
  | accepted nodeId job handle hpc | countDispatched r hpc =>
      exact h.quietCall hc _ rfl ⟨rfl, rfl⟩ ⟨rfl, rfl⟩ rfl (by simp [hpc, SubmitPc.reserved])
        (by simp)
  | backOut error hpc =>
      exact h.quietCall hc _ rfl ⟨rfl, rfl⟩ ⟨rfl, rfl⟩ rfl (SubmitPc.reserved_of_leaving hpc).symm
        (by simp)
  | reject ac error hpc hac =>
      exact h.quietCall hc _ rfl ⟨rfl, rfl⟩ hac rfl (SubmitPc.reserved_of_gated hpc).symm (by simp)
  | advance ac pc hpc hpc' hac =>
      have hnext : pc.reserved = false ∧ pc ≠ .releaseSlot := by
        rcases hpc' with hpc' | rfl
        · exact ⟨SubmitPc.reserved_of_gated hpc', by rintro rfl; cases hpc'⟩
        · exact ⟨rfl, by simp⟩
      exact h.quietCall hc _ rfl ⟨rfl, rfl⟩ hac rfl
        (hnext.1.trans (SubmitPc.reserved_of_gated hpc).symm) hnext.2
  | @register r t r' hpc hr =>
      have hout := hr.sameOutside
      refine h.quietCall hc _ (by rw [State.submitAt, hout.calls]) ⟨hout.drain, ?_⟩ ?_ hout.queue
        ?_ ?_
      · simp [State.allCancels, State.submitAt, hout.aging, hout.cancels]
      · rw [State.submitAt, hout.admission]
        exact ⟨rfl, rfl⟩
      · cases r' <;> simp [hpc, SubmitPc.reserved]
      · cases r' <;> simp
  -- one more slot taken, one more call that holds it
  | reserve hpc hroom =>
      have hset := hset { c with pc := .holdId }
      simp only [hpc, SubmitPc.reserved] at hset
      refine h.balance rfl rfl h.sized ?_ hroom (enqueues_set h.enqueues (by simp))
      simp only [takenSlots, State.submitAt, State.allCancels, Bool.toNat_true, Bool.toNat_false]
        at hset ⊢
      omega
  -- the slot passes from the call to the entry
  | enqueued job handle queue hpc hq =>
      have hset := hset { c with pc := .countHeld handle }
      simp only [hpc, SubmitPc.reserved] at hset
      have hstored := (HoldingQueue.enqueue_stored hq).1
      refine h.balance rfl hstored.capacity (hstored.sized h.sized) ?_ (hle.trans hcap.ge)
        (enqueues_set h.enqueues (by simp))
      simp only [takenSlots, State.submitAt, State.allCancels, hstored.size, Bool.toNat_true,
        Bool.toNat_false] at hset ⊢
      omega
  -- the call's own slot is room in the queue: `enqueue` cannot fail here
  | notEnqueued job error hpc hq =>
      have hroom := h.room (by
        have := le_reservations hc
        simp only [hpc, SubmitPc.reserved, Bool.toNat_true] at this
        unfold takenSlots
        omega)
      rw [HoldingQueue.enqueue_ok _ _ hroom] at hq
      cases hq
  | releaseSlot hpc => exact absurd hpc (h.enqueues c (List.mem_of_getElem? hc))

/-- A step that touches none of what the invariant speaks of. -/
theorem HoldingInv.quiet (h : HoldingInv cfg s) (hcalls : s'.calls = s.calls)
    (hac : s.m.mAdmission.SameSlots s'.m.mAdmission)
    (hq : s'.m.mHoldingQueue = s.m.mHoldingQueue)
    (hdrain : s'.drain.holdsEntry = s.drain.holdsEntry)
    (hcancels : removals s'.allCancels = removals s.allCancels) : HoldingInv cfg s' := by
  have hdepth := h.depth
  refine h.balance hac.1 (by rw [hq]) (hq ▸ h.sized) ?_ ?_ (hcalls ▸ h.enqueues)
  · rw [takenSlots, takenSlots, hcalls, hq, hdrain, hcancels, hac.2]
  · rw [hac.2, h.gateCapacity]
    exact h.depth_le

/-- Registration and finalisation have nothing to do with slots. -/
theorem HoldingInv.outside (h : HoldingInv cfg s) (hout : SameOutside s s') : HoldingInv cfg s' :=
  h.quiet hout.calls (by rw [hout.admission]; exact ⟨rfl, rfl⟩) hout.queue (by rw [hout.drain])
    (by rw [State.allCancels, State.allCancels, hout.aging, hout.cancels])

/-- Nor have the nodes. -/
theorem HoldingInv.node (h : HoldingInv cfg s) {k : Nat} {d : Dispatch}
    (hm : NodeMove inp s k d s') : HoldingInv cfg s' := by
  cases hm with
  | finish | early | enter => exact h.quiet rfl ⟨rfl, rfl⟩ rfl rfl rfl
  | finalize f hside hf => exact h.outside (modifyDispatch_sameOutside hf.sameOutside _ _)

/-- Giving a slot back that is taken. -/
theorem HoldingInv.release (h : HoldingInv cfg s) (hpos : 0 < takenSlots s) :
    s.m.mAdmission.releaseFromHoldingQueue.mHoldingQueueDepth + 1 =
      s.m.mAdmission.mHoldingQueueDepth := by
  have hdepth := h.depth
  rw [AdmissionControl.releaseFromHoldingQueue, fetchSub32_of_pos (by omega)]
  exact Nat.sub_add_cancel (by omega)

/-- A `cancel` takes an entry out and gives its slot back in a later step. -/
theorem HoldingInv.cancel (h : HoldingInv cfg s) {c c' : CancelCall} {t : State F}
    {cancels : List CancelCall} {aging : AgingPc} (hm : CancelMove cfg inp s c t c')
    (hrep : CancelReplaced s c c' cancels aging) :
    HoldingInv cfg { t with cancels := cancels, aging := aging } := by
  have htotal : removals (aging.cancel?.toList ++ cancels) + c.pc.holdsEntry.toNat =
    removals s.allCancels + c'.pc.holdsEntry.toNat := hrep.total _
  have hle := h.depth_le
  have hcap := h.gateCapacity
  cases hm with
  | notHeld hpc | notRouted hpc | noNode info hpc | ask info hpc | refused info error hpc
  | hit info k d hpc =>
      rw [hpc] at htotal
      exact h.quiet rfl ⟨rfl, rfl⟩ rfl rfl htotal
  -- the slot passes from the entry to the cancel call
  | removed entry queue hpc hbit hq =>
      rw [hpc] at htotal
      have htaken := (HoldingQueue.remove_taken hq).1
      have hlen := htaken.entries.length_eq
      have hsized := h.sized
      refine h.balance rfl htaken.capacity (htaken.sized h.sized) ?_ (hle.trans hcap.ge) h.enqueues
      simp only [HoldingQueue.Sized, List.length_cons] at hlen hsized
      simp only [takenSlots, State.allCancels, htaken.size, CancelPc.holdsEntry, Bool.toNat_true,
        Bool.toNat_false] at htotal ⊢
      omega
  | releaseSlot entry hpc =>
      rw [hpc] at htotal
      simp only [CancelPc.holdsEntry, Bool.toNat_true, Bool.toNat_false] at htotal
      have hrelease := h.release (by unfold takenSlots; omega)
      refine h.balance rfl rfl h.sized ?_ ?_ h.enqueues
      · simp only [takenSlots, State.allCancels] at htotal ⊢
        omega
      · dsimp only
        omega
  | @finalize f _ f' hpc hf =>
      have hout := hf.sameOutside
      rw [hpc] at htotal
      refine h.quiet hout.calls (by rw [hout.admission]; exact ⟨rfl, rfl⟩) hout.queue
        (by rw [hout.drain]) ?_
      cases f' <;> exact htotal

/-- The drain thread takes an entry out, and puts it back or gives up its slot. -/
theorem HoldingInv.drain (h : HoldingInv cfg s) (hm : DrainMove cfg inp s s') :
    HoldingInv cfg s' := by
  have hle := h.depth_le
  have hcap := h.gateCapacity
  cases hm with
  | wake hpc | drained hpc | drop entry hpc | saturated entry hpc | offer entry hpc
  | unselected entry hpc | selected entry nodeId hpc | refused nodeId entry hpc
  | accepted nodeId entry handle hpc =>
      exact h.quiet rfl ⟨rfl, rfl⟩ rfl (by rw [hpc]; rfl) rfl
  | take entry queue hpc hq =>
      have htaken := HoldingQueue.tryDequeue_taken hq
      have hlen := htaken.entries.length_eq
      have hsized := h.sized
      refine h.balance rfl htaken.capacity (htaken.sized h.sized) ?_ (hle.trans hcap.ge) h.enqueues
      simp only [HoldingQueue.Sized, List.length_cons] at hlen hsized
      simp only [takenSlots, hpc, State.allCancels, htaken.size, DrainPc.holdsEntry,
        Bool.toNat_true, Bool.toNat_false]
      omega
  -- the slot of the entry in the loop's hands is given back
  | dropRelease entry hpc | releaseSlot r hpc =>
      have hrelease := h.release (by simp [takenSlots, hpc, DrainPc.holdsEntry])
      refine h.balance rfl rfl h.sized ?_ ?_ h.enqueues
      · simp only [takenSlots, hpc, State.allCancels, DrainPc.holdsEntry, Bool.toNat_true,
          Bool.toNat_false]
        omega
      · dsimp only
        omega
  | @dropping f t f' hpc hf =>
      have ht := h.outside hf.sameOutside
      refine ht.quiet rfl ⟨rfl, rfl⟩ rfl ?_ rfl
      rw [hf.sameOutside.drain, hpc]
      cases f' <;> rfl
  | requeued entry handle queue hpc hq =>
      have hstored := (HoldingQueue.requeue_stored hq).1
      refine h.balance rfl hstored.capacity (hstored.sized h.sized) ?_ (hle.trans hcap.ge)
        h.enqueues
      simp only [takenSlots, hpc, State.allCancels, hstored.size, DrainPc.holdsEntry,
        Bool.toNat_true, Bool.toNat_false]
  | lost entry error hpc hq =>
      have hroom := h.room (by
        simp only [takenSlots, hpc, DrainPc.holdsEntry, Bool.toNat_true]
        omega)
      simp [HoldingQueue.requeue_ok _ hroom] at hq
  | @register r t r' hpc hr =>
      have ht := h.outside hr.sameOutside
      refine ht.quiet rfl ⟨rfl, rfl⟩ rfl ?_ rfl
      rw [hr.sameOutside.drain, hpc]
      cases r' <;> rfl

/-- A call that has just begun has taken nothing out. -/
theorem removals_idle (c : CancelCall) (hpc : c.pc = .start ∨ ∃ result, c.pc = .returned result) :
    c.pc.holdsEntry.toNat = 0 := by
  rcases hpc with hpc | ⟨result, hpc⟩ <;> rw [hpc] <;> rfl

/-- Every step keeps the invariant of the two counters. -/
theorem HoldingInv.move (h : HoldingInv cfg s) (hm : Move cfg ev s s') : HoldingInv cfg s' := by
  cases hm with
  | submitCall job =>
      refine h.balance rfl rfl h.sized ?_ (h.depth_le.trans h.gateCapacity.ge) ?_
      · simp [takenSlots, reservations, SubmitPc.reserved, State.allCancels]
      · intro c hc
        rcases List.mem_append.mp hc with hc | hc
        · exact h.enqueues c hc
        · obtain rfl := List.mem_singleton.mp hc
          simp
  | submit i c hc hm => exact h.submit hc hm
  | node k d hd hm => exact h.node hm
  | cancelCall handle =>
      refine h.quiet rfl ⟨rfl, rfl⟩ rfl rfl ?_
      simp [State.allCancels, removals, CancelPc.holdsEntry]
  | cancel c c' t cancels aging hm hrep => exact h.cancel hm hrep
  | switchCall => exact h.quiet rfl ⟨rfl, rfl⟩ rfl rfl rfl
  | switch k pc hactor hpc hm => cases hm <;> exact h.quiet rfl ⟨rfl, rfl⟩ rfl rfl rfl
  | drain hm => exact h.drain hm
  | aging hm =>
      have htotal := hm.total_allCancels (fun c hc => removals_idle c (.inl hc))
        (fun c result hc => removals_idle c (.inr ⟨result, hc⟩))
      cases hm <;> exact h.quiet rfl ⟨rfl, rfl⟩ rfl rfl htotal
  | toggle enabled stop toggles aging haging =>
      refine h.quiet rfl ⟨rfl, rfl⟩ rfl rfl ?_
      rcases haging with rfl | ⟨hpc, rfl⟩ | ⟨hpc, rfl⟩ <;>
        simp [State.allCancels, *, AgingPc.cancel?]
  | setModes shedBulk strict => exact h.quiet rfl ⟨rfl, rfl⟩ rfl rfl rfl
  | setDegradationEnabled enabled => exact h.quiet rfl ⟨rfl, rfl⟩ rfl rfl rfl

/-- In every reachable state the two counters agree up to the threads in transit. -/
theorem holdingInv_reach {ok : State F → Event → Prop} (hs : (balancer cfg).Reach ok s) :
    HoldingInv cfg s :=
  hs.invariant (.create cfg) fun _ _ h _ hstep => h.move (step_move hstep)

end FatpBalancer
