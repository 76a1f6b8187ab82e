/-
# Cancel calls that find nothing

A call that returns `NotFound` for a handle that `submit` has returned is right when the job has
ended.  For node handles it always has.  A holding handle stops working when the drain thread takes
the job out of the queue, whether the job ends then or not.

`HandleOrigin` traces a handle that a submitter knows to the place it came from, and `TargetInv`
follows a `cancel` call from there: as long as it is still looking, its job is where the handle
leads, unless the job has ended or slipped out of reach.  The two ways of slipping are `Stranded`:
the drain thread has the entry in its hands, or has handed the job to a node, where it lives on
under another handle that nobody knows.

The result is an equivalence, so that `NotFound` is right exactly when the job is not stranded.
-/
import FatpBalancer.Balancer.Lookup

universe u

namespace FatpBalancer

open Machine

variable {F : Type u} [FloatOps F] {cfg : BalancerConfig F} {inp : Input} {ev : Event}
  {s s' t : State F}

/-! ## Handles and their dispatches

A node handle belongs to a dispatch, a holding handle to an entry that its call has stored. -/

/-- A handle a submitter knows is a holding handle, or that of the job's settled dispatch. -/
def HandleOrigin (s : State F) (i : CallId) (handle : JobHandle) : Prop :=
  isHoldingHandle handle = true ∨ ∃ (k : Nat) (d : Dispatch), s.dispatches[k]? = some d ∧
    d.call = i ∧ d.handle = handle ∧ d.settled = true

/-- The origin of a handle does not change. -/
theorem HandleOrigin.next (hm : Move cfg ev s s') {i : CallId} {handle : JobHandle}
    (h : HandleOrigin s i handle) : HandleOrigin s' i handle := by
  rcases h with hbit | ⟨k, d, hd, hcall, hhandle, hsettled⟩
  · exact .inl hbit
  · obtain ⟨d', hd', hmove⟩ := hm.dispatch_next hd
    obtain ⟨hcall', -, hhandle', -⟩ := hmove.same
    refine .inr ⟨k, d', hd', hcall'.trans hcall, hhandle'.trans hhandle, ?_⟩
    rcases hm.settled_cases hd hd' with heq | ⟨htrue, -⟩
    · rw [heq, hsettled]
    · exact htrue

/-- The handles the queue mints are holding handles. -/
theorem mem_queueMints {i : CallId} {handle : JobHandle}
    (h : s.queueMints ev = some (i, handle)) : isHoldingHandle handle = true := by
  unfold State.queueMints at h
  split at h
  · obtain ⟨c, -, h⟩ := Option.bind_eq_some_iff.mp h
    split at h
    · obtain ⟨-, rfl⟩ := Prod.mk.inj (Option.some.inj h)
      exact isHoldingHandle_holdingHandle _
    · cases h
  · cases h

/-- In every reachable state. -/
theorem handleOrigin_reach {ok : State F → Event → Prop} (hs : (balancer cfg).Reach ok s)
    {i : CallId} {c : Call} {handle : JobHandle} (hc : s.calls[i]? = some c)
    (hheld : c.pc.heldHandle? = some handle) : HandleOrigin s i handle := by
  refine hs.invariant (I := fun s => ∀ (i : CallId) (c : Call) (handle : JobHandle),
    s.calls[i]? = some c → c.pc.heldHandle? = some handle → HandleOrigin s i handle)
    (fun _ _ _ hc => by cases hc) (fun ev hr h _ hstep i c' handle hc' hheld => ?_) i c handle hc
    hheld
  have hm := step_move hstep
  rcases hm.heldHandle_cases hc' hheld with ⟨c, hc, hold⟩ | hmint | ⟨r, hrun, rfl, hsettled⟩
  · exact (h i c handle hc hold).next hm
  · exact .inl (mem_queueMints hmint)
  · obtain ⟨d, hd⟩ := (registeringInv_reach hr).registers hrun
    exact HandleOrigin.next hm (.inr ⟨r.dispatch, d, hd.dispatch, hd.submitter i rfl, hd.handle,
      hd.settled.trans hsettled⟩)

/-! ## What a call is looking for

The job is fixed when the call begins, by the submitter who knows it under this handle. -/

/-- The call a handle is taken to mean knows its job under it. -/
theorem targetOf_spec {handle : JobHandle} {j : CallId} (h : targetOf s handle = some j) :
    ∃ c, s.calls[j]? = some c ∧ c.pc.heldHandle? = some handle := by
  have hfound := List.find?_some h
  obtain ⟨-, hany⟩ := Bool.and_eq_true_iff.mp hfound
  obtain ⟨c, hc, hpc⟩ := (Option.any_eq_true _ _).mp hany
  refine ⟨c, hc, ?_⟩
  cases hcall : c.pc <;> simp only [hcall, Bool.false_eq_true] at hpc
  case returned result =>
    cases result with
    | error error => cases hpc
    | ok x =>
        rw [← (beq_iff_eq.mp hpc : x = handle)]
        rfl

/-- What a call knows of the job its caller meant. -/
structure TargetInv (s : State F) (c : CancelCall) : Prop where
  known : ∀ j, c.target = some j →
    ∃ call, s.calls[j]? = some call ∧ call.pc.heldHandle? = some c.handle
  byNode : ∀ info, c.pc = .askNode info → isHoldingHandle c.handle = false
  asked : ∀ info j, c.pc = .askNode info → c.target = some j →
    ∃ (k : Nat) (d : Dispatch), s.dispatches[k]? = some d ∧ d.call = j ∧ d.handle = c.handle ∧
      (d.side = .live → d.nodeId = info.nodeId)

/-- A call that has not found its job goes on looking, or returns. -/
theorem TargetInv.next {c : CancelCall} (h : TargetInv s c) (hm : Move cfg ev s s') :
    TargetInv s' c where
  known j hj := by
    obtain ⟨call, hcall, hheld⟩ := h.known j hj
    obtain ⟨call', hcall', -, hkeep⟩ := hm.call_next hcall
    exact ⟨call', hcall', hkeep _ hheld⟩
  byNode := h.byNode
  asked info j hpc hj := by
    obtain ⟨k, d, hd, hcall, hhandle, hnode⟩ := h.asked info j hpc hj
    obtain ⟨d', hd', hmove⟩ := hm.dispatch_next hd
    obtain ⟨hcall', -, hhandle', hnode'⟩ := hmove.same
    exact ⟨k, d', hd', hcall'.trans hcall, hhandle'.trans hhandle,
      fun hlive => hnode'.trans (hnode (hmove.live_back hlive))⟩

/-- The dispatch of a job known under a node handle, with its routing entry while it is live. -/
theorem TargetInv.dispatched {c : CancelCall} (h : TargetInv s c)
    (hs : (balancer cfg).Reach UniqueHandles s) {j : CallId} (hj : c.target = some j)
    (hbit : isHoldingHandle c.handle = false) :
    ∃ (k : Nat) (d : Dispatch), s.dispatches[k]? = some d ∧ d.call = j ∧ d.handle = c.handle ∧
      (d.side = .live → s.m.mHandleToJobInfo.lookup c.handle = some d.info) := by
  obtain ⟨call, hcall, hheld⟩ := h.known j hj
  rcases handleOrigin_reach hs hcall hheld with hholding | ⟨k, d, hd, hown, hhandle, hsettled⟩
  · rw [hbit] at hholding
    cases hholding
  · refine ⟨k, d, hd, hown, hhandle, fun hlive => ?_⟩
    rw [← hhandle]
    exact (routedInv_reach hs).handles.own hd ((liveInv_reach hs).settled hd hlive hsettled)

/-- The call goes on: what it knows it has read off the routing map. -/
theorem TargetInv.stepped {c c' : CancelCall} (h : TargetInv s c)
    (hs : (balancer cfg).Reach UniqueHandles s) (hcm : CancelMove cfg inp s c t c') :
    TargetInv s c' := by
  cases hcm with
  | ask info hpc hbit hinfo =>
      refine ⟨h.known, fun _ _ => hbit, fun info' j hpc' hj => ?_⟩
      obtain rfl := CancelPc.askNode.inj hpc'
      obtain ⟨k, d, hd, hown, hhandle, hroute⟩ := h.dispatched hs hj hbit
      refine ⟨k, d, hd, hown, hhandle, fun hlive => ?_⟩
      have hsame : d.info = info := Option.some.inj ((hroute hlive).symm.trans hinfo)
      rw [← hsame]
      rfl
  | @finalize f t f' hpc hf => cases f' <;> exact ⟨h.known, nofun, nofun⟩
  | _ => exact ⟨h.known, nofun, nofun⟩

/-- In every state of a run whose handles are told apart. -/
theorem targetInv_reach (hs : (balancer cfg).Reach UniqueHandles s) :
    ∀ c ∈ s.allCancels, TargetInv s c := by
  refine hs.invariant (I := fun s => ∀ c ∈ s.allCancels, TargetInv s c)
    (fun _ hc => by cases hc) fun ev hr h _ hstep c' hc' => ?_
  have hm := step_move hstep
  rcases hm.allCancels_cases hc' with
    hold | ⟨hstart, -, htarget⟩ | ⟨c, t, cancels, aging, hc, -, hcm, -⟩
  · exact (h c' hold).next hm
  · refine TargetInv.next ⟨fun j hj => targetOf_spec (htarget ▸ hj), fun info hpc => ?_,
      fun info j hpc => ?_⟩ hm
    · rw [hstart] at hpc
      cases hpc
    · rw [hstart] at hpc
      cases hpc
  · exact ((h c hc).stepped hr hcm).next hm

/-! ## The result

Ended means completed, cancelled or dropped; stranded means alive and out of reach. -/

/-- The job of call `j` has completed on its node, has been cancelled, or has been dropped. -/
def Ended (s : State F) (j : CallId) : Prop :=
  leftHeld s j ∨ ∃ d ∈ s.dispatches, d.call = j ∧ d.side ≠ .live

/-- The drain thread has taken this held job out of the queue and has it in hand, or a node has it
live; no stored entry has its holding handle. -/
def Stranded (s : State F) (handle : JobHandle) (j : CallId) : Prop :=
  isHoldingHandle handle = true ∧ (∀ e ∈ s.m.mHoldingQueue.entries, e.holdHandle ≠ handle) ∧
    (s.drain.carries = some j ∨ ∃ d ∈ s.dispatches, d.call = j ∧ d.side = .live)

/-- The call has not found its job yet. -/
def CancelPc.searching : CancelPc → Bool
  | .start | .askNode _ => true
  | _ => false

/-- What the drain thread carries was held. -/
theorem AccountingInv.carried_held (h : AccountingInv s) {j : CallId}
    (hcarry : s.drain.carries = some j) :
    ended s j = 0 ∧ ∀ d ∈ s.dispatches, d.call ≠ j := by
  have hown : owns j s.drain.carries = 1 := by rw [hcarry, owns_self]
  refine ⟨(h.not_ended ?_).1, ?_⟩
  · unfold waiting
    omega
  · rintro d hd rfl
    obtain ⟨k, hk⟩ := List.getElem?_of_mem hd
    have hone : owns d.call (some d.call) ≤
        Table.total (fun d₁ : Dispatch => owns d.call (some d₁.call)) s.dispatches :=
      Table.le_total (w := fun d₁ : Dispatch => owns d.call (some d₁.call)) hk
    rw [dispatches_le_places, owns_self] at hone
    have hle := h.ended_le d.call
    unfold waiting ended at hle
    omega

/-- A stranded job has not ended. -/
theorem AccountingInv.not_ended_of_stranded (h : AccountingInv s) {handle : JobHandle}
    {j : CallId} (hj : Stranded s handle j) : ¬Ended s j := by
  obtain ⟨-, -, hcarry | ⟨d, hd, rfl, hlive⟩⟩ := hj
  · obtain ⟨hended, hnode⟩ := h.carried_held hcarry
    unfold ended at hended
    rintro ((hleft | hleft) | ⟨d, hd, hcall, -⟩)
    · have := List.count_pos_iff.mpr hleft
      omega
    · have := List.count_pos_iff.mpr hleft
      omega
    · exact hnode d hd hcall
  · obtain ⟨k, hk⟩ := List.getElem?_of_mem hd
    rintro (hleft | ⟨d', hd', hcall, hside⟩)
    · exact h.not_dispatched hleft hk rfl
    · obtain ⟨k', hk'⟩ := List.getElem?_of_mem hd'
      obtain rfl := h.dispatch_unique hk hk' hcall.symm
      obtain rfl := Option.some.inj (hk.symm.trans hk')
      exact hside hlive

/-- A call that has stored its job has had it accepted. -/
theorem SubmitPc.accepted_of_heldHandle {pc : SubmitPc} {handle : JobHandle}
    (h : pc.heldHandle? = some handle) : pc.accepted = true := by
  unfold SubmitPc.heldHandle? at h
  split at h
  · rfl
  · rfl
  · cases h

/-- Whatever place an accepted job is in, it has ended or can be found there. -/
theorem ended_or_found (hs : (balancer cfg).Reach UniqueHandles s) {c c' : CancelCall}
    (hc : c ∈ s.allCancels) {j : CallId} (hj : c.target = some j)
    (h : CancelMove cfg inp s c t c') (hnf : c'.pc = .returned (.error .notFound))
    (hnot : ¬Stranded s c.handle j) : Ended s j := by
  have htarget := targetInv_reach hs c hc
  have hlive : ∀ {k : Nat} {d : Dispatch}, s.dispatches[k]? = some d → d.call = j →
      (d.side = .live → False) → Ended s j :=
    fun hd hcall hside => .inr ⟨_, List.mem_of_getElem? hd, hcall, hside⟩
  cases h with
  -- the holding queue has no such handle: the job is in transit, or has left
  | notHeld hpc hbit hq =>
      have hnone := HoldingQueue.remove_eq_none.mp hq
      obtain ⟨call, hcall, hheld⟩ := htarget.known j hj
      have hacc : accepted s j = true := by
        rw [accepted, hcall, Option.any_some, SubmitPc.accepted_of_heldHandle hheld]
      rcases (accountingInv_reach hs).located hacc with
        ⟨e, he, hown⟩ | hcarry | ⟨d, hd, hown⟩ | hleft | hleft
      · obtain ⟨call', hcall', hheld'⟩ := (heldInv_reach hs).entries e he
        rw [hown, hcall] at hcall'
        obtain rfl := Option.some.inj hcall'
        exact absurd (Option.some.inj (hheld'.symm.trans hheld)) (hnone e he)
      · exact absurd ⟨hbit, hnone, .inl hcarry⟩ hnot
      · exact .inr ⟨d, hd, hown, fun hside => hnot ⟨hbit, hnone, .inr ⟨d, hd, hown, hside⟩⟩⟩
      · exact .inl (.inl hleft)
      · exact .inl (.inr hleft)
  | notRouted hpc hbit hinfo =>
      obtain ⟨k, d, hd, hown, -, hroute⟩ := htarget.dispatched hs hj hbit
      refine hlive hd hown fun hside => ?_
      rw [hroute hside] at hinfo
      cases hinfo
  -- routing entries name nodes of the balancer
  | noNode info hpc hbit hinfo hnode =>
      obtain ⟨k, d, hd, hown, -, hroute⟩ := htarget.dispatched hs hj hbit
      refine hlive hd hown fun hside => ?_
      obtain rfl := Option.some.inj ((hroute hside).symm.trans hinfo)
      rw [Dispatch.info, (nodesInv_reach hs).dispatches hd] at hnode
      cases hnode
  -- the node has no live job under the handle
  | refused info error hpc hfree =>
      obtain ⟨k, d, hd, hown, hhandle, hnode⟩ := htarget.asked info j hpc hj
      have hnone := hfree (Except.error.inj (CancelPc.returned.inj hnf))
      refine hlive hd hown fun hside => ?_
      have := List.all_eq_true.mp hnone d (List.mem_of_getElem? hd)
      simp [hnode hside, hhandle, hside] at this
  | @finalize f t f' hpc hf => cases f' <;> cases hnf
  | _ => cases hnf

/-- **`NotFound` means that the job has ended, stranded held jobs apart.**  While a call looks for
the un-finalised job whose `submit` had returned its handle, `NotFound` can only be its answer when
that job has ended if and only if the job is not stranded. -/
theorem notFound_iff (hs : (balancer cfg).Reach UniqueHandles s) {c : CancelCall}
    (hc : c ∈ s.allCancels) {j : CallId} (hj : c.target = some j)
    (hpc : c.pc.searching = true) :
    (∀ inp t c', cancelStep cfg inp s c = some (t, c') →
      c'.pc = .returned (.error .notFound) → Ended s j) ↔ ¬Stranded s c.handle j := by
  refine ⟨fun h hstranded => ?_, fun hnot inp t c' hstep hnf =>
    ended_or_found hs hc hj (cancelStep_move hstep) hnf hnot⟩
  refine (accountingInv_reach hs).not_ended_of_stranded hstranded ?_
  obtain ⟨hbit, hnone, -⟩ := hstranded
  cases hstart : c.pc with
  | start =>
      refine h {} s { c with pc := .returned (.error .notFound) } ?_ rfl
      simp [cancelStep, hstart, hbit, HoldingQueue.remove_eq_none.mpr hnone]
  | askNode info =>
      rw [(targetInv_reach hs c hc).byNode info hstart] at hbit
      cases hbit
  | releaseSlot entry | finalize f | returned result =>
      rw [hstart] at hpc
      cases hpc

instance (s : State F) (j : CallId) : Decidable (Ended s j) :=
  inferInstanceAs (Decidable ((_ ∨ _) ∨ _))

/-- The first `cancel` call is looking for the job of call 0, and its next step returns
`NotFound`. -/
def misses (cfg : BalancerConfig F) (s : State F) : Bool :=
  (s.cancels[0]?).any fun c =>
    c.target == some 0 && c.pc.searching &&
      (cancelStep cfg {} s c).any fun r =>
        match r.2.pc with
        | .returned (.error error) => error == .notFound
        | _ => false

theorem exists_of_misses (h : misses cfg s = true) :
    ∃ c t c', c ∈ s.allCancels ∧ c.target = some 0 ∧ c.pc.searching = true ∧
      cancelStep cfg {} s c = some (t, c') ∧ c'.pc = .returned (.error .notFound) := by
  obtain ⟨c, hc, h⟩ := (Option.any_eq_true _ _).mp h
  simp only [Bool.and_eq_true, beq_iff_eq] at h
  obtain ⟨⟨htarget, hpc⟩, h⟩ := h
  obtain ⟨⟨t, c'⟩, hstep, hnf⟩ := (Option.any_eq_true _ _).mp h
  refine ⟨c, t, c', List.mem_append_right _ (List.mem_of_getElem? hc), htarget, hpc, hstep, ?_⟩
  cases hpc' : c'.pc <;> simp only [hpc', Bool.false_eq_true] at hnf
  case returned result =>
    cases result with
    | ok u => cases hnf
    | error error => rw [beq_iff_eq.mp hnf]

/-- A dispatched job that completes before the call finds it. -/
theorem notFound_iff_completed : ∃ s : State Rat, misses oneNode s = true ∧ Ended s 0 ∧
    ∃ c ∈ s.allCancels, ((∀ inp t c', cancelStep oneNode inp s c = some (t, c') →
      c'.pc = .returned (.error .notFound) → Ended s 0) ↔ ¬Stranded s c.handle 0) := by
  obtain ⟨s, hs, hp⟩ := exists_reach (balancer oneNode) UniqueHandles
    (submitScript 0 {} 13 { selected := some 0, accepted := some 7 } ++
      { actor := .cancelCall 7 } :: List.replicate 7 { actor := .node 0 })
    (fun s => misses oneNode s && decide (Ended s 0)) (by decide)
  obtain ⟨hmisses, hended⟩ := Bool.and_eq_true_iff.mp hp
  obtain ⟨c, t, c', hc, htarget, hpc, -⟩ := exists_of_misses hmisses
  exact ⟨s, hmisses, of_decide_eq_true hended, c, hc, notFound_iff hs hc htarget hpc⟩

/-- A held job in the drain thread's hands cannot be cancelled. -/
theorem held_not_found : ∃ s : State Rat, (balancer oneNode).Reach UniqueHandles s ∧
    ∃ c t c', c ∈ s.allCancels ∧ c.target = some 0 ∧ cancelStep oneNode {} s c = some (t, c') ∧
      c'.pc = .returned (.error .notFound) ∧ ¬Ended s 0 := by
  obtain ⟨s, hs, hp⟩ := exists_reach (balancer oneNode) UniqueHandles
    (submitScript 0 { priority := .critical } 11 { metrics := [{ state := .overloaded }] } ++
      [{ actor := .drain }, { actor := .drain }, { actor := .cancelCall (holdingHandle 1) }])
    (fun s => misses oneNode s && !decide (Ended s 0)) (by decide)
  obtain ⟨hmisses, hended⟩ := Bool.and_eq_true_iff.mp hp
  obtain ⟨c, t, c', hc, htarget, -, hstep, hnf⟩ := exists_of_misses hmisses
  exact ⟨s, hs, c, t, c', hc, htarget, hstep, hnf, by simpa using hended⟩

end FatpBalancer
