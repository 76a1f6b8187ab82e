/-
# Whose handle it is

Handles are minted by every node on its own and by the holding queue, and the balancer knows a job
by its handle alone.  The two guards of this module say that a handle is not minted while another
job bears it: for node handles among themselves, and for all handles.  Under them a handle names one
job.

`OneBears` is the form both take: of the dispatches that bear one handle, at most one has a
property.  It is kept by every step that mints no handle still in use, and `DistinctHandles` and
`FreshHandles` say so of node handles and of all handles.  The guards are conditions on a step,
evaluated in the state before it, since nothing in the code enforces them: nodes know nothing of
each other's handles.
-/
import FatpBalancer.Balancer.Finalization

universe u

namespace FatpBalancer

open Machine

variable {F : Type u} [FloatOps F] {cfg : BalancerConfig F} {inp : Input} {ev : Event}
  {s s' : State F}

/-! ## The guards

A handle is in use until the job's finalisation and its registration are both over. -/

/-- The job of this dispatch is finalised and its registration is published. -/
def closed (s : State F) (d : Dispatch) : Bool :=
  finalizedCount s d.call != 0 && d.regState.published

/-- No dispatch that is not closed bears this handle. -/
def freeOnNodes (s : State F) (handle : JobHandle) : Bool :=
  s.dispatches.all fun d => d.handle != handle || closed s d

/-- No submitter knows an un-finalised job under this handle. -/
def freeOfCalls (s : State F) (handle : JobHandle) : Bool :=
  (List.range s.calls.length).all fun i =>
    finalizedCount s i != 0 || (s.calls[i]?).all fun c => c.pc.heldHandle? != some handle

/-- The job this step stores in the holding queue, with the handle the queue mints for it. -/
def State.queueMints (s : State F) (ev : Event) : Option (CallId × JobHandle) :=
  match ev.actor with
  | .submit i =>
      (s.calls[i]?).bind fun c =>
        match c.pc with
        | .enqueue _ => some (i, holdingHandle s.m.mHoldingQueue.mNextSeq)
        | _ => none
  | _ => none

/-- The step mints no node handle that another dispatch still bears. -/
def DistinctHandles (s : State F) (ev : Event) : Prop :=
  ∀ mint ∈ s.nodeMints ev, freeOnNodes s mint.2 = true

instance (s : State F) (ev : Event) : Decidable (DistinctHandles s ev) :=
  inferInstanceAs (Decidable (∀ mint ∈ s.nodeMints ev, freeOnNodes s mint.2 = true))

/-- The step mints no handle that another job still bears. -/
def FreshHandles (s : State F) (ev : Event) : Prop :=
  (∀ mint ∈ s.nodeMints ev, freeOnNodes s mint.2 = true ∧ freeOfCalls s mint.2 = true) ∧
    ∀ mint ∈ s.queueMints ev, freeOnNodes s mint.2 = true ∧ freeOfCalls s mint.2 = true

instance (s : State F) (ev : Event) : Decidable (FreshHandles s ev) :=
  inferInstanceAs (Decidable (_ ∧ _))

theorem FreshHandles.distinct (h : FreshHandles s ev) : DistinctHandles s ev :=
  fun mint hmint => (h.1 mint hmint).1

/-! ## Node handles

Enough for the routing maps, which go by node handles alone. -/

theorem closed_of_freeOnNodes {k : Nat} {d : Dispatch} (h : freeOnNodes s d.handle = true)
    (hd : s.dispatches[k]? = some d) : closed s d = true := by
  have := List.all_eq_true.mp h d (List.mem_of_getElem? hd)
  simpa using this

theorem DispatchMove.published_next {k : Nat} {d d' : Dispatch} (h : DispatchMove k d d')
    (hpub : d.regState.published = true) : d'.regState.published = true := by
  cases h with
  | flags d' hcore => rw [(Dispatch.sameCore hcore).regState, hpub]
  | finalize f f' d₁ hside hcore =>
      have := (Dispatch.sameCore hcore).regState
      exact this ▸ hpub
  | publish => rfl
  | _ => exact hpub

theorem Move.closed_mono (h : Move cfg ev s s') {k : Nat} {d d' : Dispatch}
    (hm : DispatchMove k d d') (hclosed : closed s d = true) : closed s' d' = true := by
  obtain ⟨hfinal, hpub⟩ : finalizedCount s d.call ≠ 0 ∧ d.regState.published = true := by
    simpa [closed] using hclosed
  have hle := h.finalizedCount_le d.call
  rw [closed, hm.same.1, hm.published_next hpub, Bool.and_true, bne_iff_ne]
  omega

/-- Of the dispatches that bear one handle, one at most satisfies `P`. -/
def OneBears (dispatches : List Dispatch) (P : Dispatch → Prop) : Prop :=
  ∀ ⦃j k : Nat⦄ ⦃d d' : Dispatch⦄, dispatches[j]? = some d → dispatches[k]? = some d' →
    d.handle = d'.handle → P d → P d' → j = k

/-- What dispatches do not come to satisfy by a step stays true of one of them at most, when no
handle is minted that such a dispatch bears. -/
theorem OneBears.next {P P' : Dispatch → Prop} (h : OneBears s.dispatches P)
    (hm : Move cfg ev s s')
    (hback : ∀ (k : Nat) (d d' : Dispatch), s.dispatches[k]? = some d →
      s'.dispatches[k]? = some d' → DispatchMove k d d' → P' d' → P d)
    (hmint : ∀ mint ∈ s.nodeMints ev, ∀ (k : Nat) (d : Dispatch), s.dispatches[k]? = some d →
      d.handle = mint.2 → ¬P d) : OneBears s'.dispatches P' := by
  intro j k d d' hd hd' hhandle hp hp'
  have hfresh : ∀ {j k : Nat} {d d' d₁ : Dispatch}, s.dispatches[j]? = none →
      s'.dispatches[j]? = some d → s.dispatches[k]? = some d₁ → DispatchMove k d₁ d' →
      d.handle = d'.handle → ¬P d₁ := by
    intro j k d d' d₁ hnone hd hd₁ hmove hhandle
    exact hmint _ (hm.fresh hnone hd).1 k d₁ hd₁ (hmove.same.2.2.1.symm.trans hhandle.symm)
  -- each of the two is old or fresh; a fresh one bears the handle minted in this step
  rcases hm.dispatches.1 j d hd with ⟨d₁, hd₁, hmove⟩ | ⟨hnone, -⟩
  · rcases hm.dispatches.1 k d' hd' with ⟨d₂, hd₂, hmove'⟩ | ⟨hnone', -⟩
    · refine h hd₁ hd₂ ?_ (hback j d₁ d hd₁ hd hmove hp) (hback k d₂ d' hd₂ hd' hmove' hp')
      rw [← hmove.same.2.2.1, ← hmove'.same.2.2.1, hhandle]
    · exact absurd (hback j d₁ d hd₁ hd hmove hp) (hfresh hnone' hd' hd₁ hmove hhandle.symm)
  · rcases hm.dispatches.1 k d' hd' with ⟨d₂, hd₂, hmove'⟩ | ⟨hnone', -⟩
    · exact absurd (hback k d₂ d' hd₂ hd' hmove' hp') (hfresh hnone hd hd₂ hmove' hhandle)
    -- one step accepts at most one dispatch
    · have := hm.dispatches.2.2
      have := List.getElem?_eq_none_iff.mp hnone
      have := List.getElem?_eq_none_iff.mp hnone'
      have := (List.getElem?_eq_some_iff.mp hd).1
      have := (List.getElem?_eq_some_iff.mp hd').1
      omega

theorem Move.closed_back (h : Move cfg ev s s') {k : Nat} {d d' : Dispatch}
    (hm : DispatchMove k d d') (hopen : closed s' d' = false) : closed s d = false := by
  by_contra hne
  rw [h.closed_mono hm (Bool.not_eq_false _ ▸ hne)] at hopen
  cases hopen

/-- The job of call `i` bears this handle: its submitter knows it by it, or its node does. -/
def Bears (s : State F) (i : CallId) (handle : JobHandle) : Prop :=
  (∃ c, s.calls[i]? = some c ∧ c.pc.heldHandle? = some handle) ∨
    ∃ (k : Nat) (d : Dispatch), s.dispatches[k]? = some d ∧ d.call = i ∧ d.handle = handle

theorem finalized_of_free {i : CallId} {handle : JobHandle} (h : Bears s i handle)
    (hnodes : freeOnNodes s handle = true) (hcalls : freeOfCalls s handle = true) :
    finalizedCount s i ≠ 0 := by
  rcases h with ⟨c, hc, hheld⟩ | ⟨k, d, hd, rfl, rfl⟩
  · have hi : i ∈ List.range s.calls.length :=
      List.mem_range.mpr (List.getElem?_eq_some_iff.mp hc).1
    have := List.all_eq_true.mp hcalls i hi
    simpa [hc, hheld] using this
  · have hclosed := closed_of_freeOnNodes hnodes hd
    have : finalizedCount s d.call ≠ 0 ∧ d.regState.published = true := by
      simpa [closed] using hclosed
    exact this.1

/-- A handle a submitter knows after a step was known before, has just been minted by the queue, or
is the one its call has just registered. -/
theorem Move.heldHandle_cases (h : Move cfg ev s s') {i : CallId} {c' : Call} {handle : JobHandle}
    (hc' : s'.calls[i]? = some c') (hheld : c'.pc.heldHandle? = some handle) :
    (∃ c, s.calls[i]? = some c ∧ c.pc.heldHandle? = some handle) ∨
      s.queueMints ev = some (i, handle) ∨
      ∃ r, s.registerOf (some i) = some r ∧ r.handle = handle ∧ r.stage.settled = true := by
  rcases h.call_back hc' with hentered | ⟨c, hc, rfl | ⟨hactor, hm⟩⟩
  · rw [hentered] at hheld
    cases hheld
  · exact .inl ⟨c', hc, hheld⟩
  · cases hm with
    | enqueued job x queue hpc hq =>
        obtain rfl := call_of_set hc hc' rfl
        obtain rfl : x = handle := Option.some.inj hheld
        obtain ⟨-, rfl, -⟩ := HoldingQueue.enqueue_stored hq
        refine .inr (.inl ?_)
        simp only [State.queueMints, hactor, hc, Option.bind_some, hpc]
    -- the handle the call returns is the one it was given by the queue
    | countHeld x hpc =>
        obtain rfl := call_of_set hc hc' rfl
        exact .inl ⟨c, hc, by rw [hpc]; exact hheld⟩
    | @register r t r' hpc hr =>
        obtain rfl := call_of_set hc hc' (by rw [State.submitAt, hr.sameOutside.calls])
        cases r' with
        | none =>
            refine .inr (.inr ⟨r, ?_, Option.some.inj hheld, hr.settled_of_none rfl⟩)
            rw [State.registerOf, hc, Option.bind_some, hpc]
            rfl
        | some r' => cases hheld
    | advance ac pc hpc hpc' =>
        obtain rfl := call_of_set hc hc' rfl
        rcases hpc' with hpc' | rfl
        · cases pc <;> simp_all [SubmitPc.heldHandle?, SubmitPc.gated]
        · cases hheld
    | _ =>
        obtain rfl := call_of_set hc hc' rfl
        cases hheld

theorem Move.bears_cases (h : Move cfg ev s s') (hr : RegisteringInv s) {i : CallId}
    {handle : JobHandle} (hb : Bears s' i handle) :
    Bears s i handle ∨ s.nodeMints ev = some (i, handle) ∨ s.queueMints ev = some (i, handle) := by
  rcases hb with ⟨c', hc', hheld⟩ | ⟨k, d', hd', rfl, rfl⟩
  · rcases h.heldHandle_cases hc' hheld with hold | hmint | ⟨r, hrun, rfl, -⟩
    · exact .inl (.inl hold)
    · exact .inr (.inr hmint)
    · obtain ⟨d, hd⟩ := hr.registers hrun
      exact .inl (.inr ⟨r.dispatch, d, hd.dispatch, hd.submitter i rfl, hd.handle⟩)
  · rcases h.dispatches.1 k d' hd' with ⟨d, hd, hmove⟩ | ⟨hnone, -⟩
    · exact .inl (.inr ⟨k, d, hd, hmove.same.1.symm, hmove.same.2.2.1.symm⟩)
    · exact .inr (.inl (h.fresh hnone hd').1)

/-- One step mints one handle at most. -/
theorem queueMints_of_nodeMints {mint : CallId × JobHandle} (h : s.nodeMints ev = some mint) :
    s.queueMints ev = none := by
  unfold State.nodeMints at h
  unfold State.queueMints
  split at h
  · next i hactor =>
      obtain ⟨c, hc, h⟩ := Option.bind_eq_some_iff.mp h
      simp only [hactor, hc, Option.bind_some]
      split at h
      · next hpc => rw [hpc]
      · cases h
  · next hactor => rw [hactor]
  · cases h

/-- A handle names one un-finalised job. -/
structure BearersInv (s : State F) : Prop where
  unique : ∀ {i j : CallId} {handle : JobHandle}, Bears s i handle → Bears s j handle →
    finalizedCount s i = 0 → finalizedCount s j = 0 → i = j

theorem BearersInv.next (h : BearersInv s) (hr : RegisteringInv s) (hm : Move cfg ev s s')
    (hok : FreshHandles s ev) : BearersInv s' where
  unique {i j handle} hi hj hfi hfj := by
    have hold : ∀ {i}, finalizedCount s' i = 0 → finalizedCount s i = 0 := fun {i} hf =>
      Nat.eq_zero_of_le_zero (hf ▸ hm.finalizedCount_le i)
    have hfree : ∀ {i j}, (s.nodeMints ev = some (i, handle) ∨ s.queueMints ev = some (i, handle)) →
        Bears s j handle → finalizedCount s j ≠ 0 := by
      rintro i j (hmint | hmint) hb
      · exact finalized_of_free hb (hok.1 _ hmint).1 (hok.1 _ hmint).2
      · exact finalized_of_free hb (hok.2 _ hmint).1 (hok.2 _ hmint).2
    rcases hm.bears_cases hr hi with hi | hi
    · rcases hm.bears_cases hr hj with hj | hj
      · exact h.unique hi hj (hold hfi) (hold hfj)
      · exact absurd (hold hfi) (hfree hj hi)
    · rcases hm.bears_cases hr hj with hj | hj
      · exact absurd (hold hfj) (hfree hi hj)
      · rcases hi with hi | hi <;> rcases hj with hj | hj
        · exact (Prod.mk.inj (Option.some.inj (hi.symm.trans hj))).1
        · rw [queueMints_of_nodeMints hi] at hj
          cases hj
        · rw [queueMints_of_nodeMints hj] at hi
          cases hi
        · exact (Prod.mk.inj (Option.some.inj (hi.symm.trans hj))).1

end FatpBalancer
