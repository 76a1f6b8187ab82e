/-
# Job ids across the wrap

`nextJobId` counts on 32 bits and comes round again, whatever the older jobs are doing.  As long as
it never hands out the id of a job that is not concluded, or one that is still tracked, live jobs
have ids of their own: no registration touches the entry of another job, and no tracking is lost.

`DrawsFresh` is the condition, on the state before a draw: the id about to be handed out belongs to
no call that is not concluded, and to no tracked job.  `concluded` says when a job needs its id no
more: it was turned away, or it is finalised and its registration, if it had one, is past the aging
step.

`IdsInv` is the invariant, `UniqueIds` what it says of the maps and the engine.  Until the counter
has wrapped the condition holds by itself; after that it may fail, and the last part runs into it: a
job that outlives a whole round of ids loses its tracking to a younger one.
-/
import FatpBalancer.Balancer.Tracking
import Mathlib.Combinatorics.Pigeonhole

universe u

namespace FatpBalancer

open Machine

variable {F : Type u} [FloatOps F] {cfg : BalancerConfig F} {ev : Event} {s s' t : State F}

/-! ## Ids in use

A call has drawn its id or not; the number of its draw gives the id. -/

/-- The id that the job of this call has drawn. -/
def State.jobId (s : State F) (i : CallId) : Option JobId :=
  (s.calls[i]?).bind fun c => c.ordinal.map jobIdOf

/-- The job of this call is accepted and not finalised. -/
def Live (s : State F) (i : CallId) : Prop := accepted s i = true ∧ finalizedCount s i = 0

/-- The call has turned its job away. -/
def SubmitPc.refused : SubmitPc → Bool
  | .turnedAway | .releaseSlot | .backOut _ | .returned (.error _) => true
  | _ => false

/-- The job of this call is turned away, or it is finalised and its registration, if it has one, past
the aging step. -/
def concluded (s : State F) (i : CallId) : Bool :=
  ((s.calls[i]?).any fun c => c.pc.refused) ||
    (finalizedCount s i != 0 && s.dispatches.all fun d => d.call != i || d.settled)

/-! ## The guard

Decidable, so that it can be evaluated along a run. -/

/-- The next step of the call is `nextJobId`. -/
def SubmitPc.draws : SubmitPc → Bool
  | .holdId | .assignId _ => true
  | _ => false

/-- This event calls `nextJobId`. -/
def State.draws (s : State F) (ev : Event) : Bool :=
  match ev.actor with
  | .submit i => (s.calls[i]?).any fun c => c.pc.draws
  | _ => false

/-- `nextJobId` hands out no id of a job that is not concluded, and none that is still tracked. -/
def DrawsFresh (s : State F) (ev : Event) : Prop :=
  s.draws ev = true →
    (∀ i ∈ List.range s.calls.length, s.jobId i = some s.m.mNextJobId → concluded s i = true) ∧
      s.m.mAgingEngine.isTracked s.m.mNextJobId = false

instance (s : State F) (ev : Event) : Decidable (DrawsFresh s ev) := by
  unfold DrawsFresh
  infer_instance

/-- Only a call that exists has drawn an id. -/
theorem State.lt_of_jobId {i : CallId} {id : JobId} (h : s.jobId i = some id) :
    i < s.calls.length := by
  obtain ⟨c, hc, -⟩ := Option.bind_eq_some_iff.mp h
  exact (List.getElem?_eq_some_iff.mp hc).1

/-- A draw that would hand out the id of this call finds it concluded. -/
theorem DrawsFresh.concluded (hok : DrawsFresh s ev) (hdraws : s.draws ev = true) {i : CallId}
    (hi : s.jobId i = some s.m.mNextJobId) : concluded s i = true :=
  (hok hdraws).1 i (List.mem_range.mpr (State.lt_of_jobId hi)) hi

/-- The id is that of the draw. -/
theorem State.jobId_eq_some {i : CallId} {id : JobId} :
    s.jobId i = some id ↔ ∃ c n, s.calls[i]? = some c ∧ c.ordinal = some n ∧ jobIdOf n = id := by
  constructor
  · intro h
    obtain ⟨c, hc, h⟩ := Option.bind_eq_some_iff.mp h
    obtain ⟨n, hn, hid⟩ := Option.map_eq_some_iff.mp h
    exact ⟨c, n, hc, hn, hid⟩
  · rintro ⟨c, n, hc, hn, hid⟩
    simp [State.jobId, hc, hn, hid]

/-- A copy bears the id its call has drawn. -/
theorem IsCopy.jobId {i : CallId} {job : Job} (h : IsCopy s.calls i job) :
    s.jobId i = some job.id := by
  obtain ⟨c, n, hc, hn, hjob⟩ := h
  exact State.jobId_eq_some.mpr ⟨c, n, hc, hn, by rw [hjob]⟩

/-! ## Who draws an id

A `submit` call, once, before it stores or offers its job. -/

/-- The one step of a call that draws. -/
theorem SubmitMove.drawing {inp : Input} {i : CallId} {c : Call} (h : SubmitMove cfg inp s i c s') :
    s'.issued = s.issued ∨ c.pc.draws = true := by
  cases h with
  | holdId hpc | assignId nodeId hpc => exact .inr (by rw [hpc]; rfl)
  | register r hpc hr => exact .inl hr.sameOutside.issued
  | _ => exact .inl rfl

/-- And no other thread does. -/
theorem Move.drawing (h : Move cfg ev s s') : s'.issued = s.issued ∨ s.draws ev = true := by
  cases h.numbering with
  | same _ hissued | begin _ _ hissued => exact .inl hissued
  | goOn i c c' hc hcalls hjob hnum =>
      cases hnum with
      | same _ hissued => exact .inl hissued
      | number now _ hissued _ hpc hpc' =>
          rcases h.call_cases hc with hsame | ⟨hactor, hm⟩
          · -- the call has left the program counters without a number
            have hkept : c = c' := call_of_set hc hsame hcalls
            rw [hkept, hpc'] at hpc
            cases hpc
          · refine hm.drawing.imp_right fun hdraws => ?_
            rw [State.draws, hactor]
            simp [hc, hdraws]

/-- An id after a step was there before, or has just been drawn, and then no other has changed. -/
theorem Move.jobId_cases (h : Move cfg ev s s') (hc : CopiesInv s) {i : CallId} {id : JobId}
    (hid : s'.jobId i = some id) :
    s.jobId i = some id ∨ s.draws ev = true ∧ id = s.m.mNextJobId ∧
      ∀ j id', j ≠ i → s'.jobId j = some id' → s.jobId j = some id' := by
  obtain ⟨c', n, hc', hn, rfl⟩ := State.jobId_eq_some.mp hid
  rcases h.numbering.ordinal_cases hc' hn with ⟨⟨c, hold, hn⟩, -⟩ | ⟨rfl, hissued, hother⟩
  · exact .inl (State.jobId_eq_some.mpr ⟨c, n, hold, hn, rfl⟩)
  · refine .inr ⟨h.drawing.resolve_left (by omega), hc.nextJobId.symm, fun j id' hj hid' => ?_⟩
    obtain ⟨b, m, hb, hm, hid'⟩ := State.jobId_eq_some.mp hid'
    exact State.jobId_eq_some.mpr ⟨b, m, hother j b hj hb, hm, hid'⟩

/-! ## What is concluded stays so

A concluded job is one that no step will file under its id again. -/

/-- A refused job stays refused. -/
theorem SubmitMove.refused_next {inp : Input} {i : CallId} {c : Call} (hi : i < s.calls.length)
    (hc : c.pc.refused = true) (h : SubmitMove cfg inp s i c s') :
    ∃ c', s'.calls[i]? = some c' ∧ c'.pc.refused = true := by
  cases h with
  | releaseSlot | backOut => exact ⟨_, List.getElem?_set_self hi, rfl⟩
  | reject _ _ hpc | advance _ _ hpc =>
      cases hcpc : c.pc <;> simp [hcpc, SubmitPc.refused, SubmitPc.gated] at hc hpc
  | shut hpc | opened hpc | reserve hpc | holdId hpc | enqueued _ _ _ hpc | notEnqueued _ _ hpc
  | countHeld _ hpc | unselected _ hpc | selected _ hpc | assignId _ hpc | refused _ _ hpc
  | accepted _ _ _ hpc | countDispatched _ hpc | register _ hpc =>
      rw [hpc] at hc
      cases hc

/-- Refused, or finalised and past its aging step. -/
theorem concluded_iff {i : CallId} : concluded s i = true ↔
    (∃ c, s.calls[i]? = some c ∧ c.pc.refused = true) ∨
      finalizedCount s i ≠ 0 ∧ ∀ d ∈ s.dispatches, d.call = i → d.settled = true := by
  simp only [concluded, Bool.or_eq_true, Bool.and_eq_true, Option.any_eq_true, bne_iff_ne,
    List.all_eq_true, Classical.or_iff_not_imp_left, not_not]

/-- Every step leaves a concluded job so. -/
theorem Move.concluded_next (h : Move cfg ev s s') (ha : AccountingInv s') {i : CallId}
    (hend : concluded s i = true) : concluded s' i = true := by
  rcases concluded_iff.mp hend with ⟨c, hc, hpc⟩ | ⟨hfinal, hall⟩
  · refine concluded_iff.mpr (.inl ?_)
    rcases h.call_cases hc with hsame | ⟨-, hm⟩
    · exact ⟨c, hsame, hpc⟩
    · exact hm.refused_next (List.getElem?_eq_some_iff.mp hc).1 hpc
  · have hfinal' : finalizedCount s' i ≠ 0 := by
      have := h.finalizedCount_le i
      omega
    refine concluded_iff.mpr (.inr ⟨hfinal', fun d' hmem hcall => ?_⟩)
    obtain ⟨k, hd'⟩ := List.getElem?_of_mem hmem
    rcases h.dispatches.1 k d' hd' with ⟨d, hd, hmove⟩ | ⟨-, hfresh⟩
    · exact h.settled_next hd hd' (hall d (List.mem_of_getElem? hd) (hmove.same.1.symm.trans hcall))
    · -- a dispatch the node has just taken is of a job that is not finalised
      subst hcall
      exact absurd (ha.live_unfinalized hd' (by rw [Dispatch.onNode, hfresh.side])) hfinal'

/-- A job that is accepted has not been refused. -/
theorem SubmitPc.not_refused {pc : SubmitPc} (h : pc.accepted = true) : pc.refused = false := by
  cases pc with
  | returned result => cases result <;> first | rfl | cases h
  | _ => first | rfl | cases h

/-- A job that is not finalised and not refused is not concluded. -/
theorem not_concluded {i : CallId} (hacc : accepted s i = true)
    (hopen : finalizedCount s i ≠ 0 → ∃ d ∈ s.dispatches, d.call = i ∧ d.settled = false) :
    concluded s i = false := by
  refine Bool.eq_false_iff.mpr fun hend => ?_
  rcases concluded_iff.mp hend with ⟨c, hc, hrefused⟩ | ⟨hfinal, hall⟩
  · rw [accepted, hc, Option.any_some] at hacc
    rw [SubmitPc.not_refused hacc] at hrefused
    cases hrefused
  · obtain ⟨d, hd, hcall, hsettled⟩ := hopen hfinal
    rw [hall d hd hcall] at hsettled
    cases hsettled

/-- A live job is not concluded. -/
theorem Live.not_concluded {i : CallId} (h : Live s i) : concluded s i = false :=
  FatpBalancer.not_concluded h.1 fun hfinal => absurd h.2 hfinal

/-- A job whose registration has the aging step before it is not concluded. -/
theorem Registers.not_concluded {who : Option CallId} {r : Register} {d : Dispatch}
    (h : Registers s who r d) (ha : AccountingInv s) (hstage : r.stage.settled = false) :
    concluded s d.call = false :=
  FatpBalancer.not_concluded (ha.accepted_of_dispatched h.dispatch) fun _ =>
    ⟨d, List.mem_of_getElem? h.dispatch, rfl, h.settled.trans hstage⟩

/-! ## Who is tracked after a step

The engine files a job in one stage of its registration. -/

theorem FinalizeMove.tracked_back {f : Finalize} {f' : Option Finalize} (h : FinalizeMove s f t f')
    {id : JobId} (hid : t.m.mAgingEngine.isTracked id = true) :
    s.m.mAgingEngine.isTracked id = true := by
  cases h with
  | learn | skip | count | held | release => exact hid
  | untrack =>
      rw [m_modifyDispatch] at hid
      exact ((AgingEngine.isTracked_untrack _ _ _).mp hid).2
  | unroute handle => rwa [m_modifyDispatch, agingEngine_eraseRoutingState] at hid

/-- A tracked job was tracked before, or its registration has just taken the aging step. -/
theorem Move.tracked_cases (h : Move cfg ev s s') {id : JobId}
    (hid : s'.m.mAgingEngine.isTracked id = true) :
    s.m.mAgingEngine.isTracked id = true ∨
      ∃ who r, s.registerOf who = some r ∧ r.stage = .track ∧ r.job.id = id ∧
        ∀ d d', s.dispatches[r.dispatch]? = some d → s'.dispatches[r.dispatch]? = some d' →
          d'.settled = true := by
  cases h.kind with
  | finalize f t f' calls dispatches cancels aging drain hf hm hmarks hs' =>
      subst hs'
      exact .inl (hm.tracked_back hid)
  | register who r t r' calls drain hr hr' hm hstage hs' =>
      subst hs'
      cases hm with
      | insert | agingOff =>
          rw [m_modifyDispatch] at hid
          exact .inl hid
      | track htrack =>
          rw [m_modifyDispatch] at hid
          rcases (AgingEngine.isTracked_track _ _ _ _).mp hid with heq | hold
          · refine .inr ⟨who, r, hr, htrack, heq.symm, fun d d' hd hd' => ?_⟩
            rw [getElem?_modifyDispatch hd' hd rfl, if_pos rfl]
          · exact .inl hold
      | agingOn | noDispatch | publish | publishEarly => exact .inl hid
      | finalize f hf => exact absurd hf (hstage f)
  | quiet hq => exact .inl (hq.tracked id hid)

/-! ## The invariant

Calls that are not concluded have different ids, and what is tracked was drawn. -/

/-- Ids are told apart as long as they are in use. -/
structure IdsInv (s : State F) : Prop where
  distinct : ∀ {i j : CallId} {id : JobId}, s.jobId i = some id → s.jobId j = some id → i ≠ j →
    concluded s i = true ∨ concluded s j = true
  untracked : ∀ {i : CallId} {id : JobId}, s.jobId i = some id → concluded s i = false →
    (∀ d ∈ s.dispatches, d.call = i → d.settled = false) →
    s.m.mAgingEngine.isTracked id = false

/-- One job at most that is not concluded bears an id. -/
theorem IdsInv.eq_of_open (h : IdsInv s) {i j : CallId} {id : JobId} (hi : s.jobId i = some id)
    (hj : s.jobId j = some id) (hopen : concluded s i = false) (hopen' : concluded s j = false) :
    i = j := by
  by_contra hne
  rcases h.distinct hi hj hne with hend | hend
  · rw [hopen] at hend
    cases hend
  · rw [hopen'] at hend
    cases hend

/-- A fresh draw is different from all that are in use. -/
theorem IdsInv.distinct_next (h : IdsInv s) (hm : Move cfg ev s s') (hok : DrawsFresh s ev)
    (hc : CopiesInv s) (ha : AccountingInv s') {i j : CallId} {id : JobId}
    (hi : s'.jobId i = some id) (hj : s'.jobId j = some id) (hne : i ≠ j) :
    concluded s' i = true ∨ concluded s' j = true := by
  rcases hm.jobId_cases hc hi with hi₀ | ⟨hdraws, rfl, hother⟩
  · rcases hm.jobId_cases hc hj with hj₀ | ⟨hdraws, rfl, -⟩
    · exact (h.distinct hi₀ hj₀ hne).imp (hm.concluded_next ha) (hm.concluded_next ha)
    · exact .inl (hm.concluded_next ha (hok.concluded hdraws hi₀))
  · exact .inr (hm.concluded_next ha (hok.concluded hdraws (hother j _ (Ne.symm hne) hj)))

/-- Until the tracking of its job is settled, the id of a job in use is not tracked. -/
theorem IdsInv.untracked_next (h : IdsInv s) (hm : Move cfg ev s s') (hok : DrawsFresh s ev)
    (hs : Sound s) (ha : AccountingInv s') {i : CallId} {id : JobId} (hi : s'.jobId i = some id)
    (hend : concluded s' i = false)
    (hunsettled : ∀ d ∈ s'.dispatches, d.call = i → d.settled = false) :
    s'.m.mAgingEngine.isTracked id = false := by
  have hback : ∀ {k}, concluded s' k = false → concluded s k = false := fun {k} hk =>
    Bool.eq_false_iff.mpr fun htrue => absurd (hm.concluded_next ha htrue) (hk ▸ Bool.false_ne_true)
  refine Bool.eq_false_iff.mpr fun hid => ?_
  rcases hm.tracked_cases hid with hold | ⟨who, r, hr, hstage, rfl, hsettles⟩
  · refine absurd hold (Bool.eq_false_iff.mp ?_)
    rcases hm.jobId_cases hs.copies hi with hi₀ | ⟨hdraws, rfl, -⟩
    · refine h.untracked hi₀ (hback hend) fun d hd hcall => ?_
      obtain ⟨k, hk⟩ := List.getElem?_of_mem hd
      obtain ⟨d', hd', hmove⟩ := hm.dispatch_next hk
      have hfalse := hunsettled d' (List.mem_of_getElem? hd') (hmove.same.1.trans hcall)
      exact Bool.eq_false_iff.mpr fun htrue =>
        absurd (hm.settled_next hk hd' htrue) (hfalse ▸ Bool.false_ne_true)
    · exact (hok hdraws).2
  · -- the job that gets tracked is another one, and not concluded either
    obtain ⟨d, hd⟩ := hs.registering.registers hr
    obtain ⟨d', hd', hmove⟩ := hm.dispatch_next hd.dispatch
    have hopen : concluded s d.call = false := hd.not_concluded hs.accounting (by rw [hstage]; rfl)
    have hjob : s.jobId d.call = some r.job.id := by
      rw [(hs.copies.dispatches hd.dispatch).jobId, hd.job]
    have hne : i ≠ d.call := by
      rintro rfl
      have hfalse := hunsettled d' (List.mem_of_getElem? hd') hmove.same.1
      rw [hsettles d d' hd.dispatch hd'] at hfalse
      cases hfalse
    rcases hm.jobId_cases hs.copies hi with hi₀ | ⟨hdraws, hnext, -⟩
    · exact hne (h.eq_of_open hi₀ hjob (hback hend) hopen)
    · rw [hnext] at hjob
      have htrue := hok.concluded hdraws hjob
      rw [hopen] at htrue
      cases htrue

/-- In every state of a run whose draws are fresh. -/
theorem idsInv_reach (hs : (balancer cfg).Reach DrawsFresh s) : IdsInv s := by
  refine hs.invariant (I := IdsInv) ⟨fun hi => ?_, fun hi => ?_⟩ fun ev hr h hok hstep => ?_
  · cases hi
  · cases hi
  · have hm := step_move hstep
    have hsound := sound_reach hr
    have ha := accountingInv_reach (hr.step ev hok hstep)
    exact ⟨h.distinct_next hm hok hsound.copies ha, h.untracked_next hm hok hsound ha⟩

/-! ## Every accepted job has an id

Acceptance comes after the draw. -/

/-- An id once drawn is kept. -/
theorem Move.jobId_next (h : Move cfg ev s s') (hc : CopiesInv s) {i : CallId} {id : JobId}
    (hid : s.jobId i = some id) : s'.jobId i = some id := by
  obtain ⟨c, n, hci, hn, hid⟩ := State.jobId_eq_some.mp hid
  obtain ⟨c', hc', -, hn'⟩ := hc.call_next h.numbering hci hn
  exact State.jobId_eq_some.mpr ⟨c', n, hc', hn', hid⟩

/-- A job is accepted with the id it has drawn before. -/
theorem SubmitMove.accepted_back {inp : Input} {i : CallId} {c : Call}
    (h : SubmitMove cfg inp s i c s') : ∃ c', s'.calls = s.calls.set i c' ∧
      (c'.pc.accepted = true → c.pc.accepted = true ∨ ∃ job, c.pc.job? = some job) := by
  cases h with
  | enqueued job handle queue hpc | accepted nodeId job handle hpc =>
      exact ⟨_, rfl, fun _ => .inr ⟨job, by rw [hpc]; rfl⟩⟩
  | countHeld handle hpc | countDispatched r hpc =>
      exact ⟨_, rfl, fun _ => .inl (by rw [hpc]; rfl)⟩
  | @register r t r' hpc hr =>
      refine ⟨{ c with pc := r'.elim (.returned (.ok r.handle)) .register }, ?_, fun _ => ?_⟩
      · rw [State.submitAt, hr.sameOutside.calls]
      · exact .inl (by rw [hpc]; rfl)
  | advance ac pc hpc hpc' =>
      refine ⟨_, rfl, fun hacc => ?_⟩
      rcases hpc' with hgated | rfl
      · rw [(SubmitPc.accounts_of_gated hgated).1] at hacc
        cases hacc
      · cases hacc
  | _ => exact ⟨_, rfl, fun hacc => by cases hacc⟩

/-- In every reachable state. -/
theorem numbered_reach {ok : State F → Event → Prop} (hs : (balancer cfg).Reach ok s) :
    ∀ i, accepted s i = true → ∃ id, s.jobId i = some id := by
  refine hs.invariant (I := fun s => ∀ i, accepted s i = true → ∃ id, s.jobId i = some id)
    (fun i hacc => by cases hacc) fun {s s'} ev hr h _ hstep i hacc => ?_
  have hm := step_move hstep
  have hcopies := copiesInv_reach hr
  obtain ⟨c', hc', hpc'⟩ := (Option.any_eq_true _ _).mp hacc
  have hkeep : ∀ c, s.calls[i]? = some c → c.pc.accepted = true →
      ∃ id, s'.jobId i = some id := by
    intro c hc hpc
    obtain ⟨id, hid⟩ := h i (by rw [accepted, hc]; exact hpc)
    exact ⟨id, hm.jobId_next hcopies hid⟩
  rcases hm.call_back hc' with hentered | ⟨c, hc, rfl | ⟨-, hsubmit⟩⟩
  · rw [hentered] at hpc'
    cases hpc'
  · exact hkeep c' hc hpc'
  · obtain ⟨b, hcalls, hback⟩ := hsubmit.accepted_back
    obtain rfl := call_of_set hc hc' hcalls
    rcases hback hpc' with hpc | ⟨job, hjob⟩
    · exact hkeep c hc hpc
    · exact ⟨job.id, hm.jobId_next hcopies (hcopies.calls hc hjob).jobId⟩

/-! ## Before the wrap

The counter has handed out each id at most once. -/

/-- A tracked id is one that was drawn. -/
theorem tracked_drawn {ok : State F → Event → Prop} (hs : (balancer cfg).Reach ok s) :
    ∀ id, s.m.mAgingEngine.isTracked id = true → ∃ n, n < s.issued ∧ jobIdOf n = id := by
  refine hs.invariant
    (I := fun s => ∀ id, s.m.mAgingEngine.isTracked id = true →
      ∃ n, n < s.issued ∧ jobIdOf n = id)
    (fun id hid => by cases hid) fun ev hr h _ hstep id hid => ?_
  have hm := step_move hstep
  have hsound := sound_reach hr
  rcases hm.tracked_cases hid with hold | ⟨who, r, hrun, -, rfl, -⟩
  · obtain ⟨n, hn, hid⟩ := h id hold
    exact ⟨n, hn.trans_le hm.issued_mono, hid⟩
  · obtain ⟨d, hd⟩ := hsound.registering.registers hrun
    obtain ⟨c, n, hc, hn, hjob⟩ := hsound.copies.dispatches hd.dispatch
    refine ⟨n, (hsound.copies.ordinal_lt hc hn).trans_le hm.issued_mono, ?_⟩
    rw [← hd.job, hjob]

/-- A run that draws no id twice draws fresh ids only. -/
theorem drawsFresh_of_unwrapped (hs : (balancer cfg).Reach (fun s _ => s.issued < 2 ^ 32) s) :
    (balancer cfg).Reach DrawsFresh s := by
  induction hs with
  | init => exact .init
  | @step s s' ev hr hissued hstep ih =>
      have hcopies := copiesInv_reach hr
      have hnot : ∀ n, n < s.issued → jobIdOf n ≠ s.m.mNextJobId := fun n hn heq => by
        rw [hcopies.nextJobId] at heq
        exact absurd (jobIdOf_inj (hn.trans hissued) hissued heq) hn.ne
      refine .step ev ih (fun _ => ⟨fun i _ hid => ?_, ?_⟩) hstep
      · obtain ⟨c, n, hc, hn, hid⟩ := State.jobId_eq_some.mp hid
        exact absurd hid (hnot n (hcopies.ordinal_lt hc hn))
      · refine Bool.eq_false_iff.mpr fun hid => ?_
        obtain ⟨n, hn, hid⟩ := tracked_drawn hr _ hid
        exact hnot n hn hid

/-! ## The result

Live jobs are told apart by their ids, in the maps and in the engine. -/

/-- Live jobs have ids of their own, and what is filed by job id is filed under one live job. -/
structure UniqueIds (cfg : BalancerConfig F) (s : State F) : Prop where
  numbered : ∀ i, Live s i → ∃ id, s.jobId i = some id
  distinct : ∀ i j id, Live s i → Live s j → s.jobId i = some id → s.jobId j = some id → i = j
  held : ∀ e ∈ s.m.mHoldingQueue.entries, s.jobId e.onDone.call = some e.job.id
  carried : ∀ e, s.drain.entry? = some e → s.jobId e.onDone.call = some e.job.id
  dispatched : ∀ d ∈ s.dispatches, s.jobId d.call = some d.capturedJob.id
  /-- the insertions of `registerDispatchedJob` meet no other live job's entry -/
  inserts : ∀ who r, s.registerOf who = some r → r.stage = .insert →
    ∀ k d, s.dispatches[k]? = some d → k ≠ r.dispatch → Live s d.call →
      d.capturedJob.id ≠ r.job.id ∧
        (insertRoutingState cfg s.m r).mJobIdToHandleMap.lookup d.capturedJob.id =
          s.m.mJobIdToHandleMap.lookup d.capturedJob.id
  /-- `AgingEngine::track` is no no-op -/
  tracks : ∀ who r, s.registerOf who = some r → r.stage = .track →
    ∀ now, s.m.mAgingEngine.track r.job now ≠ s.m.mAgingEngine

/-- Tracking one id leaves the entries of the others alone. -/
theorem AgingEngine.track_ne {a : AgingEngine} {job : Job} (h : a.isTracked job.id = false)
    (now : TimePoint) : a.track job now ≠ a := by
  intro heq
  have htracked := (AgingEngine.isTracked_track a job now job.id).mpr (.inl rfl)
  rw [heq, h] at htracked
  cases htracked

/-- **Job ids.**  In every run whose draws are fresh, across any number of wraps, live jobs have
distinct ids, no registration touches the entry of another live job, and no tracking is lost. -/
theorem unique_ids (hs : (balancer cfg).Reach DrawsFresh s) : UniqueIds cfg s := by
  have h := idsInv_reach hs
  have hsound := sound_reach hs
  have hcopy : ∀ {k : Nat} {d : Dispatch}, s.dispatches[k]? = some d →
      s.jobId d.call = some d.capturedJob.id := fun hd => (hsound.copies.dispatches hd).jobId
  refine ⟨fun i hlive => numbered_reach hs i hlive.1,
    fun i j id hi hj hid hid' => h.eq_of_open hid hid' hi.not_concluded hj.not_concluded,
    fun e he => (hsound.copies.entries e he).jobId, fun e he => (hsound.copies.drain he).jobId,
    fun d hd => ?_, fun who r hr hstage k d hd hk hlive => ?_, fun who r hr hstage => ?_⟩
  · obtain ⟨k, hk⟩ := List.getElem?_of_mem hd
    exact hcopy hk
  · obtain ⟨d₀, hd₀⟩ := hsound.registering.registers hr
    have hids : d.capturedJob.id ≠ r.job.id := by
      intro heq
      have hjob := hcopy hd₀.dispatch
      rw [hd₀.job, ← heq] at hjob
      -- the two dispatches would be of one call, which has one dispatch
      have hcall := h.eq_of_open (hcopy hd) hjob hlive.not_concluded
        (hd₀.not_concluded hsound.accounting (by rw [hstage]; rfl))
      exact hk (hsound.accounting.dispatch_unique hd hd₀.dispatch hcall)
    exact ⟨hids, HashMap.lookup_put_ne hids⟩
  · obtain ⟨d₀, hd₀⟩ := hsound.registering.registers hr
    have hjob := hcopy hd₀.dispatch
    rw [hd₀.job] at hjob
    refine AgingEngine.track_ne (h.untracked hjob
      (hd₀.not_concluded hsound.accounting (by rw [hstage]; rfl)) fun d hd hcall => ?_)
    -- a call has one dispatch, and this one is before its aging step
    obtain ⟨k, hk⟩ := List.getElem?_of_mem hd
    obtain rfl := hsound.accounting.dispatch_unique hk hd₀.dispatch hcall
    obtain rfl := Option.some.inj (hk.symm.trans hd₀.dispatch)
    rw [hd₀.settled, hstage]
    rfl

/-- One job on its node, the next about to be tracked. -/
theorem unique_ids_tracking : ∃ s : State Rat,
    (∃ r, s.registerOf (some 1) = some r ∧ r.stage = .track) ∧ Live s 0 ∧ UniqueIds oneNode s := by
  obtain ⟨s, hs, hp⟩ := exists_reach (balancer oneNode) DrawsFresh
    (agingOn ++ submitScript 0 {} 14 { selected := some 0, accepted := some 7 } ++
      submitScript 1 {} 12 { selected := some 0, accepted := some 8 })
    (fun s => accepted s 0 && finalizedCount s 0 == 0 &&
      (s.registerOf (some 1)).any fun r => r.stage == .track) (by decide)
  simp only [Bool.and_eq_true, beq_iff_eq, Option.any_eq_true] at hp
  obtain ⟨⟨hacc, hopen⟩, r, hr, hstage⟩ := hp
  exact ⟨s, ⟨r, hr, hstage⟩, ⟨hacc, hopen⟩, unique_ids hs⟩

/-- Ids are 32-bit numbers. -/
theorem jobIdOf_lt (n : Nat) : jobIdOf n < 2 ^ 32 := Nat.mod_lt _ (Nat.two_pow_pos 32)

/-- One more id than there are numbers for. -/
theorem exists_same_id (n : Nat) (f : Nat → Nat) (hf : ∀ i < n + 1, f i < n) :
    ∃ i j, i < n + 1 ∧ j < n + 1 ∧ i ≠ j ∧ f i = f j := by
  obtain ⟨i, hi, j, hj, hne, heq⟩ := Finset.exists_ne_map_eq_of_card_lt_of_maps_to
    (s := Finset.range (n + 1)) (t := Finset.range n) (by simp) (f := f)
    fun i hi => Finset.mem_coe.mpr (Finset.mem_range.mpr (hf i (Finset.mem_range.mp hi)))
  exact ⟨i, j, Finset.mem_range.mp hi, Finset.mem_range.mp hj, hne, heq⟩

/-- With 2^32 + 1 jobs in flight, two of them have the same id. -/
theorem job_ids_wrap : ∃ s : State Rat, (balancer oneNode).Reach anyEvent s ∧
    ¬UniqueIds oneNode s := by
  obtain ⟨s, hs, hflood⟩ := flooded_reach (2 ^ 32 + 1)
  refine ⟨s, hs, fun h => ?_⟩
  have hlive : ∀ i < 2 ^ 32 + 1, Live s i := by
    intro i hi
    rw [← hflood.length] at hi
    obtain ⟨handle, hpc⟩ := hflood.accepted _ (List.getElem_mem hi)
    refine ⟨?_, by rw [finalizedCount, hflood.unfinalized]; rfl⟩
    rw [accepted, List.getElem?_eq_getElem hi, Option.any_some, hpc]
    rfl
  obtain ⟨i, j, hi, hj, hne, heq⟩ := exists_same_id (2 ^ 32) (fun i => (s.jobId i).getD 0)
    fun i hi => by
      obtain ⟨id, hid⟩ := h.numbered i (hlive i hi)
      obtain ⟨c, n, -, -, rfl⟩ := State.jobId_eq_some.mp hid
      simpa [hid] using jobIdOf_lt n
  obtain ⟨id, hid⟩ := h.numbered i (hlive i hi)
  obtain ⟨id', hid'⟩ := h.numbered j (hlive j hj)
  obtain rfl : id = id' := by simpa [hid, hid'] using heq
  exact hne (h.distinct i j id (hlive i hi) (hlive j hj) hid hid')

end FatpBalancer
