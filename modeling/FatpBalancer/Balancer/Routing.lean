/-
# Cancelling by handle

`cancel` finds a job by the handle alone: a stored entry by its holding handle, a dispatched job
through the routing maps, which every registration writes and every finalisation erases.  As long as
no handle is minted while another job bears it, a `cancel` call takes out the job its caller knows
under the handle, or none.

`RoutesMove` is what a step does to the maps: nothing, an insertion by a registration, or an erasure
by a finalisation.  `CancelPc.Records` follows a `cancel` call to the job it takes out, and
`TakesOut` and `Spares` say that it takes out this job and no other: no other dispatch leaves its
node, no other entry the queue, no other job is finalised, no other route erased.
-/
import FatpBalancer.Balancer.Handles

universe u

namespace FatpBalancer

open Machine

variable {F : Type u} [FloatOps F] {cfg : BalancerConfig F} {inp : Input} {ev : Event}
  {s s' t : State F}

/-! ## The routing maps

They are written under one lock, all of them together. -/

/-- What `registerDispatchedJob` stores under the handle of this dispatch. -/
def Dispatch.info (d : Dispatch) : JobRoutingInfo where
  jobId := d.capturedJob.id
  nodeId := d.nodeId

/-- What one step does to the routing maps, and to the flag that says which dispatches are in
them. -/
inductive RoutesMove (cfg : BalancerConfig F) (s s' : State F) : Prop
  | kept (hhandles : s'.m.mHandleToJobInfo = s.m.mHandleToJobInfo)
      (hids : s'.m.mJobIdToHandleMap = s.m.mJobIdToHandleMap)
      (hrouted : ∀ {k : Nat} {d d' : Dispatch}, s.dispatches[k]? = some d →
        s'.dispatches[k]? = some d' → d'.routed = d.routed)
  | insert (who : Option CallId) (r : Register) (hr : s.registerOf who = some r)
      (hstage : r.stage = .insert)
      (hhandles : s'.m.mHandleToJobInfo = (insertRoutingState cfg s.m r).mHandleToJobInfo)
      (hids : s'.m.mJobIdToHandleMap = (insertRoutingState cfg s.m r).mJobIdToHandleMap)
      (hrouted : ∀ {k : Nat} {d d' : Dispatch}, s.dispatches[k]? = some d →
        s'.dispatches[k]? = some d' → d'.routed = if k = r.dispatch then true else d.routed)
  | erase (f : Finalize) (handle : JobHandle) (hf : Finalizing s f) (hstage : f.stage = .unroute)
      (hsome : f.routedHandle = some handle)
      (hhandles : s'.m.mHandleToJobInfo = (eraseRoutingState s.m handle).mHandleToJobInfo)
      (hids : s'.m.mJobIdToHandleMap = (eraseRoutingState s.m handle).mJobIdToHandleMap)
      (hrouted : ∀ {k : Nat} {d d' : Dispatch}, s.dispatches[k]? = some d →
        s'.dispatches[k]? = some d' → d'.routed = if f.dispatch = some k then false else d.routed)

theorem getElem?_modifyDispatch {k : Option Nat} {g : Dispatch → Dispatch} {n : Nat}
    {d d' : Dispatch} (hd' : (modifyDispatch t k g).dispatches[n]? = some d')
    (hd : s.dispatches[n]? = some d) (hst : t.dispatches = s.dispatches) :
    d' = if k = some n then g d else d := by
  rw [← hst] at hd
  cases k with
  | none => exact Option.some.inj (hd'.symm.trans hd)
  | some k =>
      simp only [modifyDispatch, List.getElem?_modify, hd] at hd'
      rw [← Option.some.inj hd']
      by_cases hk : k = n <;> simp [hk]

theorem m_modifyDispatch (k : Option Nat) (g : Dispatch → Dispatch) :
    (modifyDispatch s k g).m = s.m := by
  cases k <;> rfl

/-- What one step of a finalisation does to the routing maps. -/
theorem FinalizeMove.routes {f : Finalize} {f' : Option Finalize} (h : FinalizeMove s f t f')
    (hf : Finalizing s f) (hm : s'.m = t.m)
    (hmarks : s'.dispatches.map Dispatch.marks = t.dispatches.map Dispatch.marks) :
    RoutesMove cfg s s' := by
  have hkept : t.m.mHandleToJobInfo = s.m.mHandleToJobInfo →
      t.m.mJobIdToHandleMap = s.m.mJobIdToHandleMap →
      (∀ {k : Nat} {d d' : Dispatch}, s.dispatches[k]? = some d → t.dispatches[k]? = some d' →
        d'.routed = d.routed) → RoutesMove cfg s s' := by
    intro hhandles hids hrouted
    refine .kept (hm ▸ hhandles) (hm ▸ hids) fun hd hd' => ?_
    obtain ⟨x, hx, hsame⟩ := getElem?_marks hmarks hd'
    exact (congrArg Marks.routed hsame).trans (hrouted hd hx)
  cases h with
  | learn | skip | count | held | release =>
      exact hkept rfl rfl fun hd hd' => by rw [Option.some.inj (hd.symm.trans hd')]
  | untrack =>
      refine hkept (by rw [m_modifyDispatch]) (by rw [m_modifyDispatch]) fun hd hd' => ?_
      rw [getElem?_modifyDispatch hd' hd rfl]
      split <;> rfl
  -- the one step that takes an entry out
  | unroute handle hstage hsome =>
      refine .erase f handle hf hstage hsome (by rw [hm, m_modifyDispatch])
        (by rw [hm, m_modifyDispatch]) fun hd hd' => ?_
      obtain ⟨x, hx, hsame⟩ := getElem?_marks hmarks hd'
      refine (congrArg Marks.routed hsame).trans ?_
      change x.routed = _
      rw [getElem?_modifyDispatch hx hd rfl]
      split <;> rfl

theorem Move.routes (h : Move cfg ev s s') : RoutesMove cfg s s' := by
  cases h.kind with
  | finalize f t f' calls dispatches cancels aging drain hf hm hmarks hs' =>
      subst hs'
      exact hm.routes hf rfl hmarks
  | register who r t r' calls drain hr hr' hm hstage hs' =>
      subst hs'
      cases hm with
      | insert hins =>
          refine .insert who r hr hins rfl rfl fun {k d d'} hd hd' => ?_
          rw [getElem?_modifyDispatch hd' hd rfl]
          by_cases hk : k = r.dispatch
          · simp [hk]
          · simp [hk, Ne.symm hk]
      | agingOn | noDispatch =>
          exact .kept rfl rfl fun hd hd' => by rw [Option.some.inj (hd.symm.trans hd')]
      | agingOff | track =>
          refine .kept rfl rfl fun hd hd' => ?_
          rw [getElem?_modifyDispatch hd' hd rfl]
          split <;> rfl
      | publish x hins hx | publishEarly x job hins hx =>
          refine .kept rfl rfl fun hd hd' => ?_
          rcases Table.getElem?_set_cases hd' with ⟨rfl, rfl⟩ | ⟨-, hd'⟩
          · rw [Option.some.inj (hd.symm.trans hx)]
            rfl
          · rw [Option.some.inj (hd.symm.trans hd')]
      | finalize f hf => exact absurd hf (hstage f)
  | quiet hq =>
      exact .kept hq.handles hq.ids fun hd hd' => congrArg Marks.routed (hq.marks hd hd')

theorem lookup_eraseRoutingState_ne (m : Members F) {handle h : JobHandle} (hne : h ≠ handle) :
    (eraseRoutingState m handle).mHandleToJobInfo.lookup h = m.mHandleToJobInfo.lookup h := by
  unfold eraseRoutingState
  split
  · rfl
  · exact AList.lookup_erase_ne hne

theorem lookup_eraseRoutingState_self (m : Members F) (handle : JobHandle) :
    (eraseRoutingState m handle).mHandleToJobInfo.lookup handle = none := by
  unfold eraseRoutingState
  split
  · next h => exact h
  · exact AList.lookup_erase _ _

theorem lookup_insertRoutingState (cfg : BalancerConfig F) (m : Members F) (r : Register)
    (h : JobHandle) :
    (insertRoutingState cfg m r).mHandleToJobInfo.lookup h = m.mHandleToJobInfo.lookup h ∨
      h = r.handle ∧ (insertRoutingState cfg m r).mHandleToJobInfo.lookup h =
        some { jobId := r.job.id, nodeId := r.nodeId } := by
  by_cases hh : h = r.handle
  · subst hh
    unfold insertRoutingState HashMap.put
    dsimp only
    split
    · exact .inr ⟨rfl, AList.lookup_insert _⟩
    · exact .inl rfl
  · exact .inl (HashMap.lookup_put_ne hh)

theorem Registers.open {who : Option CallId} {r : Register} {d : Dispatch}
    (h : Registers s who r d) (hstage : r.stage = .insert) : closed s d = false := by
  rw [closed, h.published (by rw [hstage]; rfl), Bool.and_false]

/-- A finalisation that erases an entry ends a dispatch with that handle. -/
theorem FinalizingInv.routed_dispatch (h : FinalizingInv s) (ha : AccountingInv s) {f : Finalize}
    (hf : Finalizing s f) {handle : JobHandle} (hsome : f.routedHandle = some handle) :
    ∃ k d, f.dispatch = some k ∧ s.dispatches[k]? = some d ∧ FinalizesDispatch f d ∧
      d.handle = handle ∧ closed s d = false := by
  have hknown := h.finalizes hf
  cases hk : f.dispatch with
  | none =>
      rw [(hknown.held hk).2.1] at hsome
      cases hsome
  | some k =>
      obtain ⟨d, hd, hfd⟩ := hknown.dispatched k hk
      exact ⟨k, d, rfl, hd, hfd, Option.some.inj (hfd.handle.symm.trans hsome),
        by simp [closed, hfd.call, ha.finalizing_unfinalized hf]⟩

/-- The handle a call has returned. -/
def SubmitPc.returned? : SubmitPc → Option JobHandle
  | .returned (.ok handle) => some handle
  | _ => none

/-- The submitter of call `j` knows its job, which is not finalised, under this handle. -/
def KnownAs (s : State F) (j : CallId) (handle : JobHandle) : Prop :=
  finalizedCount s j = 0 ∧ (s.calls[j]?).bind (fun c => c.pc.returned?) = some handle

instance (s : State F) (j : CallId) (handle : JobHandle) : Decidable (KnownAs s j handle) :=
  inferInstanceAs (Decidable (_ ∧ _))

/-- From `s` to `t` no job but this one leaves its node or the holding queue, is finalised or loses
its routing entry. -/
structure Spares (hit : Option CallId) (s t : State F) : Prop where
  onNode : ∀ (k : Nat) (d : Dispatch), s.dispatches[k]? = some d → hit ≠ some d.call →
    ∃ d', t.dispatches[k]? = some d' ∧ d'.side = d.side
  held : ∀ e ∈ s.m.mHoldingQueue.entries, hit ≠ some e.onDone.call →
    e ∈ t.m.mHoldingQueue.entries
  finalized : ∀ i, hit ≠ some i → finalizedCount t i = finalizedCount s i
  routed : ∀ (k : Nat) (d : Dispatch), s.dispatches[k]? = some d → finalizedCount s d.call = 0 →
    hit ≠ some d.call → s.m.mHandleToJobInfo.lookup d.handle = some d.info →
    t.m.mHandleToJobInfo.lookup d.handle = some d.info

theorem Spares.refl (hit : Option CallId) (s : State F) : Spares hit s s where
  onNode _ d hd _ := ⟨d, hd, rfl⟩
  held _ he _ := he
  finalized _ _ := rfl
  routed _ _ _ _ _ h := h

/-- The caller of the first `cancel` call knows the job of call `i` under its handle. -/
def asked (s : State F) (i : CallId) : Bool :=
  (s.cancels[0]?).all fun c => decide (KnownAs s i c.handle)

end FatpBalancer
