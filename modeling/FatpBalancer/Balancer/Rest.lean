/-
# The balancer at rest

When every call has returned, nothing is held and every node has let go of its jobs, what the
counters and the histories must say: nothing is in flight, each accepted job has been finalised
once, and the totals are the numbers of the accepted and of the succeeded jobs.

The argument has three parts.

* `PublishedInv`: a dispatch whose registration state is not published yet has a thread that is
  about to publish it.  With every call returned there is no such thread, so no early-completed job
  can be left waiting.
* `ledger`: a success that a node has reported is counted, or is carried by a thread that will count
  it, or waits in the registration state.  `Conserves` is the step lemma, one case for each kind of
  move.
* `Idle` and `Rest`: what the places and the ledger come to when no thread has anything in hand and,
  for `Rest`, nothing is held either; `Settled` collects it.
-/
import FatpBalancer.Balancer.Handles
import FatpBalancer.Balancer.Learning
import FatpBalancer.Balancer.Totals

universe u

namespace FatpBalancer

open Machine

variable {F : Type u} [FloatOps F] {cfg : BalancerConfig F} {inp : Input} {ev : Event}
  {s s' : State F}

/-! ## Registrations that are still to come

A node may finish a job before the thread that dispatched it has registered it.  The callback then
leaves the finished job in the registration state, and the registering thread finalises it on
publication; this part shows that such a thread always exists. -/

/-- The two places of `submit` at which a registration is under way. -/
theorem SubmitPc.register?_cases {pc : SubmitPc} {r : Register} (h : pc.register? = some r) :
    pc = .countDispatched r ∨ pc = .register r := by
  cases pc <;> cases h
  · exact .inl rfl
  · exact .inr rfl

/-- The two places of the drain loop at which a registration is under way. -/
theorem DrainPc.register?_cases {pc : DrainPc} {r : Register} (h : pc.register? = some r) :
    pc = .releaseSlot r ∨ pc = .register r := by
  cases pc <;> cases h
  · exact .inl rfl
  · exact .inr rfl

/-- The registration under way after a step `r'` of it, in the state `t` it has led to. -/
def RegisterNext (cfg : BalancerConfig F) (inp : Input) (s s' : State F) (who : Option CallId)
    (r : Register) : Prop :=
  s'.registerOf who = some r ∨
    ∃ t, RegisterMove cfg inp s r t (s'.registerOf who) ∧ s'.dispatches = t.dispatches

/-- A `submit` call stays at its registration or takes it one step on. -/
theorem SubmitMove.register_next {i : CallId} {c : Call} {r : Register}
    (h : SubmitMove cfg inp s i c s') (hc : s.calls[i]? = some c) (hr : c.pc.register? = some r) :
    RegisterNext cfg inp s s' (some i) r := by
  have hi : i < s.calls.length := (List.getElem?_eq_some_iff.mp hc).1
  rcases SubmitPc.register?_cases hr with hpc | hpc
  -- the registration itself has not begun
  · cases h with
    | countDispatched r' hpc' =>
        obtain rfl := SubmitPc.countDispatched.inj (hpc.symm.trans hpc')
        left
        simp [State.registerOf, State.submitAt, List.getElem?_set_self hi, SubmitPc.register?]
    | reject ac error hgated | advance ac pc hgated => rw [hpc] at hgated; cases hgated
    | backOut error hleaving => rw [hpc] at hleaving; cases hleaving
    | shut hpc' | opened hpc' | reserve hpc' | holdId hpc' | enqueued _ _ _ hpc'
    | notEnqueued _ _ hpc' | releaseSlot hpc' | countHeld _ hpc' | unselected _ hpc'
    | selected _ hpc' | assignId _ hpc' | refused _ _ hpc' | accepted _ _ _ hpc'
    | register _ hpc' => cases hpc.symm.trans hpc'
  · cases h with
    | @register r' t next hpc' hm =>
        obtain rfl := SubmitPc.register.inj (hpc.symm.trans hpc')
        refine .inr ⟨t, ?_, rfl⟩
        have hnext : State.registerOf
            (t.submitAt i c (next.elim (.returned (.ok r.handle)) .register)) (some i) = next := by
          rw [← hm.sameOutside.calls] at hi
          simp only [State.registerOf, State.submitAt, List.getElem?_set_self hi, Option.bind_some]
          cases next <;> rfl
        rw [hnext]
        exact hm
    | reject ac error hgated | advance ac pc hgated => rw [hpc] at hgated; cases hgated
    | backOut error hleaving => rw [hpc] at hleaving; cases hleaving
    | shut hpc' | opened hpc' | reserve hpc' | holdId hpc' | enqueued _ _ _ hpc'
    | notEnqueued _ _ hpc' | releaseSlot hpc' | countHeld _ hpc' | unselected _ hpc'
    | selected _ hpc' | assignId _ hpc' | refused _ _ hpc' | accepted _ _ _ hpc'
    | countDispatched _ hpc' => cases hpc.symm.trans hpc'

/-- The drain thread stays at its registration or takes it one step on. -/
theorem DrainMove.register_next {r : Register} (h : DrainMove cfg inp s s')
    (hr : s.drain.register? = some r) : RegisterNext cfg inp s s' none r := by
  rcases DrainPc.register?_cases hr with hpc | hpc
  · cases h with
    | releaseSlot r' hpc' =>
        obtain rfl := DrainPc.releaseSlot.inj (hpc.symm.trans hpc')
        exact .inl rfl
    | wake hpc' | drained hpc' | take _ _ hpc' | drop _ hpc' | saturated _ hpc' | offer _ hpc'
    | dropRelease _ hpc' | dropping _ hpc' | unselected _ hpc' | selected _ _ hpc'
    | refused _ _ hpc' | accepted _ _ _ hpc' | requeued _ _ _ hpc' | lost _ _ hpc'
    | register _ hpc' => cases hpc.symm.trans hpc'
  · cases h with
    | @register r' t next hpc' hm =>
        obtain rfl := DrainPc.register.inj (hpc.symm.trans hpc')
        refine .inr ⟨t, ?_, rfl⟩
        have hnext : State.registerOf { t with drain := next.elim .looping .register } none =
            next := by
          cases next <;> rfl
        rw [hnext]
        exact hm
    | wake hpc' | drained hpc' | take _ _ hpc' | drop _ hpc' | saturated _ hpc' | offer _ hpc'
    | dropRelease _ hpc' | dropping _ hpc' | unselected _ hpc' | selected _ _ hpc'
    | refused _ _ hpc' | accepted _ _ _ hpc' | requeued _ _ _ hpc' | lost _ _ hpc'
    | releaseSlot _ hpc' => cases hpc.symm.trans hpc'

/-- The registration of a thread stays, or makes a step. -/
theorem Move.register_next (h : Move cfg ev s s') {who : Option CallId} {r : Register}
    (hr : s.registerOf who = some r) : RegisterNext cfg ev.input s s' who r := by
  cases who with
  | some i =>
      obtain ⟨c, hc, hpc⟩ := Option.bind_eq_some_iff.mp hr
      rcases h.call_cases hc with hsame | ⟨-, hm⟩
      · left
        rw [State.registerOf, hsame, Option.bind_some, hpc]
      · exact hm.register_next hc hpc
  | none =>
      rcases h.drain_cases with hsame | hm
      · left
        rw [State.registerOf, hsame]
        exact hr
      · exact hm.register_next hr

/-- A dispatch whose registration state is not published yet is about to be published. -/
def PublishedInv (s : State F) : Prop :=
  ∀ {k : Nat} {d : Dispatch}, s.dispatches[k]? = some d → d.regState.published = false →
    ∃ who r, s.registerOf who = some r ∧ r.dispatch = k ∧ r.stage.unpublished = true

/-- A registration step that leaves its dispatch unpublished is not the last one. -/
theorem RegisterMove.unpublished {r : Register} {r' : Option Register} {t : State F}
    (h : RegisterMove cfg inp s r t r') {d d' : Dispatch} (hd : s.dispatches[r.dispatch]? = some d)
    (hd' : t.dispatches[r.dispatch]? = some d') (hun : d'.regState.published = false)
    (hstage : r.stage.unpublished = true) :
    ∃ r₁, r' = some r₁ ∧ r₁.dispatch = r.dispatch ∧ r₁.stage.unpublished = true := by
  have hlt : r.dispatch < s.dispatches.length := (List.getElem?_eq_some_iff.mp hd).1
  cases h with
  | insert | agingOn | agingOff | track => exact ⟨_, rfl, rfl, rfl⟩
  | noDispatch hpublish hnone => rw [hd] at hnone; cases hnone
  | publish x | publishEarly x =>
      rw [List.getElem?_set_self hlt] at hd'
      obtain rfl := Option.some.inj hd'
      cases hun
  | finalize f hfinalize => rw [hfinalize] at hstage; cases hstage

/-- A dispatch that was not there before is about to be registered by its submitter. -/
theorem Move.fresh_register (h : Move cfg ev s s') {k : Nat} {d' : Dispatch}
    (hnone : s.dispatches[k]? = none) (hd' : s'.dispatches[k]? = some d') :
    ∃ who r, s'.registerOf who = some r ∧ r.dispatch = k ∧ r.stage.unpublished = true := by
  have hlt := length_lt_of_fresh hnone hd'
  have hk : ∀ x : Dispatch, s'.dispatches = s.dispatches ++ [x] → s.dispatches.length = k := by
    intro x hx
    rw [hx] at hd'
    rcases Table.getElem?_concat_cases hd' with hold | ⟨rfl, -⟩
    · rw [hnone] at hold
      cases hold
    · rfl
  cases h with
  | submit i c hc hm =>
      cases hm with
      | accepted nodeId job handle hpc =>
          have hi : i < s.calls.length := (List.getElem?_eq_some_iff.mp hc).1
          refine ⟨some i, newRegister s nodeId handle job, ?_, hk _ rfl, rfl⟩
          show ((s.calls.set i _)[i]?).bind _ = _
          rw [List.getElem?_set_self hi]
          rfl
      | register r hpc hr => exact absurd hr.length_dispatches hlt.ne'
      | _ => exact absurd rfl hlt.ne
  | drain hm =>
      cases hm with
      | accepted nodeId entry handle hpc =>
          exact ⟨none, newRegister s nodeId handle entry.job, rfl, hk _ rfl, rfl⟩
      | dropping f hpc hf => exact absurd hf.length_dispatches hlt.ne'
      | register r hpc hr => exact absurd hr.length_dispatches hlt.ne'
      | _ => exact absurd rfl hlt.ne
  | node j d hd hm =>
      cases hm with
      | finalize f hside hf =>
          exact absurd (by simp [modifyDispatch, hf.length_dispatches]) hlt.ne
      | _ => exact absurd (by simp) hlt.ne
  | cancel c c' t cancels aging hm hrep =>
      cases hm with
      | hit => exact absurd (by simp [modifyDispatch]) hlt.ne
      | finalize f hpc hf => exact absurd hf.length_dispatches hlt.ne'
      | _ => exact absurd rfl hlt.ne
  | aging hm => cases hm <;> exact absurd rfl hlt.ne
  | switch j pc hactor hpc hm => cases hm <;> exact absurd rfl hlt.ne
  | _ => exact absurd rfl hlt.ne

/-- A step either leaves the registering thread where it is, publishes the dispatch, or opens a new
dispatch together with the thread that will register it. -/
theorem PublishedInv.next (h : PublishedInv s) (hm : Move cfg ev s s') : PublishedInv s' := by
  intro k d' hd' hun
  rcases hm.dispatches.1 k d' hd' with ⟨d, hd, hmove⟩ | ⟨hnone, hfresh⟩
  · have hun₀ : d.regState.published = false := by
      by_contra hpub
      rw [hmove.published_next (by simpa using hpub)] at hun
      cases hun
    obtain ⟨who, r, hr, rfl, hstage⟩ := h hd hun₀
    rcases hm.register_next hr with hsame | ⟨t, hrm, hdispatches⟩
    · exact ⟨who, r, hsame, rfl, hstage⟩
    · obtain ⟨r₁, hr₁, hk, hstage₁⟩ := hrm.unpublished hd (hdispatches ▸ hd') hun hstage
      exact ⟨who, r₁, hr₁, hk, hstage₁⟩
  · exact hm.fresh_register hnone hd'

/-- In every reachable state, under any assumption on the steps. -/
theorem publishedInv_reach {ok : State F → Event → Prop} (hs : (balancer cfg).Reach ok s) :
    PublishedInv s := by
  refine hs.invariant (I := fun s => PublishedInv s) ?_ ?_
  · intro k d hd
    cases hd
  · intro s s' ev _ h _ hstep
    exact h.next (step_move hstep)

/-! ## Successes and where they are counted

`mTotalCompleted` is incremented inside `finalizeJobLifecycle`, some steps after the node has
reported.  Until then the success is in a thread's hands or in the registration state; the `due`
functions say, program counter by program counter, whether it is. -/

/-- A success this finalisation has yet to count. -/
def Finalize.due (f : Finalize) : Nat :=
  match f.stage with
  | .learn => f.succeeded.toNat
  | .count => 1
  | .untrack | .unroute | .release => 0

/-- A success that the registration's early finalisation has yet to count. -/
def Register.due (r : Register) : Nat :=
  match r.stage with
  | .finalize f => f.due
  | _ => 0

/-- A success in the hands of a `submit` call, by way of its registration. -/
def SubmitPc.due : SubmitPc → Nat
  | .countDispatched r | .register r => r.due
  | _ => 0

/-- A success in the hands of a `cancel` call: none that a node reported, but the shape is the same.
-/
def CancelPc.due : CancelPc → Nat
  | .finalize f => f.due
  | _ => 0

/-- A success in the hands of the drain thread: in its registration, or in the drop it is
finalising. -/
def DrainPc.due : DrainPc → Nat
  | .dropping f => f.due
  | .releaseSlot r | .register r => r.due
  | _ => 0

/-- A success that the node has reported and that no finalisation has taken over yet, or that the
callback has yet to count. -/
def Dispatch.due (d : Dispatch) : Nat :=
  (match d.side with
    | .finished _ succeeded => succeeded.toNat
    | .calling f => f.due
    | _ => 0) +
  (d.regState.earlyCompletedJob.isSome && d.regState.earlySucceeded).toNat

/-- The node has reported success. -/
def Dispatch.succeeded (d : Dispatch) : Nat := (d.report.any fun report => report.2).toNat

/-- The successes that wait in the dispatches. -/
def duesOn (dispatches : List Dispatch) : Nat := Table.total Dispatch.due dispatches

/-- The successes that nodes have reported. -/
def successesOn (dispatches : List Dispatch) : Nat := Table.total Dispatch.succeeded dispatches

/-- The successes in the hands of the `submit` calls. -/
def callsDue (calls : List Call) : Nat := Table.total (fun c => c.pc.due) calls

/-- The successes in the hands of the `cancel` calls. -/
def cancelsDue (cancels : List CancelCall) : Nat := Table.total (fun c => c.pc.due) cancels

/-- The successes that are not counted yet, and those that are. -/
def ledger (s : State F) : Nat :=
  duesOn s.dispatches + callsDue s.calls + cancelsDue s.allCancels + s.drain.due +
    s.m.mTotalCompleted

/-- A step of one machine takes the successes along. -/
def Conserves (s s' : State F) : Prop :=
  ledger s' + successesOn s.dispatches = ledger s + successesOn s'.dispatches

/-- A finalisation counts its success in its second step and carries it until then. -/
theorem FinalizeMove.due {f : Finalize} {f' : Option Finalize} {t : State F}
    (h : FinalizeMove s f t f') :
    t.m.mTotalCompleted + f'.elim 0 Finalize.due = s.m.mTotalCompleted + f.due := by
  have htotals := h.totals.2
  cases h with
  | learn hstage hok => simp [Finalize.due, hstage, hok]
  | skip hstage hfail => simp [Finalize.due, hstage, hfail]
  | count hstage => simp [Finalize.due, hstage]
  | held hstage | release hstage => simp [Finalize.due, hstage]
  | untrack hstage | unroute handle hstage =>
      rw [htotals]
      simp [Finalize.due, hstage]

/-- The history flags do not enter either total. -/
theorem duesOn_core {l l' : List Dispatch} (h : l'.map Dispatch.core = l.map Dispatch.core) :
    duesOn l' = duesOn l ∧ successesOn l' = successesOn l :=
  ⟨total_core (fun _ => rfl) h, total_core (fun _ => rfl) h⟩

/-- Replacing one dispatch exchanges its share of the successes that wait. -/
theorem duesOn_set {l : List Dispatch} {k : Nat} {d : Dispatch} (hd : l[k]? = some d)
    (d' : Dispatch) : duesOn (l.set k d') + d.due = duesOn l + d'.due :=
  Table.total_set hd d'

/-- Replacing one dispatch exchanges its share of the reported successes. -/
theorem successesOn_set {l : List Dispatch} {k : Nat} {d : Dispatch} (hd : l[k]? = some d)
    (d' : Dispatch) :
    successesOn (l.set k d') + d.succeeded = successesOn l + d'.succeeded :=
  Table.total_set hd d'

/-- A new dispatch adds its own share. -/
theorem duesOn_append (l : List Dispatch) (d : Dispatch) :
    duesOn (l ++ [d]) = duesOn l + d.due ∧ successesOn (l ++ [d]) = successesOn l + d.succeeded := by
  simp [duesOn, successesOn]

/-- Publication hands an early success from the dispatch to the registering thread. -/
theorem RegisterMove.due {r : Register} {r' : Option Register} {t : State F}
    (h : RegisterMove cfg inp s r t r') :
    duesOn t.dispatches + t.m.mTotalCompleted + r'.elim 0 Register.due =
        duesOn s.dispatches + s.m.mTotalCompleted + r.due ∧
      successesOn t.dispatches = successesOn s.dispatches := by
  have hquiet : ∀ {t : State F} {r' : Option Register},
      t.dispatches.map Dispatch.core = s.dispatches.map Dispatch.core →
      t.m.mTotalCompleted = s.m.mTotalCompleted → r'.elim 0 Register.due = r.due →
      duesOn t.dispatches + t.m.mTotalCompleted + r'.elim 0 Register.due =
          duesOn s.dispatches + s.m.mTotalCompleted + r.due ∧
        successesOn t.dispatches = successesOn s.dispatches := by
    intro t r' hcore htotal hdue
    obtain ⟨hdues, hsuccesses⟩ := duesOn_core hcore
    rw [hdues, htotal, hdue]
    exact ⟨rfl, hsuccesses⟩
  cases h with
  | insert hstage | agingOff hstage | track hstage =>
      exact hquiet (modifyDispatch_core fun _ => rfl) rfl (by simp [Register.due, hstage])
  | agingOn hstage | noDispatch hstage => exact hquiet rfl rfl (by simp [Register.due, hstage])
  | publish d hstage hd hearly =>
      have hdues := duesOn_set hd (d.publish r.handle)
      have hsuccesses := successesOn_set hd (d.publish r.handle)
      simp only [Dispatch.due, Dispatch.publish, Dispatch.succeeded, hearly, Option.isSome_none,
        Bool.false_and, Bool.toNat_false, Option.elim_none, Register.due, hstage] at hdues hsuccesses ⊢
      omega
  | publishEarly d job hstage hd hearly =>
      have hdues := duesOn_set hd (d.publish r.handle)
      have hsuccesses := successesOn_set hd (d.publish r.handle)
      simp only [Dispatch.due, Dispatch.publish, Dispatch.succeeded, hearly, Option.isSome_none,
        Option.isSome_some, Bool.false_and, Bool.true_and, Bool.toNat_false, Option.elim_some,
        Register.due, Finalize.due, hstage] at hdues hsuccesses ⊢
      omega
  | @finalize f t f' hstage hf =>
      obtain ⟨hdues, hsuccesses⟩ := duesOn_core hf.dispatches_core
      have hdue := hf.due
      have hnext : (f'.map fun f' => { r with stage := RegisterStage.finalize f' }).elim 0
          Register.due = f'.elim 0 Finalize.due := by
        cases f' <;> rfl
      refine ⟨?_, hsuccesses⟩
      rw [hnext, hdues]
      simp only [Register.due, hstage]
      omega

/-- A step that moves no success. -/
theorem Conserves.quiet (hdispatches : s'.dispatches = s.dispatches)
    (hcalls : callsDue s'.calls = callsDue s.calls)
    (hcancels : cancelsDue s'.allCancels = cancelsDue s.allCancels)
    (hdrain : s'.drain.due = s.drain.due)
    (htotal : s'.m.mTotalCompleted = s.m.mTotalCompleted) : Conserves s s' := by
  unfold Conserves ledger
  rw [hdispatches, hcalls, hcancels, hdrain, htotal]

/-- Before it has a slot or a node, a call carries no success. -/
theorem SubmitPc.due_of_gated {pc : SubmitPc} (h : pc.gated = true) : pc.due = 0 := by
  cases pc <;> first | rfl | cases h

/-- A call that is backing out carries no success. -/
theorem SubmitPc.due_of_leaving {pc : SubmitPc} {error : SubmitError}
    (h : pc.leaving = some error) : pc.due = 0 := by
  cases pc <;> first | rfl | cases h

/-- A `submit` call carries a success only inside its registration. -/
theorem SubmitMove.conserves {i : CallId} {c : Call} (hc : s.calls[i]? = some c)
    (h : SubmitMove cfg inp s i c s') : Conserves s s' := by
  have hset : ∀ c' : Call, callsDue (s.calls.set i c') + c.pc.due = callsDue s.calls + c'.pc.due :=
    fun c' => Table.total_set (w := fun c : Call => c.pc.due) hc c'
  have hquiet : ∀ c' : Call, c'.pc.due = c.pc.due → callsDue (s.calls.set i c') = callsDue s.calls :=
    fun c' hsame => Table.total_set_eq hc hsame
  cases h with
  | @register r t r' hpc hm =>
      obtain ⟨hdue, hsuccesses⟩ := hm.due
      have hcalls : callsDue (s.calls.set i
          { c with pc := r'.elim (.returned (.ok r.handle)) .register }) + r.due =
          callsDue s.calls + r'.elim 0 Register.due := by
        have htraded := hset { c with pc := r'.elim (.returned (.ok r.handle)) .register }
        have hpc' : c.pc.due = r.due := by rw [hpc]; rfl
        rw [hpc'] at htraded
        cases r' <;> exact htraded
      have hout := hm.sameOutside
      have hcancels : (State.submitAt t i c (r'.elim (.returned (.ok r.handle)) .register)).allCancels
          = s.allCancels := by
        simp only [State.allCancels, State.submitAt, hout.cancels, hout.aging]
      unfold Conserves ledger
      rw [hcancels]
      show duesOn t.dispatches + callsDue (t.calls.set i _) + _ + t.drain.due +
        t.m.mTotalCompleted + _ = _ + successesOn t.dispatches
      rw [hout.calls, hout.drain, hsuccesses]
      omega
  | accepted nodeId job handle hpc =>
      have hcalls := hquiet { c with pc := .countDispatched (newRegister s nodeId handle job) }
        (by rw [hpc]; rfl)
      obtain ⟨hdues, hsuccesses⟩ := duesOn_append s.dispatches
        { nodeId, handle, capturedJob := job, call := i }
      unfold Conserves ledger
      show duesOn (s.dispatches ++ [_]) + callsDue (s.calls.set i _) + _ + _ + _ + _ =
        _ + successesOn (s.dispatches ++ [_])
      rw [hdues, hsuccesses, hcalls]
      rfl
  | reject ac error hpc =>
      exact .quiet rfl (hquiet _ (SubmitPc.due_of_gated hpc).symm) rfl rfl rfl
  | advance ac pc hpc hpc' =>
      have hzero : pc.due = 0 := by
        rcases hpc' with hgated | rfl
        · exact SubmitPc.due_of_gated hgated
        · rfl
      exact .quiet rfl (hquiet _ (hzero.trans (SubmitPc.due_of_gated hpc).symm)) rfl rfl rfl
  | backOut error hpc =>
      exact .quiet rfl (hquiet _ (SubmitPc.due_of_leaving hpc).symm) rfl rfl rfl
  | shut hpc | opened hpc | reserve hpc | holdId hpc | enqueued _ _ _ hpc | notEnqueued _ _ hpc
  | releaseSlot hpc | countHeld _ hpc | unselected _ hpc | selected _ hpc | assignId _ hpc
  | refused _ _ hpc | countDispatched _ hpc =>
      exact .quiet rfl (hquiet _ (by rw [hpc]; rfl)) rfl rfl rfl

/-- A node's report adds a success, and the callback takes it over or leaves it in the registration
state. -/
theorem NodeMove.conserves {k : Nat} {d : Dispatch} (hd : s.dispatches[k]? = some d)
    (hreported : d.Reported) (hconsistent : d.Consistent) (h : NodeMove inp s k d s') :
    Conserves s s' := by
  have hset : ∀ d' : Dispatch, d.due + d'.succeeded = d'.due + d.succeeded →
      Conserves s { s with dispatches := s.dispatches.set k d' } := by
    intro d' hsame
    have hdues := duesOn_set hd d'
    have hsuccesses := successesOn_set hd d'
    unfold Conserves ledger
    show duesOn (s.dispatches.set k d') + _ + _ + _ + _ + _ =
      _ + successesOn (s.dispatches.set k d')
    simp only [State.allCancels] at hdues hsuccesses ⊢
    omega
  cases h with
  | finish hside =>
      apply hset
      simp [Dispatch.due, Dispatch.succeeded, hside, hreported.live hside]
      omega
  | early completed succeeded hside hpublished =>
      apply hset
      have hnone : d.regState.earlyCompletedJob = none :=
        hconsistent.unreported (by rw [hside]; intro h; cases h)
      simp [Dispatch.due, Dispatch.succeeded, hside, hnone]
  | enter completed succeeded hside hpublished =>
      apply hset
      simp [Dispatch.due, Dispatch.succeeded, Finalize.due, hside]
  | @finalize f t f' hside hf =>
      obtain ⟨d₁, hd₁, hcore⟩ := getElem?_core hf.dispatches_core hd
      obtain ⟨hdues, hsuccesses⟩ := duesOn_core hf.dispatches_core
      have hsame := Dispatch.sameCore hcore
      have hout := hf.sameOutside
      have hdue := hf.due
      have hdues' := duesOn_set hd₁ { d₁ with side := f'.elim .called .calling }
      have hsuccesses' := successesOn_set hd₁ { d₁ with side := f'.elim .called .calling }
      have hdispatch : Dispatch.due { d₁ with side := f'.elim .called .calling } + f.due =
          d₁.due + f'.elim 0 Finalize.due := by
        simp only [Dispatch.due, hsame.side, hside]
        cases f' with
        | none => simp only [Option.elim_none]; omega
        | some f' => simp only [Option.elim_some]; omega
      have hcancels : (modifyDispatch t (some k) fun d =>
          { d with side := f'.elim .called .calling }).allCancels = s.allCancels := by
        simp only [modifyDispatch, State.allCancels, hout.cancels, hout.aging]
      unfold Conserves ledger
      rw [hcancels]
      simp only [modifyDispatch, Table.modify_eq_set hd₁, hout.calls, hout.drain]
      simp only [Dispatch.succeeded] at hsuccesses'
      omega

/-- A cancelled job has not succeeded, so a `cancel` call finalises it without a success. -/
theorem CancelMove.conserves {c c' : CancelCall} {t : State F} {cancels : List CancelCall}
    {aging : AgingPc} (h : CancelMove cfg inp s c t c')
    (hrep : CancelReplaced s c c' cancels aging) :
    Conserves s { t with cancels := cancels, aging := aging } := by
  have htraded : cancelsDue (aging.cancel?.toList ++ cancels) + c.pc.due =
      cancelsDue s.allCancels + c'.pc.due := hrep.total fun c => c.pc.due
  have hquiet : c'.pc.due = c.pc.due → t.dispatches = s.dispatches → t.calls = s.calls →
      t.drain = s.drain → t.m.mTotalCompleted = s.m.mTotalCompleted →
      Conserves s { t with cancels := cancels, aging := aging } := by
    intro hdue hdispatches hcalls hdrain htotal
    refine .quiet hdispatches (congrArg callsDue hcalls) ?_ (congrArg DrainPc.due hdrain) htotal
    show cancelsDue (aging.cancel?.toList ++ cancels) = _
    omega
  cases h with
  | hit info k d hpc hd hnode hhandle hlive =>
      have hdues := duesOn_set hd { d with side := .cancelled }
      have hsuccesses := successesOn_set hd { d with side := .cancelled }
      rw [hpc] at htraded
      unfold Conserves ledger
      simp only [modifyDispatch, Table.modify_eq_set hd, State.allCancels] at htraded ⊢
      simp only [Dispatch.due, hlive, Dispatch.succeeded, CancelPc.due, Finalize.due,
        Bool.toNat_false] at hdues hsuccesses htraded
      omega
  | @finalize f t f' hpc hf =>
      obtain ⟨hdues, hsuccesses⟩ := duesOn_core hf.dispatches_core
      have hout := hf.sameOutside
      have hdue := hf.due
      have hnext : CancelPc.due (f'.elim (.returned (.ok ())) .finalize) =
          f'.elim 0 Finalize.due := by
        cases f' <;> rfl
      rw [hpc, hnext] at htraded
      unfold Conserves ledger
      show duesOn t.dispatches + callsDue t.calls + cancelsDue (aging.cancel?.toList ++ cancels) +
        t.drain.due + t.m.mTotalCompleted + _ = _ + successesOn t.dispatches
      rw [hdues, hsuccesses, hout.calls, hout.drain]
      simp only [CancelPc.due] at htraded
      omega
  | notHeld hpc | removed _ _ hpc | notRouted hpc | noNode _ hpc | ask _ hpc | releaseSlot _ hpc
  | refused _ _ hpc => exact hquiet (by rw [hpc]; rfl) rfl rfl rfl rfl

/-- A dropped job has not succeeded either; a job dispatched from the queue starts with nothing
reported. -/
theorem DrainMove.conserves (h : DrainMove cfg inp s s') : Conserves s s' := by
  cases h with
  | @dropping f t f' hpc hf =>
      obtain ⟨hdues, hsuccesses⟩ := duesOn_core hf.dispatches_core
      have hout := hf.sameOutside
      have hdue := hf.due
      have hnext : DrainPc.due (f'.elim .looping .dropping) = f'.elim 0 Finalize.due := by
        cases f' <;> rfl
      unfold Conserves ledger
      show duesOn t.dispatches + callsDue t.calls + cancelsDue (t.aging.cancel?.toList ++ t.cancels)
        + DrainPc.due (f'.elim .looping .dropping) + t.m.mTotalCompleted + _ =
        _ + successesOn t.dispatches
      rw [hdues, hsuccesses, hout.calls, hout.cancels, hout.aging, hnext, hpc]
      simp only [State.allCancels, DrainPc.due]
      omega
  | @register r t r' hpc hm =>
      obtain ⟨hdue, hsuccesses⟩ := hm.due
      have hout := hm.sameOutside
      have hnext : DrainPc.due (r'.elim .looping .register) = r'.elim 0 Register.due := by
        cases r' <;> rfl
      unfold Conserves ledger
      show duesOn t.dispatches + callsDue t.calls + cancelsDue (t.aging.cancel?.toList ++ t.cancels)
        + DrainPc.due (r'.elim .looping .register) + t.m.mTotalCompleted + _ =
        _ + successesOn t.dispatches
      rw [hsuccesses, hout.calls, hout.cancels, hout.aging, hnext, hpc]
      simp only [State.allCancels, DrainPc.due]
      omega
  | accepted nodeId entry handle hpc =>
      obtain ⟨hdues, hsuccesses⟩ := duesOn_append s.dispatches
        { nodeId, handle, capturedJob := entry.job, call := entry.onDone.call }
      unfold Conserves ledger
      show duesOn (s.dispatches ++ [_]) + _ + _ + _ + _ + _ = _ + successesOn (s.dispatches ++ [_])
      rw [hdues, hsuccesses, hpc]
      rfl
  | wake hpc | drained hpc | take _ _ hpc | drop _ hpc | saturated _ hpc | offer _ hpc
  | dropRelease _ hpc | unselected _ hpc | selected _ _ hpc | refused _ _ hpc
  | requeued _ _ _ hpc | lost _ _ hpc | releaseSlot _ hpc =>
      exact .quiet rfl rfl rfl (by rw [hpc]; rfl) rfl

/-- One case for each kind of move. -/
theorem Move.conserves (h : Move cfg ev s s') (ha : AccountingInv s)
    (hreported : ∀ {k : Nat} {d : Dispatch}, s.dispatches[k]? = some d → d.Reported) :
    Conserves s s' := by
  cases h with
  | submitCall job => exact .quiet rfl (by simp [callsDue, SubmitPc.due]) rfl rfl rfl
  | submit i c hc hm => exact hm.conserves hc
  | node k d hd hm => exact hm.conserves hd (hreported hd) (ha.consistent d (List.mem_of_getElem? hd))
  | cancelCall handle =>
      refine .quiet rfl rfl ?_ rfl rfl
      simp [cancelsDue, State.allCancels, CancelPc.due]
  | cancel c c' t cancels aging hm hrep => exact hm.conserves hrep
  | drain hm => exact hm.conserves
  | aging hm =>
      have hcancels := hm.total_allCancels (w := fun c => c.pc.due)
        (fun c hpc => by rw [hpc]; rfl) fun c result hpc => by rw [hpc]; rfl
      cases hm <;> exact .quiet rfl rfl hcancels rfl rfl
  | switch k pc hactor hpc hm => cases hm <;> exact .quiet rfl rfl rfl rfl rfl
  | toggle enabled stop toggles aging haging =>
      refine .quiet rfl rfl ?_ rfl rfl
      rcases haging with rfl | ⟨hnow, rfl⟩ | ⟨hnow, rfl⟩
      · rfl
      · simp [State.allCancels, hnow, AgingPc.cancel?]
      · simp [State.allCancels, hnow, AgingPc.cancel?]
  | _ => exact .quiet rfl rfl rfl rfl rfl

/-- Each reported success is counted, or is on its way to the counter. -/
theorem successes_reach {ok : State F → Event → Prop} (hs : (balancer cfg).Reach ok s) :
    successesOn s.dispatches = ledger s := by
  apply hs.invariant (I := fun s => successesOn s.dispatches = ledger s) rfl
  intro s s' ev hr h _ hstep
  have htraded := (step_move hstep).conserves (accountingInv_reach hr) (dispatch_reported hr)
  unfold Conserves at htraded
  omega

/-! ## At rest

With nobody at work, the places of `AccountingInv` are down to the held jobs and the finalised ones,
and the ledger to the counted successes. -/

/-- `mTotalSubmitted` is the number of calls whose job is counted. -/
theorem submitted_reach {ok : State F → Event → Prop} (hs : (balancer cfg).Reach ok s) :
    s.m.mTotalSubmitted = countedCalls s.calls := by
  apply hs.invariant (I := fun s => s.m.mTotalSubmitted = countedCalls s.calls) rfl
  intro s s' ev _ h _ hstep
  have htraded := (step_move hstep).counted
  omega

/-- Every `submit` and every `cancel` has returned, the drain thread has nothing in hand, and the
nodes are done with their jobs and have come back from the callbacks. -/
structure Idle (s : State F) : Prop where
  calls : ∀ c ∈ s.calls, ∃ result, c.pc = .returned result
  cancels : ∀ c ∈ s.allCancels, ∃ result, c.pc = .returned result
  drain : s.drain = .waiting ∨ s.drain = .looping
  dispatches : ∀ d ∈ s.dispatches, d.side = .called ∨ d.side = .cancelled

/-- And nothing is held. -/
structure Rest (s : State F) : Prop extends Idle s where
  queue : s.m.mHoldingQueue.entries = []

/-- The call has returned. -/
def SubmitPc.isReturned : SubmitPc → Bool
  | .returned _ => true
  | _ => false

/-- The call has returned. -/
def CancelPc.isReturned : CancelPc → Bool
  | .returned _ => true
  | _ => false

/-- The drain thread has no entry and no job in hand. -/
def DrainPc.isIdle : DrainPc → Bool
  | .waiting | .looping => true
  | _ => false

/-- A call that has returned has a result. -/
theorem SubmitPc.returned_of_isReturned {pc : SubmitPc} (h : pc.isReturned = true) :
    ∃ result, pc = .returned result := by
  cases pc <;> first | exact ⟨_, rfl⟩ | cases h

/-- A call that has returned has a result. -/
theorem CancelPc.returned_of_isReturned {pc : CancelPc} (h : pc.isReturned = true) :
    ∃ result, pc = .returned result := by
  cases pc <;> first | exact ⟨_, rfl⟩ | cases h

/-- No thread is registering a job. -/
theorem Idle.register_none (h : Idle s) (who : Option CallId) : s.registerOf who = none := by
  cases who with
  | none =>
      rw [State.registerOf]
      rcases h.drain with hpc | hpc <;> rw [hpc] <;> rfl
  | some i =>
      rw [State.registerOf]
      cases hc : s.calls[i]? with
      | none => rfl
      | some c =>
          obtain ⟨result, hpc⟩ := h.calls c (List.mem_of_getElem? hc)
          rw [Option.bind_some, hpc]
          rfl

/-- Nothing waits for its execution but what is held. -/
theorem Idle.waiting (h : Idle s) (i : CallId) :
    waiting s i = heldJobs s.m.mHoldingQueue.entries i := by
  have hcarries : s.drain.carries = none := by
    rcases h.drain with hpc | hpc <;> rw [hpc] <;> rfl
  have hnodes : onNodes s.dispatches i = 0 := by
    apply total_owns_eq_zero
    intro d hd
    rcases h.dispatches d hd with hside | hside <;> simp [Dispatch.onNode, hside]
  rw [FatpBalancer.waiting, hcarries, hnodes]
  rfl

/-- An early-completed job waits for a registration, and none is under way. -/
theorem Idle.early_none (h : Idle s) (ha : AccountingInv s) (hp : PublishedInv s) {d : Dispatch}
    (hd : d ∈ s.dispatches) : d.regState.earlyCompletedJob = none := by
  by_contra hsome
  obtain ⟨k, hk⟩ := List.getElem?_of_mem hd
  obtain ⟨who, r, hr, -⟩ := hp hk (ha.consistent d hd hsome).2
  rw [h.register_none who] at hr
  cases hr

/-- Nothing is being finalised, or about to be. -/
theorem Idle.handling (h : Idle s) (ha : AccountingInv s) (hp : PublishedInv s) (i : CallId) :
    handling s i = 0 := by
  have hcalls : callsHandle s.calls i = 0 := by
    apply total_owns_eq_zero
    intro c hc
    obtain ⟨result, hpc⟩ := h.calls c hc
    rw [hpc]
    intro hsome
    cases hsome
  have hcancels : cancelsHandle s.allCancels i = 0 := by
    apply total_owns_eq_zero
    intro c hc
    obtain ⟨result, hpc⟩ := h.cancels c hc
    rw [hpc]
    intro hsome
    cases hsome
  have hdrain : s.drain.handles = none := by
    rcases h.drain with hpc | hpc <;> rw [hpc] <;> rfl
  have hnodes : nodesHandle s.dispatches i = 0 := by
    rw [nodesHandle, Table.total_add]
    have hhandles : Table.total (fun d : Dispatch => owns i d.handles) s.dispatches = 0 := by
      apply total_owns_eq_zero
      intro d hd
      rcases h.dispatches d hd with hside | hside <;> simp [Dispatch.handles, hside]
    have hearly : Table.total (fun d : Dispatch => owns i d.early) s.dispatches = 0 := by
      apply total_owns_eq_zero
      intro d hd
      simp [Dispatch.early, h.early_none ha hp hd]
    rw [hhandles, hearly]
  rw [FatpBalancer.handling, hcalls, hcancels, hdrain, hnodes]
  rfl

/-- With nobody at work, a job has been finalised once or is held. -/
theorem Idle.finalized_or_held (h : Idle s) {ok : State F → Event → Prop}
    (hs : (balancer cfg).Reach ok s) {i : CallId} (hi : accepted s i = true) :
    finalizedCount s i = 1 ∨
      finalizedCount s i = 0 ∧ ∃ e ∈ s.m.mHoldingQueue.entries, e.onDone.call = i := by
  have ha := accountingInv_reach hs
  have hplaced := ha.placed i
  have hsettled := ha.settled i
  rw [h.waiting i, show acceptedAt s.calls i = (accepted s i).toNat from rfl, hi] at hplaced
  rw [h.handling ha (publishedInv_reach hs) i] at hsettled
  by_cases hheld : heldJobs s.m.mHoldingQueue.entries i = 0
  · left
    rw [hheld, Bool.toNat_true] at hplaced
    omega
  · right
    obtain ⟨e, he, hpos⟩ := Table.exists_of_total_pos (Nat.pos_of_ne_zero hheld)
    have hcall := owns_pos hpos
    rw [Bool.toNat_true] at hplaced
    exact ⟨by omega, e, he, Option.some.inj hcall⟩

/-- What the members and the histories say at rest. -/
structure Settled (s : State F) : Prop where
  /-- each accepted job was dropped, removed from the queue, or has left one node, and only once -/
  ended : ∀ i, accepted s i = true →
    s.dropped.count i + s.removed.count i + leftNodes s.dispatches i = 1
  finalized : ∀ i, accepted s i = true → finalizedCount s i = 1
  submittedCount : s.m.mSubmittedCount = 0
  depth : s.m.mAdmission.mHoldingQueueDepth = 0
  totalSubmitted : s.m.mTotalSubmitted = s.calls.countP fun c => c.pc.accepted
  totalCompleted : s.m.mTotalCompleted = successesOn s.dispatches

/-- The counter follows from the places, the totals from the ledger, and the histories from the fact
that an accepted job which is nowhere has been finalised. -/
theorem Rest.settled (h : Rest s) {ok : State F → Event → Prop} (hs : (balancer cfg).Reach ok s) :
    Settled s := by
  have ha := accountingInv_reach hs
  have hholding := holdingInv_reach hs
  have hended : ∀ i, ended s i = (accepted s i).toNat := by
    intro i
    have hplaced := ha.placed i
    have hheld : heldJobs s.m.mHoldingQueue.entries i = 0 := by
      rw [h.queue]
      rfl
    rw [h.waiting i, hheld, show acceptedAt s.calls i = (accepted s i).toNat from rfl] at hplaced
    omega
  have hfinalized : ∀ i, finalizedCount s i = (accepted s i).toNat := by
    intro i
    have hsettled := ha.settled i
    rw [h.handling ha (publishedInv_reach hs) i] at hsettled
    rw [← hended i]
    omega
  refine ⟨?_, ?_, ?_, ?_, ?_, ?_⟩
  · intro i hi
    have hone := hended i
    rwa [hi] at hone
  · intro i hi
    rw [hfinalized i, hi]
    rfl
  · have hpending : pendingSubmits s = 0 := by
      rw [pendingSubmits, List.countP_eq_zero]
      intro c hc
      obtain ⟨result, hpc⟩ := h.calls c hc
      rw [hpc]
      cases result <;> simp [SubmitPc.pending, SubmitPc.accepted, SubmitPc.rejected]
    have hunfinalized : unfinalizedJobs s = 0 := by
      rw [unfinalizedJobs, List.countP_eq_zero]
      intro i _
      rw [hfinalized i]
      cases accepted s i <;> simp
    rw [ha.submittedCount_eq, inFlight, hpending, hunfinalized]
    rfl
  · have hreserved : reservations s.calls = 0 := by
      apply Table.total_eq_zero
      intro c hc
      obtain ⟨result, hpc⟩ := h.calls c hc
      rw [hpc]
      rfl
    have hremovals : removals s.allCancels = 0 := by
      apply Table.total_eq_zero
      intro c hc
      obtain ⟨result, hpc⟩ := h.cancels c hc
      rw [hpc]
      rfl
    have hdrain : s.drain.holdsEntry = false := by
      rcases h.drain with hpc | hpc <;> rw [hpc] <;> rfl
    rw [hholding.depth, takenSlots, hholding.sized, h.queue, hdrain, hreserved, hremovals]
    rfl
  · rw [submitted_reach hs, countedCalls, Table.total_toNat]
    apply List.countP_congr
    intro c hc
    obtain ⟨result, hpc⟩ := h.calls c hc
    rw [hpc]
    cases result <;> rfl
  · have hdues : duesOn s.dispatches = 0 := by
      apply Table.total_eq_zero
      intro d hd
      have hnone := h.early_none ha (publishedInv_reach hs) hd
      rcases h.dispatches d hd with hside | hside <;> simp [Dispatch.due, hside, hnone]
    have hcalls : callsDue s.calls = 0 := by
      apply Table.total_eq_zero
      intro c hc
      obtain ⟨result, hpc⟩ := h.calls c hc
      rw [hpc]
      rfl
    have hcancels : cancelsDue s.allCancels = 0 := by
      apply Table.total_eq_zero
      intro c hc
      obtain ⟨result, hpc⟩ := h.cancels c hc
      rw [hpc]
      rfl
    have hdrain : s.drain.due = 0 := by
      rcases h.drain with hpc | hpc <;> rw [hpc] <;> rfl
    rw [successes_reach hs, ledger, hdues, hcalls, hcancels, hdrain]
    omega

end FatpBalancer
