/-
# The registrations and finalisations under way

`registerDispatchedJob` and `finalizeJobLifecycle` are each run by several kinds of thread.  This
module says which runs of them are under way, whoever runs them, and how one step of the balancer
takes them on: an invariant of a registration or of a finalisation is proved over these few cases.

`State.registerOf` looks a registration up by its thread, and `RegisteringAfter` lists how one can
be under way after a step: it was there before, it has made a step, or a node has just accepted its
job.  `Finalizing` and `Finalizing.After` do the same for finalisations, which besides can be opened
by a callback, by a `cancel` that has taken a job out, by a drop and by the publication of an
early-completed job: `Opens` names these four and what is known when they happen.

`StepKind` at the end is the coarsest view: a step is quiet, one of a finalisation, one of a
registration, or one that accepts a new dispatch.  The invariants about ghosts, routing entries and
learned costs are proved over it.
-/
import FatpBalancer.Balancer.History

universe u

namespace FatpBalancer

variable {F : Type u} [FloatOps F] {cfg : BalancerConfig F} {inp : Input} {ev : Event}
  {s s' : State F}

/-! ## Registrations

A registration belongs to the `submit` call or to the drain thread that has had a job accepted by a
node; no other thread runs one. -/

/-- The registration a `submit` call is in, or is about to enter. -/
def SubmitPc.register? : SubmitPc → Option Register
  | .countDispatched r | .register r => some r
  | _ => none

/-- The registration the drain thread is in, or is about to enter. -/
def DrainPc.register? : DrainPc → Option Register
  | .releaseSlot r | .register r => some r
  | _ => none

/-- The registration a thread is running: the `submit` call at position `i`, or the drain thread. -/
def State.registerOf (s : State F) : Option CallId → Option Register
  | some i => (s.calls[i]?).bind fun c => c.pc.register?
  | none => s.drain.register?

/-- The thread is offering this dispatch to its node. -/
def State.Offers (s : State F) (who : Option CallId) (d : Dispatch) : Prop :=
  match who with
  | some i =>
      (∃ c, s.calls[i]? = some c ∧ c.pc = .nodeSubmit d.nodeId d.capturedJob) ∧ d.call = i
  | none =>
      ∃ entry, s.drain = .nodeSubmit d.nodeId entry ∧ d.capturedJob = entry.job ∧
        d.call = entry.onDone.call

/-- A node has just accepted the dispatch `d`, which this thread is about to register. -/
structure Accepts (s : State F) (who : Option CallId) (d : Dispatch) (r : Register)
    (s' : State F) : Prop where
  fresh : d.Fresh
  free : handleFree s d.nodeId d.handle = true
  offers : s.Offers who d
  register : r = newRegister s d.nodeId d.handle d.capturedJob
  dispatches : s'.dispatches = s.dispatches ++ [d]

/-- The registration `r'` under way after a step was under way before, has made a step, or is of a
job that a node has just accepted. -/
def RegisteringAfter (cfg : BalancerConfig F) (inp : Input) (s s' : State F) (who : Option CallId)
    (r' : Register) : Prop :=
  s.registerOf who = some r' ∨
    (∃ r t calls drain, s.registerOf who = some r ∧ RegisterMove cfg inp s r t (some r') ∧
      s' = { t with calls := calls, drain := drain }) ∨
    ∃ d, Accepts s who d r' s'

/-- The registration of a call after a step of it. -/
theorem SubmitMove.registering {i : CallId} {c c' : Call} {r' : Register}
    (hm : SubmitMove cfg inp s i c s') (hc : s.calls[i]? = some c) (hc' : s'.calls[i]? = some c')
    (hr : c'.pc.register? = some r') : RegisteringAfter cfg inp s s' (some i) r' := by
  have hrun : ∀ r, c.pc.register? = some r → s.registerOf (some i) = some r := fun r hpc =>
    Option.bind_eq_some_iff.mpr ⟨c, hc, hpc⟩
  cases hm with
  | accepted nodeId job handle hpc hin hfree =>
      obtain rfl := call_of_set hc hc' rfl
      obtain rfl := Option.some.inj hr
      exact .inr (.inr ⟨_, ⟨rfl, rfl, rfl, rfl, rfl, rfl⟩, hfree, ⟨⟨c, hc, hpc⟩, rfl⟩, rfl, rfl⟩)
  | countDispatched r hpc =>
      obtain rfl := call_of_set hc hc' rfl
      exact .inl (hrun r' (by rw [hpc]; exact hr))
  | @register r t r₁ hpc hm =>
      obtain rfl := call_of_set hc hc' (by rw [State.submitAt, hm.sameOutside.calls])
      cases r₁ with
      | none => cases hr
      | some r₁ =>
          obtain rfl := Option.some.inj hr
          exact .inr (.inl ⟨r, t, _, t.drain, hrun r (by rw [hpc]; rfl), hm, rfl⟩)
  | advance ac pc hpc hpc' =>
      -- at the gate no registration is under way
      obtain rfl := call_of_set hc hc' rfl
      rcases hpc' with hpc' | rfl
      · cases pc <;> simp_all [SubmitPc.register?, SubmitPc.gated]
      · cases hr
  | _ =>
      obtain rfl := call_of_set hc hc' rfl
      cases hr

/-- The drain thread's registration after a step of it. -/
theorem DrainMove.registering {r' : Register} (hm : DrainMove cfg inp s s')
    (hr : s'.registerOf none = some r') : RegisteringAfter cfg inp s s' none r' := by
  cases hm with
  | accepted nodeId entry handle hpc hin hfree =>
      obtain rfl := Option.some.inj hr
      exact .inr (.inr ⟨_, ⟨rfl, rfl, rfl, rfl, rfl, rfl⟩, hfree, ⟨entry, hpc, rfl, rfl⟩, rfl, rfl⟩)
  | releaseSlot r hpc =>
      obtain rfl := Option.some.inj hr
      exact .inl (by rw [State.registerOf, hpc]; rfl)
  | @register r t r₁ hpc hm =>
      cases r₁ with
      | none => cases hr
      | some r₁ =>
          obtain rfl := Option.some.inj hr
          exact .inr (.inl ⟨r, t, t.calls, _, by rw [State.registerOf, hpc]; rfl, hm, rfl⟩)
  | @dropping f t f' hpc hf => cases f' <;> cases hr
  | _ => cases hr

/-- Every registration after a step is accounted for by one of the three cases. -/
theorem Move.registering (h : Move cfg ev s s') {who : Option CallId} {r' : Register}
    (hr : s'.registerOf who = some r') : RegisteringAfter cfg ev.input s s' who r' := by
  cases who with
  | none =>
      rcases h.drain_cases with heq | hm
      · rw [State.registerOf, heq] at hr
        exact .inl hr
      · exact hm.registering hr
  | some i =>
      obtain ⟨c', hc', hpc'⟩ := Option.bind_eq_some_iff.mp hr
      rcases h.call_back hc' with hentered | ⟨c, hc, rfl | ⟨-, hm⟩⟩
      · rw [hentered] at hpc'
        cases hpc'
      · exact .inl (Option.bind_eq_some_iff.mpr ⟨c', hc, hpc'⟩)
      · exact hm.registering hc hc' hpc'

/-! ## Finalisations

Threads of five kinds run `finalizeJobLifecycle`, and a step of one of them leaves the finalisations
of the others where they are. -/

/-- A `finalizeJobLifecycle` is under way. -/
inductive Finalizing (s : State F) (f : Finalize) : Prop
  | register (who : Option CallId) (r : Register) (hr : s.registerOf who = some r)
      (hstage : r.stage = .finalize f)
  | node (k : Nat) (d : Dispatch) (hd : s.dispatches[k]? = some d) (hside : d.side = .calling f)
  | cancel (c : CancelCall) (hc : c ∈ s.allCancels) (hpc : c.pc = .finalize f)
  | dropping (hpc : s.drain = .dropping f)

/-- A thread has just entered `finalizeJobLifecycle`, and with what. -/
inductive Opens (ev : Event) (s s' : State F) : Finalize → Prop
  /-- the callback of a published dispatch -/
  | enter (k : Nat) (d : Dispatch) (completed : Job) (succeeded : Bool) (f : Finalize)
      (hd : s.dispatches[k]? = some d) (hside : d.side = .finished completed succeeded)
      (hpublished : d.regState.published = true)
      (hf : f =
        { finishedJob := mergeCompleted d.capturedJob completed
          routedHandle := d.regState.handle
          succeeded
          call := d.call
          dispatch := some k })
      (hd' : s'.dispatches[k]? = some { d with side := .calling f }) : Opens ev s s' f
  /-- the registering thread, for a job that has completed early -/
  | early (who : Option CallId) (r : Register) (d : Dispatch) (job : Job)
      (hr : s.registerOf who = some r) (hstage : r.stage = .publish)
      (hd : s.dispatches[r.dispatch]? = some d)
      (hearly : d.regState.earlyCompletedJob = some job)
      (hd' : s'.dispatches[r.dispatch]? = some (d.publish r.handle)) :
      Opens ev s s'
        { finishedJob := job
          routedHandle := some r.handle
          succeeded := d.regState.earlySucceeded
          call := d.call
          dispatch := some r.dispatch }
  /-- a `cancel` call whose node has let go of the job -/
  | hit (c : CancelCall) (info : JobRoutingInfo) (k : Nat) (d : Dispatch)
      (hcall : s.cancelOf ev = some c) (hpc : c.pc = .askNode info)
      (hreply : ev.input.cancelReply = .ok k) (hd : s.dispatches[k]? = some d)
      (hhandle : d.handle = c.handle) (hlive : d.side = .live)
      (hd' : s'.dispatches[k]? = some { d with side := .cancelled }) :
      Opens ev s s'
        { finishedJob := { id := info.jobId }
          routedHandle := some c.handle
          succeeded := false
          call := d.call
          dispatch := some k }
  | dropped (entry : HeldEntry) (hpc : s.drain = .dropRelease entry) :
      Opens ev s s' (onDoneFailed entry)
  | removed (c : CancelCall) (entry : HeldEntry) (hc : c ∈ s.allCancels)
      (hpc : c.pc = .releaseSlot entry) : Opens ev s s' (onDoneFailed entry)

/-! ### The threads that run them

One lemma for each kind of thread, assembled in `Move.finalizing`. -/

/-- Inside a registration: the early finalisation opens at publication and is then taken on. -/
theorem RegisterMove.finalizing {r r' : Register} {o : Option Register} {f' : Finalize}
    (h : RegisterMove cfg inp s r s' o) (ho : o = some r') (hstage' : r'.stage = .finalize f') :
    (∃ f, r.stage = .finalize f ∧ FinalizeMove s f s' (some f')) ∨
      r.stage = .publish ∧ ∃ d job, s.dispatches[r.dispatch]? = some d ∧
        d.regState.earlyCompletedJob = some job ∧
        s'.dispatches[r.dispatch]? = some (d.publish r.handle) ∧
        f' = { finishedJob := job
               routedHandle := some r.handle
               succeeded := d.regState.earlySucceeded
               call := d.call
               dispatch := some r.dispatch } := by
  cases h with
  | noDispatch | publish => cases ho
  | insert | agingOn | agingOff | track =>
      obtain rfl := Option.some.inj ho
      cases hstage'
  | publishEarly d job hstage hd hearly =>
      obtain rfl := Option.some.inj ho
      cases hstage'
      have hk : r.dispatch < s.dispatches.length := (List.getElem?_eq_some_iff.mp hd).1
      exact .inr ⟨hstage, d, job, hd, hearly, List.getElem?_set_self hk, rfl⟩
  | finalize f hstage hf =>
      obtain ⟨f₁, hf₁, rfl⟩ := Option.map_eq_some_iff.mp ho
      obtain rfl : f₁ = f' := RegisterStage.finalize.inj hstage'
      exact .inl ⟨f, hstage, hf₁ ▸ hf⟩

theorem sides_of_core {l l' : List Dispatch} (h : l'.map Dispatch.core = l.map Dispatch.core) :
    l'.map Dispatch.side = l.map Dispatch.side := by
  have hside : ∀ l : List Dispatch, l.map Dispatch.side = (l.map Dispatch.core).map Dispatch.side :=
    fun l => by rw [List.map_map]; rfl
  rw [hside l', h, ← hside l]

theorem RegisterMove.sides {r : Register} {r' : Option Register}
    (h : RegisterMove cfg inp s r s' r') :
    s'.dispatches.map Dispatch.side = s.dispatches.map Dispatch.side := by
  cases h with
  | insert | agingOff | track => exact sides_of_core (modifyDispatch_core fun _ => rfl)
  | agingOn | noDispatch => rfl
  | publish d hstage hd | publishEarly d job hstage hd =>
      rw [List.map_set]
      exact Table.set_same (by rw [List.getElem?_map, hd]; rfl)
  | finalize f hstage hf => exact sides_of_core hf.dispatches_core

theorem calling_of_sides {l l' : List Dispatch} (h : l'.map Dispatch.side = l.map Dispatch.side)
    {k : Nat} {d' : Dispatch} {f : Finalize} (hd' : l'[k]? = some d')
    (hside : d'.side = .calling f) : ∃ d, l[k]? = some d ∧ d.side = .calling f := by
  have hk := congrArg (·[k]?) h
  simp only [List.getElem?_map, hd', Option.map_some, hside] at hk
  obtain ⟨d, hd, hd'⟩ := Option.map_eq_some_iff.mp hk.symm
  exact ⟨d, hd, hd'⟩

/-- A `cancel` call was there before, has just begun, or has just made a step. -/
theorem Move.allCancels_cases (h : Move cfg ev s s') {c' : CancelCall}
    (hc' : c' ∈ s'.allCancels) :
    c' ∈ s.allCancels ∨ (c'.pc = .start ∧ c'.hit = none ∧ c'.target = targetOf s c'.handle) ∨
      ∃ c t cancels aging, c ∈ s.allCancels ∧ s.cancelOf ev = some c ∧
        CancelMove cfg ev.input s c t c' ∧
        s' = { t with cancels := cancels, aging := aging } := by
  have hkeep : s'.cancels = s.cancels → s'.aging = s.aging → c' ∈ s.allCancels := by
    intro hcancels haging
    rwa [State.allCancels, hcancels, haging] at hc'
  have hnocall : s'.cancels = s.cancels → s'.aging.cancel? = none → c' ∈ s.allCancels := by
    intro hcancels hnone
    rw [State.allCancels, hcancels, hnone] at hc'
    exact List.mem_append_right _ hc'
  cases h with
  | cancelCall handle =>
      rw [State.allCancels, ← List.append_assoc] at hc'
      rcases List.mem_append.mp hc' with hold | hnew
      · exact .inl hold
      · obtain rfl := List.mem_singleton.mp hnew
        exact .inr (.inl ⟨rfl, rfl, rfl⟩)
  | cancel c c₁ t cancels aging hm hrep hcall =>
      rcases hrep.mem c' hc' with hold | rfl
      · exact .inl hold
      · exact .inr (.inr ⟨c, t, cancels, aging, hrep.old, hcall, hm, rfl⟩)
  | aging hm =>
      cases hm with
      | expire e expired handle hpc hid =>
          rcases List.mem_append.mp hc' with hnew | hold
          · obtain rfl : c' = { handle, target := targetOf s handle } := by
              simpa [AgingPc.cancel?] using hnew
            exact .inr (.inl ⟨rfl, rfl, rfl⟩)
          · exact .inl (List.mem_append_right _ hold)
      | _ => exact .inl (hnocall rfl rfl)
  | toggle enabled stop toggles aging haging =>
      rcases haging with rfl | ⟨-, rfl⟩ | ⟨-, rfl⟩
      · exact .inl (hkeep rfl rfl)
      · exact .inl (hnocall rfl rfl)
      · exact .inl (hnocall rfl rfl)
  | submit i c hc hm =>
      cases hm with
      | register r hpc hr => exact .inl (hkeep hr.sameOutside.cancels hr.sameOutside.aging)
      | _ => exact .inl (hkeep rfl rfl)
  | node k d hd hm => exact .inl (hkeep hm.threads.2.1 hm.threads.2.2.2.2)
  | drain hm => exact .inl (hkeep hm.threads.2.1 hm.threads.2.2.2)
  | switch k pc hactor hpc hm => cases hm <;> exact .inl (hkeep rfl rfl)
  | _ => exact .inl (hkeep rfl rfl)

/-- What registration and finalisation write into a dispatch. -/
structure Marks where
  published : Bool
  handle : Option JobHandle
  routed : Bool
  settled : Bool
  untracked : Bool

/-- The part of a dispatch that registration and finalisation write. -/
def Dispatch.marks (d : Dispatch) : Marks where
  published := d.regState.published
  handle := d.regState.handle
  routed := d.routed
  settled := d.settled
  untracked := d.untracked

theorem map_marks_modify {l : List Dispatch} {k : Nat} {g : Dispatch → Dispatch}
    (hg : ∀ d : Dispatch, (g d).marks = d.marks) :
    (l.modify k g).map Dispatch.marks = l.map Dispatch.marks := by
  apply List.ext_getElem?
  intro n
  simp only [List.getElem?_map, List.getElem?_modify]
  split
  · cases l[n]? <;> simp [hg]
  · simp

/-- How the finalisation `f'` comes to be under way in the state after a step: it was so before, it
has just made a step, or it has just begun. -/
inductive Finalizing.After (ev : Event) (s : State F) (f' : Finalize) : State F → Prop
  | kept {s' : State F} (h : Finalizing s f') : After ev s f' s'
  | stepped (f : Finalize) (t : State F) (calls : List Call) (dispatches : List Dispatch)
      (cancels : List CancelCall) (aging : AgingPc) (drain : DrainPc) (hf : Finalizing s f)
      (hm : FinalizeMove s f t (some f'))
      (hmarks : dispatches.map Dispatch.marks = t.dispatches.map Dispatch.marks) :
      After ev s f'
        { t with
          calls := calls
          dispatches := dispatches
          cancels := cancels
          aging := aging
          drain := drain }
  | opened {s' : State F} (h : Opens ev s s' f') : After ev s f' s'

/-- Finalisations inside the registrations of `submit` calls and of the drain thread. -/
theorem Move.finalizing_register (h : Move cfg ev s s') {who : Option CallId} {r' : Register}
    {f' : Finalize} (hr : s'.registerOf who = some r') (hstage : r'.stage = .finalize f') :
    Finalizing.After ev s f' s' := by
  rcases h.registering hr with hold | ⟨r, t, calls, drain, hrun, hm, rfl⟩ | ⟨d, hacc⟩
  · exact .kept (.register who r' hold hstage)
  · rcases hm.finalizing rfl hstage with ⟨f, hf, hfm⟩ | ⟨hpub, d, job, hd, hearly, hd', rfl⟩
    · exact .stepped f t calls t.dispatches t.cancels t.aging drain (.register who r hrun hf) hfm
        rfl
    · exact .opened (.early who r d job hrun hpub hd hearly hd')
  · rw [hacc.register] at hstage
    cases hstage

/-- A callback opens a finalisation when the registration is published, and takes it on. -/
theorem NodeMove.finalizing {j k : Nat} {d d' : Dispatch} {f' : Finalize}
    (hd : s.dispatches[j]? = some d) (hm : NodeMove inp s j d s')
    (hd' : s'.dispatches[k]? = some d') (hside' : d'.side = .calling f') :
    Finalizing.After ev s f' s' := by
  cases hm with
  | finish hside | early completed succeeded hside =>
      rcases Table.getElem?_set_cases hd' with ⟨rfl, rfl⟩ | ⟨-, hd'⟩
      · cases hside'
      · exact .kept (.node k d' hd' hside')
  | enter completed succeeded hside hpublished =>
      have hk : j < s.dispatches.length := (List.getElem?_eq_some_iff.mp hd).1
      rcases Table.getElem?_set_cases hd' with ⟨rfl, rfl⟩ | ⟨-, hd'⟩
      · cases hside'
        exact .opened (.enter k d completed succeeded _ hd hside hpublished rfl
          (List.getElem?_set_self hk))
      · exact .kept (.node k d' hd' hside')
  | @finalize f t o hside hf =>
      -- either the dispatch of this callback, or one that another thread has left alone
      have hsides := sides_of_core hf.dispatches_core
      obtain ⟨d₁, hd₁, -⟩ := getElem?_core hf.dispatches_core hd
      simp only [modifyDispatch, Table.modify_eq_set hd₁] at hd'
      rcases Table.getElem?_set_cases hd' with ⟨rfl, rfl⟩ | ⟨-, hd'⟩
      · cases o with
        | none => cases hside'
        | some g =>
            obtain rfl : g = f' := NodeSide.calling.inj hside'
            refine .stepped f t t.calls _ t.cancels t.aging t.drain (.node k d hd hside) hf ?_
            exact map_marks_modify fun _ => rfl
      · obtain ⟨d₂, hd₂, hside₂⟩ := calling_of_sides hsides hd' hside'
        exact .kept (.node k d₂ hd₂ hside₂)

/-- Finalisations inside the callbacks. -/
theorem Move.finalizing_node (h : Move cfg ev s s') {k : Nat} {d' : Dispatch} {f' : Finalize}
    (hd' : s'.dispatches[k]? = some d') (hside' : d'.side = .calling f') :
    Finalizing.After ev s f' s' := by
  have hkeep : s'.dispatches.map Dispatch.side = s.dispatches.map Dispatch.side →
      Finalizing.After ev s f' s' := by
    intro hsides
    obtain ⟨d, hd, hside⟩ := calling_of_sides hsides hd' hside'
    exact .kept (.node k d hd hside)
  cases h with
  | submit i c hc hm =>
      cases hm with
      | accepted nodeId job handle hpc hin hfree =>
          rcases Table.getElem?_append_cases hd' with hd | rfl
          · exact .kept (.node k d' hd hside')
          · cases hside'
      | register r hpc hr => exact hkeep hr.sides
      | _ => exact hkeep rfl
  | node j d hd hm => exact hm.finalizing hd hd' hside'
  | cancel c c' t cancels aging hm hrep =>
      cases hm with
      | hit info j d hpc hd =>
          simp only [modifyDispatch, Table.modify_eq_set hd] at hd'
          rcases Table.getElem?_set_cases hd' with ⟨rfl, rfl⟩ | ⟨-, hd'⟩
          · cases hside'
          · exact .kept (.node k d' hd' hside')
      | finalize f hpc hf => exact hkeep (sides_of_core hf.dispatches_core)
      | _ => exact hkeep rfl
  | drain hm =>
      cases hm with
      | accepted nodeId entry handle hpc hin hfree =>
          rcases Table.getElem?_append_cases hd' with hd | rfl
          · exact .kept (.node k d' hd hside')
          · cases hside'
      | dropping f hpc hf => exact hkeep (sides_of_core hf.dispatches_core)
      | register r hpc hr => exact hkeep hr.sides
      | _ => exact hkeep rfl
  | aging hm => cases hm <;> exact hkeep rfl
  | switch j pc hactor hpc hm => cases hm <;> exact hkeep rfl
  | _ => exact hkeep rfl

/-- Finalisations inside `cancel` calls, of users and of the aging thread. -/
theorem Move.finalizing_cancel (h : Move cfg ev s s') {c' : CancelCall} {f' : Finalize}
    (hc' : c' ∈ s'.allCancels) (hpc' : c'.pc = .finalize f') : Finalizing.After ev s f' s' := by
  rcases h.allCancels_cases hc' with
    hold | ⟨hstart, -, -⟩ | ⟨c, t, cancels, aging, hc, hcall, hm, rfl⟩
  · exact .kept (.cancel c' hold hpc')
  · -- a call that has just begun finalises nothing
    rw [hstart] at hpc'
    cases hpc'
  · cases hm with
    | releaseSlot entry hpc =>
        cases hpc'
        exact .opened (.removed c entry hc hpc)
    | hit info k d hpc hd hnode hhandle hlive hreply =>
        cases hpc'
        have hk : k < s.dispatches.length := (List.getElem?_eq_some_iff.mp hd).1
        refine .opened (.hit c info k d hcall hpc hreply hd hhandle hlive ?_)
        simp only [modifyDispatch, Table.modify_eq_set hd]
        exact List.getElem?_set_self hk
    | @finalize f t o hpc hf =>
        cases o with
        | none => cases hpc'
        | some g =>
            obtain rfl : g = f' := CancelPc.finalize.inj hpc'
            exact .stepped f t t.calls t.dispatches cancels aging t.drain (.cancel c hc hpc) hf rfl
    | _ => cases hpc'

/-- The finalisation of a held job that the drain thread drops. -/
theorem Move.finalizing_dropping (h : Move cfg ev s s') {f' : Finalize}
    (hpc' : s'.drain = .dropping f') : Finalizing.After ev s f' s' := by
  rcases h.drain_cases with heq | hm
  · exact .kept (.dropping (heq ▸ hpc'))
  · cases hm with
    | dropRelease entry hpc =>
        cases hpc'
        exact .opened (.dropped entry hpc)
    | @dropping f t o hpc hf =>
        cases o with
        | none => cases hpc'
        | some g =>
            obtain rfl : g = f' := DrainPc.dropping.inj hpc'
            exact .stepped f t t.calls t.dispatches t.cancels t.aging _ (.dropping hpc) hf rfl
    | @register r t r' hpc hm => cases r' <;> cases hpc'
    | _ => cases hpc'

/-- A finalisation under way was under way before, has just made a step, or has just begun. -/
theorem Move.finalizing (h : Move cfg ev s s') {f' : Finalize} (hf : Finalizing s' f') :
    Finalizing.After ev s f' s' := by
  cases hf with
  | register who r' hr hstage => exact h.finalizing_register hr hstage
  | node k d' hd' hside' => exact h.finalizing_node hd' hside'
  | cancel c' hc' hpc' => exact h.finalizing_cancel hc' hpc'
  | dropping hpc' => exact h.finalizing_dropping hpc'

/-! ## The kind of a step

What is left of a step when one asks only what it does to the registrations and finalisations. -/

/-- Nothing that registration or finalisation writes has changed, apart from expired trackings. -/
structure Quiet (s s' : State F) : Prop where
  marks : ∀ {k : Nat} {d d' : Dispatch}, s.dispatches[k]? = some d → s'.dispatches[k]? = some d' →
    d'.marks = d.marks
  handles : s'.m.mHandleToJobInfo = s.m.mHandleToJobInfo
  ids : s'.m.mJobIdToHandleMap = s.m.mJobIdToHandleMap
  tracked : ∀ id, s'.m.mAgingEngine.isTracked id = true → s.m.mAgingEngine.isTracked id = true
  costModel : ∃ enabled, s'.m.mCostModel = s.m.mCostModel.setDegradationEnabled enabled
  updates : s'.updates = s.updates
  finalized : s'.finalized = s.finalized

/-- Every step is a step of a finalisation under way, a step of a registration under way that is
still to be published, or quiet. -/
inductive StepKind (cfg : BalancerConfig F) (ev : Event) (s s' : State F) : Prop
  | finalize (f : Finalize) (t : State F) (f' : Option Finalize) (calls : List Call)
      (dispatches : List Dispatch) (cancels : List CancelCall) (aging : AgingPc) (drain : DrainPc)
      (hf : Finalizing s f) (hm : FinalizeMove s f t f')
      (hmarks : dispatches.map Dispatch.marks = t.dispatches.map Dispatch.marks)
      (hs' : s' = { t with
        calls := calls
        dispatches := dispatches
        cancels := cancels
        aging := aging
        drain := drain })
  | register (who : Option CallId) (r : Register) (t : State F) (r' : Option Register)
      (calls : List Call) (drain : DrainPc) (hr : s.registerOf who = some r)
      (hr' : s'.registerOf who = r') (hm : RegisterMove cfg ev.input s r t r')
      (hstage : ∀ f, r.stage ≠ .finalize f)
      (hs' : s' = { t with calls := calls, drain := drain })
  | quiet (h : Quiet s s')

theorem Quiet.of_eq (hd : s'.dispatches = s.dispatches)
    (hm : s'.m.mHandleToJobInfo = s.m.mHandleToJobInfo ∧
      s'.m.mJobIdToHandleMap = s.m.mJobIdToHandleMap ∧
      s'.m.mAgingEngine = s.m.mAgingEngine ∧ s'.m.mCostModel = s.m.mCostModel)
    (hu : s'.updates = s.updates) (hf : s'.finalized = s.finalized) : Quiet s s' where
  marks h h' := by
    rw [hd, h] at h'
    rw [Option.some.inj h']
  handles := hm.1
  ids := hm.2.1
  tracked id h := hm.2.2.1 ▸ h
  costModel := ⟨s.m.mCostModel.mDegradationEnabled, hm.2.2.2⟩
  updates := hu
  finalized := hf

theorem Quiet.set {j : Nat} {x x' : Dispatch} (hx : s.dispatches[j]? = some x)
    (hmarks : x'.marks = x.marks) :
    Quiet s { s with dispatches := s.dispatches.set j x' } where
  marks h h' := by
    rcases Table.getElem?_set_cases h' with ⟨rfl, rfl⟩ | ⟨-, h'⟩
    · rwa [Option.some.inj (h.symm.trans hx)]
    · rw [Option.some.inj (h.symm.trans h')]
  handles := rfl
  ids := rfl
  tracked _ h := h
  costModel := ⟨_, rfl⟩
  updates := rfl
  finalized := rfl

theorem Quiet.append {d : Dispatch} (hd : s'.dispatches = s.dispatches ++ [d])
    (hm : s'.m = s.m) (hu : s'.updates = s.updates) (hf : s'.finalized = s.finalized) :
    Quiet s s' where
  marks {k} _ _ h h' := by
    have hk : k < s.dispatches.length := (List.getElem?_eq_some_iff.mp h).1
    rw [hd, List.getElem?_append_left hk, h] at h'
    rw [Option.some.inj h']
  handles := by rw [hm]
  ids := by rw [hm]
  tracked _ h := hm ▸ h
  costModel := ⟨s.m.mCostModel.mDegradationEnabled, by rw [hm]; rfl⟩
  updates := hu
  finalized := hf

theorem RegisterMove.kind {r : Register} {r' : Option Register} {t : State F} (who : Option CallId)
    (calls : List Call) (drain : DrainPc) (hm : RegisterMove cfg ev.input s r t r')
    (hr : s.registerOf who = some r) (hr' : s'.registerOf who = r')
    (hs' : s' = { t with calls := calls, drain := drain }) : StepKind cfg ev s s' := by
  cases hstage : r.stage with
  | finalize f =>
      cases hm with
      | finalize g hg hf =>
          obtain rfl : g = f := RegisterStage.finalize.inj (hg.symm.trans hstage)
          exact .finalize g t _ calls t.dispatches t.cancels t.aging drain
            (.register who r hr hstage) hf rfl hs'
      | insert hg | agingOn hg | agingOff hg | track hg | noDispatch hg | publish d hg
      | publishEarly d job hg =>
          rw [hstage] at hg
          cases hg
  | insert | checkAging | track | publish =>
      exact .register who r t r' calls drain hr hr' hm (by simp [hstage]) hs'

/-- The kind of each step. -/
theorem Move.kind (h : Move cfg ev s s') : StepKind cfg ev s s' := by
  cases h with
  | submit i c hc hm =>
      cases hm with
      | accepted => exact .quiet (.append rfl rfl rfl rfl)
      | @register r t r' hpc hr =>
          have hi : i < t.calls.length :=
            hr.sameOutside.calls ▸ (List.getElem?_eq_some_iff.mp hc).1
          refine hr.kind (some i) _ t.drain ?_ ?_ rfl
          · rw [State.registerOf, hc, Option.bind_some, hpc]
            rfl
          · rw [State.registerOf, State.submitAt, List.getElem?_set_self hi, Option.bind_some]
            cases r' <;> rfl
      | _ => exact .quiet (.of_eq rfl ⟨rfl, rfl, rfl, rfl⟩ rfl rfl)
  | node k d hd hm =>
      cases hm with
      | @finalize f t f' hside hf =>
          exact .finalize f t f' t.calls
            (t.dispatches.modify k fun d => { d with side := f'.elim .called .calling })
            t.cancels t.aging t.drain (.node k d hd hside) hf (map_marks_modify fun _ => rfl) rfl
      | _ => exact .quiet (.set hd rfl)
  | cancel c c' t cancels aging hm hrep =>
      cases hm with
      | hit info k d hpc hd =>
          simp only [modifyDispatch, Table.modify_eq_set hd]
          have hquiet : Quiet s { s with
              dispatches := s.dispatches.set k { d with side := .cancelled } } := .set hd rfl
          exact .quiet ⟨hquiet.marks, hquiet.handles, hquiet.ids, hquiet.tracked, hquiet.costModel,
            hquiet.updates, hquiet.finalized⟩
      | @finalize f t f' hpc hf =>
          exact .finalize f t f' t.calls t.dispatches cancels aging t.drain
            (.cancel c hrep.old hpc) hf rfl rfl
      | _ => exact .quiet (.of_eq rfl ⟨rfl, rfl, rfl, rfl⟩ rfl rfl)
  | drain hm =>
      cases hm with
      | accepted => exact .quiet (.append rfl rfl rfl rfl)
      | @dropping f t f' hpc hf =>
          exact .finalize f t f' t.calls t.dispatches t.cancels t.aging _ (.dropping hpc) hf rfl rfl
      | @register r t r' hpc hr =>
          refine hr.kind none t.calls _ ?_ ?_ rfl
          · rw [State.registerOf, hpc]
            rfl
          · cases r' <;> rfl
      | _ => exact .quiet (.of_eq rfl ⟨rfl, rfl, rfl, rfl⟩ rfl rfl)
  | aging hm =>
      cases hm with
      | tick hpc =>
          -- expired jobs leave the tracked set, and none joins it
          have hquiet : Quiet s s := .of_eq rfl ⟨rfl, rfl, rfl, rfl⟩ rfl rfl
          exact .quiet ⟨hquiet.marks, rfl, rfl, fun _ => AgingEngine.isTracked_of_tick,
            hquiet.costModel, rfl, rfl⟩
      | _ => exact .quiet (.of_eq rfl ⟨rfl, rfl, rfl, rfl⟩ rfl rfl)
  | switch k pc hactor hpc hm =>
      cases hm <;> exact .quiet (.of_eq rfl ⟨rfl, rfl, rfl, rfl⟩ rfl rfl)
  | setDegradationEnabled enabled =>
      have hquiet : Quiet s s := .of_eq rfl ⟨rfl, rfl, rfl, rfl⟩ rfl rfl
      exact .quiet ⟨hquiet.marks, rfl, rfl, fun _ h => h, ⟨enabled, rfl⟩, rfl, rfl⟩
  | _ => exact .quiet (.of_eq rfl ⟨rfl, rfl, rfl, rfl⟩ rfl rfl)

end FatpBalancer
