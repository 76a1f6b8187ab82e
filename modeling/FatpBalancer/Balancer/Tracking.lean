/-
# No ghosts

The routing maps and the aging engine are written by registrations and finalisations, each at a
moment of its own.  When every cancelled job is past the aging step of its registration, and is the
job the `cancel` call has looked up, a finalisation finds all that its registration has written:
what is tracked or routed belongs to a job that is not finalised yet.

`TracksAll` is the condition on the steps: no node mints a handle that a dispatch still bears, and a
successful cancel hits a job whose registration is past the aging step and which is the job that was
looked up.  Without the second part a late `cancel` can untrack the wrong job, or a job that its
registration goes on to track.

`Cleans` follows a finalisation stage by stage: what it has untracked and unrouted so far.
`Dispatch.Cleaned` is the end of it, and `TrackingInv` collects the invariants of the maps and the
engine.  `NoGhosts` is what they say to somebody who looks from outside.
-/
import FatpBalancer.Balancer.Flood
import FatpBalancer.Balancer.Lookup

universe u

namespace FatpBalancer

open Machine

variable {F : Type u} [FloatOps F] {cfg : BalancerConfig F} {inp : Input} {ev : Event}
  {s s' t : State F}

/-- What holds in every run, of the registrations, the finalisations and the jobs they are about. -/
structure Sound (s : State F) : Prop where
  registering : RegisteringInv s
  finalizing : FinalizingInv s
  accounting : AccountingInv s
  copies : CopiesInv s
  reported : ∀ {k : Nat} {d : Dispatch}, s.dispatches[k]? = some d → d.Reported

/-- All of it, in every reachable state and under any assumption on the steps. -/
theorem sound_reach {ok : State F → Event → Prop} (hs : (balancer cfg).Reach ok s) : Sound s where
  registering := registeringInv_reach hs
  finalizing := finalizingInv_reach hs.unguarded
  accounting := accountingInv_reach hs
  copies := copiesInv_reach hs
  reported hd := dispatch_reported hs hd

/-! ## The guard

Stated on the state before the step and on what the step's node answers, so that it can be evaluated
along a run. -/

/-- What a `cancel` call has found in the routing map and is about to ask for. -/
def CancelPc.info? : CancelPc → Option JobRoutingInfo
  | .askNode info => some info
  | _ => none

/-- A successful cancel hits a job whose registration is past the aging step, and it is the job that
was looked up. -/
def CancelsSettled (s : State F) (ev : Event) : Prop :=
  ∀ c ∈ s.cancelOf ev, ∀ info ∈ c.pc.info?, ∀ k ∈ ev.input.cancelReply.toOption,
    ∀ d ∈ s.dispatches[k]?, d.settled = true ∧ d.capturedJob.id = info.jobId

/-- No node mints a handle that another dispatch still bears, and cancels hit settled jobs. -/
def TracksAll (s : State F) (ev : Event) : Prop := DistinctHandles s ev ∧ CancelsSettled s ev

instance (s : State F) (ev : Event) : Decidable (TracksAll s ev) := by
  unfold TracksAll CancelsSettled
  infer_instance

/-! ## The tracked jobs under one step

The engine is written at three places: by registrations, by finalisations, and by its own tick,
which takes out the expired jobs. -/

/-- What one step does to the tracked jobs, and to the flag that says which dispatches have been
untracked. -/
inductive TracksMove (s s' : State F) : Prop
  | kept (htracked : ∀ id, s'.m.mAgingEngine.isTracked id = true →
        s.m.mAgingEngine.isTracked id = true)
      (hflag : ∀ {k : Nat} {d d' : Dispatch}, s.dispatches[k]? = some d →
        s'.dispatches[k]? = some d' → d'.untracked = d.untracked)
  | track (who : Option CallId) (r : Register) (hr : s.registerOf who = some r)
      (hstage : r.stage = .track)
      (htracked : ∀ id, s'.m.mAgingEngine.isTracked id = true →
        id = r.job.id ∨ s.m.mAgingEngine.isTracked id = true)
      (hflag : ∀ {k : Nat} {d d' : Dispatch}, s.dispatches[k]? = some d →
        s'.dispatches[k]? = some d' → d'.untracked = d.untracked)
  | untrack (f : Finalize) (hf : Finalizing s f) (hstage : f.stage = .untrack)
      (htracked : ∀ id, s'.m.mAgingEngine.isTracked id = true →
        id ≠ f.finishedJob.id ∧ s.m.mAgingEngine.isTracked id = true)
      (hflag : ∀ {k : Nat} {d d' : Dispatch}, s.dispatches[k]? = some d →
        s'.dispatches[k]? = some d' →
        d'.untracked = if f.dispatch = some k then true else d.untracked)

/-- The routing maps and the engine are apart. -/
theorem agingEngine_eraseRoutingState (m : Members F) (handle : JobHandle) :
    (eraseRoutingState m handle).mAgingEngine = m.mAgingEngine := by
  unfold eraseRoutingState
  split <;> rfl

/-- A finalisation untracks its own job and no other. -/
theorem FinalizeMove.tracks {f : Finalize} {f' : Option Finalize} (h : FinalizeMove s f t f')
    (hf : Finalizing s f) (hm : s'.m = t.m)
    (hmarks : s'.dispatches.map Dispatch.marks = t.dispatches.map Dispatch.marks) :
    TracksMove s s' := by
  have hflag : ∀ {P : Nat → Dispatch → Bool}, (∀ {k : Nat} {d d' : Dispatch},
      s.dispatches[k]? = some d → t.dispatches[k]? = some d' → d'.untracked = P k d) →
      ∀ {k : Nat} {d d' : Dispatch}, s.dispatches[k]? = some d → s'.dispatches[k]? = some d' →
        d'.untracked = P k d := by
    intro P hP k d d' hd hd'
    obtain ⟨x, hx, hsame⟩ := getElem?_marks hmarks hd'
    exact (congrArg Marks.untracked hsame).trans (hP hd hx)
  cases h with
  | learn | skip | count | held | release =>
      refine .kept (fun id h => by rwa [hm] at h) (hflag (P := fun _ d => d.untracked) ?_)
      exact fun hd hd' => by rw [Option.some.inj (hd.symm.trans hd')]
  | untrack hstage =>
      refine .untrack f hf hstage (fun id h => ?_)
        (hflag (P := fun k d => if f.dispatch = some k then true else d.untracked) ?_)
      · rw [hm, m_modifyDispatch] at h
        exact (AgingEngine.isTracked_untrack _ _ _).mp h
      · intro k d d' hd hd'
        rw [getElem?_modifyDispatch hd' hd rfl]
        split <;> rfl
  | unroute handle =>
      refine .kept (fun id h => ?_) (hflag (P := fun _ d => d.untracked) ?_)
      · rwa [hm, m_modifyDispatch, agingEngine_eraseRoutingState] at h
      · intro k d d' hd hd'
        rw [getElem?_modifyDispatch hd' hd rfl]
        split <;> rfl

/-- One case for each kind of move. -/
theorem Move.tracks (h : Move cfg ev s s') : TracksMove s s' := by
  cases h.kind with
  | finalize f t f' calls dispatches cancels aging drain hf hm hmarks hs' =>
      subst hs'
      exact hm.tracks hf rfl hmarks
  | register who r t r' calls drain hr hr' hm hstage hs' =>
      subst hs'
      cases hm with
      | insert | agingOff =>
          refine .kept (fun _ h => ?_) fun hd hd' => ?_
          · rwa [m_modifyDispatch] at h
          · rw [getElem?_modifyDispatch hd' hd rfl]
            split <;> rfl
      | track htrack =>
          refine .track who r hr htrack (fun id h => ?_) fun hd hd' => ?_
          · rw [m_modifyDispatch] at h
            exact (AgingEngine.isTracked_track _ _ _ _).mp h
          · rw [getElem?_modifyDispatch hd' hd rfl]
            split <;> rfl
      | agingOn | noDispatch =>
          exact .kept (fun _ h => h) fun hd hd' => by rw [Option.some.inj (hd.symm.trans hd')]
      | publish x hins hx | publishEarly x job hins hx =>
          refine .kept (fun _ h => h) fun hd hd' => ?_
          rcases Table.getElem?_set_cases hd' with ⟨rfl, rfl⟩ | ⟨-, hd'⟩
          · rw [Option.some.inj (hd.symm.trans hx)]
            rfl
          · rw [Option.some.inj (hd.symm.trans hd')]
      | finalize f hf => exact absurd hf (hstage f)
  | quiet hq => exact .kept hq.tracked fun hd hd' => congrArg Marks.untracked (hq.marks hd hd')

/-! ## Job ids

The engine and one of the maps go by the job's id, a 32-bit number that comes round again.  Until the
counter wraps, an id names one job. -/

/-- The ids of the first round are different. -/
theorem jobIdOf_inj {m n : Nat} (hm : m < 2 ^ 32) (hn : n < 2 ^ 32) (h : jobIdOf m = jobIdOf n) :
    m = n := by
  have h : (m + 1) % 2 ^ 32 = (n + 1) % 2 ^ 32 := h
  omega

/-- Until the ids wrap, an id names one dispatch. -/
theorem Sound.id_unique (h : Sound s) (hissued : s.issued < 2 ^ 32) {j k : Nat} {d d' : Dispatch}
    (hd : s.dispatches[j]? = some d) (hd' : s.dispatches[k]? = some d')
    (hid : d.capturedJob.id = d'.capturedJob.id) : j = k := by
  obtain ⟨c, n, hc, hn, hjob⟩ := h.copies.dispatches hd
  obtain ⟨c', n', hc', hn', hjob'⟩ := h.copies.dispatches hd'
  rw [hjob, hjob'] at hid
  have hlt := h.copies.ordinal_lt hc hn
  have hlt' := h.copies.ordinal_lt hc' hn'
  obtain rfl : n = n' := jobIdOf_inj (by omega) (by omega) hid
  exact h.accounting.dispatch_unique hd hd' (h.copies.ordinal_inj hc hc' hn hn')

/-! ## What a finalisation leaves behind

The stages of a finalisation come one after the other, and each of them makes one of the flags of
`Cleaned` true for good. -/

/-- How far a running finalisation has come with its dispatch. -/
structure Cleans (f : Finalize) (d : Dispatch) : Prop where
  settled : d.settled = true
  id : f.finishedJob.id = d.capturedJob.id
  untracked : f.stage = .unroute ∨ f.stage = .release → d.untracked = true
  unrouted : f.stage = .release → d.routed = false

/-- Nothing is left of a dispatch in the routing maps and the aging engine. -/
structure Dispatch.Cleaned (d : Dispatch) : Prop where
  settled : d.settled = true
  untracked : d.untracked = true
  unrouted : d.routed = false

/-- A dispatch that is past its aging step stays past it. -/
theorem Move.settled_next (hm : Move cfg ev s s') {k : Nat} {d d' : Dispatch}
    (hd : s.dispatches[k]? = some d) (hd' : s'.dispatches[k]? = some d')
    (h : d.settled = true) : d'.settled = true := by
  rcases hm.settled_cases hd hd' with heq | ⟨htrue, -⟩
  · rw [heq, h]
  · exact htrue

/-- An untracked dispatch stays untracked. -/
theorem Move.untracked_next (hm : Move cfg ev s s') {k : Nat} {d d' : Dispatch}
    (hd : s.dispatches[k]? = some d) (hd' : s'.dispatches[k]? = some d')
    (h : d.untracked = true) : d'.untracked = true := by
  cases hm.tracks with
  | kept _ hflag | track _ _ _ _ _ hflag => rw [hflag hd hd', h]
  | untrack f hf hstage _ hflag => rw [hflag hd hd', h, ite_self]

/-- A settled dispatch is not entered into the routing maps any more. -/
theorem Move.unrouted_next (hm : Move cfg ev s s') (hr : RegisteringInv s) {k : Nat}
    {d d' : Dispatch} (hd : s.dispatches[k]? = some d) (hd' : s'.dispatches[k]? = some d')
    (hsettled : d.settled = true) (h : d.routed = false) : d'.routed = false := by
  cases hm.routes with
  | kept _ _ hsame => rw [hsame hd hd', h]
  | insert who r hrun hstage _ _ hsame =>
      rw [hsame hd hd', if_neg ?_, h]
      rintro rfl
      obtain ⟨d₀, hd₀⟩ := hr.registers hrun
      obtain rfl := Option.some.inj (hd₀.dispatch.symm.trans hd)
      have := hd₀.settled
      rw [hstage, hsettled] at this
      cases this
  | erase f handle hf hstage hsome _ _ hsame => rw [hsame hd hd', h, ite_self]

/-- What a finalisation has cleaned stays clean. -/
theorem Cleans.next (hm : Move cfg ev s s') (hr : RegisteringInv s) {f : Finalize} {k : Nat}
    {d d' : Dispatch} (h : Cleans f d) (hd : s.dispatches[k]? = some d)
    (hd' : s'.dispatches[k]? = some d') (hmove : DispatchMove k d d') : Cleans f d' where
  settled := hm.settled_next hd hd' h.settled
  id := h.id.trans (congrArg Job.id hmove.same.2.1.symm)
  untracked hstage := hm.untracked_next hd hd' (h.untracked hstage)
  unrouted hstage := hm.unrouted_next hr hd hd' h.settled (h.unrouted hstage)

/-- A dispatch of which nothing is left stays so. -/
theorem Dispatch.Cleaned.next (hm : Move cfg ev s s') (hr : RegisteringInv s) {k : Nat}
    {d d' : Dispatch} (h : d.Cleaned) (hd : s.dispatches[k]? = some d)
    (hd' : s'.dispatches[k]? = some d') : d'.Cleaned where
  settled := hm.settled_next hd hd' h.settled
  untracked := hm.untracked_next hd hd' h.untracked
  unrouted := hm.unrouted_next hr hd hd' h.settled h.unrouted

/-- One step of a finalisation, seen from its dispatch. -/
theorem FinalizeMove.cleans {f f' : Finalize} (h : FinalizeMove s f t (some f')) {k : Nat}
    {d d' d₁ : Dispatch} (hk : f.dispatch = some k) (hd : s.dispatches[k]? = some d)
    (hfd : FinalizesDispatch f d) (hc : Cleans f d) (ht : t.dispatches[k]? = some d₁)
    (hmarks : d'.marks = d₁.marks) (hid : d'.capturedJob.id = d.capturedJob.id) :
    Cleans f' d' := by
  have hsettled : d₁.settled = d.settled := (h.kept hd ht).settled
  have hsettled' : d'.settled = true :=
    (congrArg Marks.settled hmarks).trans (hsettled.trans hc.settled)
  have hid' : f'.finishedJob.id = d'.capturedJob.id := by
    rw [h.next, hid]
    exact hc.id
  have huntracked : d'.untracked = d₁.untracked := congrArg Marks.untracked hmarks
  have hrouted : d'.routed = d₁.routed := congrArg Marks.routed hmarks
  cases h with
  | learn | skip | count =>
      refine ⟨hsettled', hid', ?_, nofun⟩
      rintro (hlate | hlate) <;> cases hlate
  | untrack hstage =>
      refine ⟨hsettled', hid', fun _ => ?_, nofun⟩
      rw [huntracked, getElem?_modifyDispatch ht hd rfl, if_pos hk]
  -- a finalisation with a dispatch has its handle
  | held hstage hnone =>
      rw [hfd.handle] at hnone
      cases hnone
  | unroute handle hstage hsome =>
      rw [getElem?_modifyDispatch ht hd rfl, if_pos hk] at huntracked hrouted
      exact ⟨hsettled', hid', fun _ => huntracked.trans (hc.untracked (.inl hstage)),
        fun _ => hrouted⟩

/-! ## The invariant

The maps and the engine against the dispatches, and the dispatches against the finalisations. -/

/-- What is routed or tracked has a dispatch of its own that is not cleaned yet. -/
structure TrackingInv (s : State F) : Prop where
  routed : RoutedInv s
  ids : Indexes (fun d => d.capturedJob.id) Dispatch.handle s.dispatches s.m.mJobIdToHandleMap
  tracked : ∀ {id : JobId}, s.m.mAgingEngine.isTracked id = true →
    ∃ (k : Nat) (d : Dispatch), s.dispatches[k]? = some d ∧ d.capturedJob.id = id ∧
      d.untracked = false
  untracked : ∀ {k : Nat} {d : Dispatch}, s.dispatches[k]? = some d → d.untracked = true →
    d.settled = true
  finalizing : ∀ {f : Finalize} {k : Nat} {d : Dispatch}, Finalizing s f → f.dispatch = some k →
    s.dispatches[k]? = some d → Cleans f d
  finalized : ∀ {k : Nat} {d : Dispatch}, s.dispatches[k]? = some d →
    finalizedCount s d.call ≠ 0 → d.Cleaned

/-- A dispatch with a freshly minted handle has no rival. -/
theorem TrackingInv.not_pending (h : TrackingInv s) (hok : DistinctHandles s ev) :
    ∀ mint ∈ s.nodeMints ev, ∀ (k : Nat) (d : Dispatch), s.dispatches[k]? = some d →
      d.handle = mint.2 → ¬Pending s d := by
  intro mint hmint k d hd hhandle hp
  have hclosed := closed_of_freeOnNodes (hhandle ▸ hok mint hmint) hd
  rcases hp with hrouted | hopen
  · have hfinal : finalizedCount s d.call ≠ 0 ∧ d.regState.published = true := by
      simpa [closed] using hclosed
    rw [(h.finalized hd hfinal.1).unrouted] at hrouted
    cases hrouted
  · rw [hclosed] at hopen
    cases hopen

/-- The map from ids to handles follows the routed dispatches. -/
theorem TrackingInv.ids_next (h : TrackingInv s) (hm : Move cfg ev s s') (hs : Sound s)
    (hissued : s.issued < 2 ^ 32) :
    Indexes (fun d => d.capturedJob.id) Dispatch.handle s'.dispatches s'.m.mJobIdToHandleMap := by
  have hl := hm.continues (fun d => d.capturedJob.id) Dispatch.handle
    fun _ _ _ hmove => ⟨congrArg Job.id hmove.same.2.1, hmove.same.2.2.1⟩
  cases hm.routes with
  | kept _ hids hsame => exact h.ids.kept hl (fun x => by rw [hids]) hsame
  | insert who r hrun hstage _ hids hsame =>
      obtain ⟨d, hd⟩ := hs.registering.registers hrun
      have habsent : s.m.mJobIdToHandleMap.lookup d.capturedJob.id = none := by
        cases hroute : s.m.mJobIdToHandleMap.lookup d.capturedJob.id with
        | none => rfl
        | some handle =>
            obtain ⟨k, d', hd', hrouted, hid, -⟩ := h.ids.owned hroute
            obtain rfl := hs.id_unique hissued hd' hd.dispatch hid
            obtain rfl := Option.some.inj (hd'.symm.trans hd.dispatch)
            rw [hd.routed hstage] at hrouted
            cases hrouted
      refine h.ids.insert hl hd.dispatch habsent (fun x => ?_) hsame
      rw [hd.job] at habsent ⊢
      rw [hids, insertRoutingState, HashMap.put_of_absent habsent, HashMap.lookup_insert_eq,
        hd.handle]
  | erase f handle hfin hstage hsome _ hids hsame =>
      obtain ⟨k, d, hk, hd, -, rfl, hopen⟩ :=
        hs.finalizing.routed_dispatch hs.accounting hfin hsome
      refine h.ids.erase hl hd (fun hd' _ heq => hs.id_unique hissued hd' hd heq) (fun x => ?_)
        fun hd hd' => ?_
      · rw [hids, eraseRoutingState]
        split
        · next hnone =>
            -- the dispatch is not routed, so its id is in neither map
            split
            · next heq =>
                cases hx : s.m.mJobIdToHandleMap.lookup x with
                | none => rfl
                | some v =>
                    obtain ⟨j, d', hd', hrouted, hid, -⟩ := h.ids.owned hx
                    obtain rfl := hs.id_unique hissued hd' hd (hid.trans heq)
                    obtain rfl := Option.some.inj (hd'.symm.trans hd)
                    rw [h.routed.handles.own hd hrouted] at hnone
                    cases hnone
            · rfl
        · next info hinfo =>
            obtain ⟨j, d', hd', hrouted, hhandle, rfl⟩ := h.routed.handles.owned hinfo
            obtain rfl := h.routed.unique hd' hd hhandle (.inl hrouted) (.inr hopen)
            obtain rfl := Option.some.inj (hd'.symm.trans hd)
            exact HashMap.lookup_erase_eq _ _ _
      · rw [hsame hd hd', hk]
        simp only [Option.some.injEq, eq_comm]

/-- A tracked job has a dispatch that has not been untracked. -/
theorem TrackingInv.tracked_next (h : TrackingInv s) (hm : Move cfg ev s s') (hs : Sound s)
    {id : JobId} (hid : s'.m.mAgingEngine.isTracked id = true) :
    ∃ (k : Nat) (d : Dispatch), s'.dispatches[k]? = some d ∧ d.capturedJob.id = id ∧
      d.untracked = false := by
  have hnext : ∀ {k : Nat} {d : Dispatch}, s.dispatches[k]? = some d → d.capturedJob.id = id →
      (∀ d', s'.dispatches[k]? = some d' → d'.untracked = false) →
      ∃ (k : Nat) (d : Dispatch), s'.dispatches[k]? = some d ∧ d.capturedJob.id = id ∧
        d.untracked = false := by
    intro k d hd hjob hflag
    obtain ⟨d', hd', hmove⟩ := hm.dispatch_next hd
    exact ⟨k, d', hd', (congrArg Job.id hmove.same.2.1).trans hjob, hflag d' hd'⟩
  cases hm.tracks with
  | kept htracked hflag =>
      obtain ⟨k, d, hd, hjob, hun⟩ := h.tracked (htracked id hid)
      exact hnext hd hjob fun d' hd' => (hflag hd hd').trans hun
  | track who r hrun hstage htracked hflag =>
      rcases htracked id hid with rfl | hold
      · obtain ⟨d, hd⟩ := hs.registering.registers hrun
        -- tracked by its registration, so not untracked before
        refine hnext hd.dispatch (congrArg Job.id hd.job) fun d' hd' => ?_
        rw [hflag hd.dispatch hd']
        refine Bool.eq_false_iff.mpr fun hun => ?_
        have hsettled := h.untracked hd.dispatch hun
        rw [hd.settled, hstage] at hsettled
        cases hsettled
      · obtain ⟨k, d, hd, hjob, hun⟩ := h.tracked hold
        exact hnext hd hjob fun d' hd' => (hflag hd hd').trans hun
  | untrack f hfin hstage htracked hflag =>
      -- the untracked job is the one of the finalisation, and the others stay
      obtain ⟨hne, hold⟩ := htracked id hid
      obtain ⟨k, d, hd, hjob, hun⟩ := h.tracked hold
      refine hnext hd hjob fun d' hd' => ?_
      rw [hflag hd hd', if_neg ?_, hun]
      intro hk
      exact hne (hjob.symm.trans (h.finalizing hfin hk hd).id.symm)

/-- Only a dispatch past its aging step is untracked: a finalisation begins with a settled one. -/
theorem TrackingInv.untracked_next (h : TrackingInv s) (hm : Move cfg ev s s') {k : Nat}
    {d' : Dispatch} (hd' : s'.dispatches[k]? = some d') (hun : d'.untracked = true) :
    d'.settled = true := by
  rcases hm.dispatches.1 k d' hd' with ⟨d, hd, -⟩ | ⟨-, hfresh⟩
  · refine hm.settled_next hd hd' ?_
    cases hm.tracks with
    | kept _ hflag | track _ _ _ _ _ hflag => exact h.untracked hd (hflag hd hd' ▸ hun)
    | untrack f hfin hstage _ hflag =>
        rw [hflag hd hd'] at hun
        split at hun
        · next hk => exact (h.finalizing hfin hk hd).settled
        · exact h.untracked hd hun
  · rw [hfresh.untracked] at hun
    cases hun

/-- A finalisation begins with nothing to show. -/
theorem Cleans.begin {f : Finalize} {d : Dispatch} (hstage : f.stage = .learn)
    (hsettled : d.settled = true) (hid : f.finishedJob.id = d.capturedJob.id) : Cleans f d where
  settled := hsettled
  id := hid
  untracked hlate := by
    rw [hstage] at hlate
    rcases hlate with hlate | hlate <;> cases hlate
  unrouted hlate := by
    rw [hstage] at hlate
    cases hlate

/-- However it is opened. -/
theorem Opens.cleans {f : Finalize} (h : Opens ev s s' f) (hs : Sound s)
    (hok : CancelsSettled s ev) {k : Nat} {d' : Dispatch} (hk : f.dispatch = some k)
    (hd' : s'.dispatches[k]? = some d') : Cleans f d' := by
  cases h with
  | enter j d completed succeeded f hd hside hpublished hf hd₁ =>
      subst hf
      cases hk
      obtain rfl := Option.some.inj (hd₁.symm.trans hd')
      exact .begin rfl ((hs.registering.published hd).settled hpublished) rfl
  | early who r d job hrun hstage hd hearly hd₁ =>
      cases hk
      obtain rfl := Option.some.inj (hd₁.symm.trans hd')
      obtain ⟨d₀, hd₀⟩ := hs.registering.registers hrun
      obtain rfl := Option.some.inj (hd₀.dispatch.symm.trans hd)
      obtain ⟨completed, -, rfl⟩ := (hs.reported hd).early job hearly
      exact .begin rfl (hd₀.settled.trans (by rw [hstage]; rfl)) rfl
  | hit c info j d hcall hpc hreply hd hhandle hlive hd₁ =>
      cases hk
      obtain rfl := Option.some.inj (hd₁.symm.trans hd')
      -- a cancel names the job it has found by its routing entry
      obtain ⟨hsettled, hid⟩ := hok c hcall info (by rw [hpc]; rfl) k (by rw [hreply]; rfl) d hd
      exact .begin rfl hsettled hid.symm
  | dropped | removed => cases hk

/-- A finalisation under way has cleaned what its stage says. -/
theorem TrackingInv.finalizing_next (h : TrackingInv s) (hm : Move cfg ev s s') (hs : Sound s)
    (hok : CancelsSettled s ev) {f : Finalize} {k : Nat} {d' : Dispatch} (hf : Finalizing s' f)
    (hk : f.dispatch = some k) (hd' : s'.dispatches[k]? = some d') : Cleans f d' := by
  have hafter := hm.finalizing hf
  cases hafter with
  | kept hold =>
      obtain ⟨d, hd, -⟩ := (hs.finalizing.finalizes hold).dispatched k hk
      obtain ⟨d₁, hd₁, hmove⟩ := hm.dispatch_next hd
      obtain rfl := Option.some.inj (hd₁.symm.trans hd')
      exact (h.finalizing hold hk hd).next hm hs.registering hd hd' hmove
  | stepped f₀ t calls dispatches cancels aging drain hf₀ hfm hmarks =>
      have hk₀ : f₀.dispatch = some k := by
        rw [hfm.next] at hk
        exact hk
      obtain ⟨d, hd, hfd⟩ := (hs.finalizing.finalizes hf₀).dispatched k hk₀
      obtain ⟨d₁, hd₁, hmove⟩ := hm.dispatch_next hd
      obtain rfl := Option.some.inj (hd₁.symm.trans hd')
      obtain ⟨x, hx, hsame⟩ := getElem?_marks hmarks hd'
      exact hfm.cleans hk₀ hd hfd (h.finalizing hf₀ hk₀ hd) hx hsame
        (congrArg Job.id hmove.same.2.1)
  | opened ho => exact ho.cleans hs hok hk hd'

/-- A job that is finalised leaves a cleaned dispatch. -/
theorem TrackingInv.finalized_next (h : TrackingInv s) (hm : Move cfg ev s s') (hs : Sound s)
    (ha : AccountingInv s') {k : Nat} {d' : Dispatch} (hd' : s'.dispatches[k]? = some d')
    (hfinal : finalizedCount s' d'.call ≠ 0) : d'.Cleaned := by
  rcases hm.dispatches.1 k d' hd' with ⟨d, hd, hmove⟩ | ⟨-, hfresh⟩
  · refine Dispatch.Cleaned.next hm hs.registering ?_ hd hd'
    rw [hmove.same.1] at hfinal
    rcases hm.finalizes with heq | ⟨f, hf, hstage, heq⟩
    · rw [finalizedCount, heq] at hfinal
      exact h.finalized hd hfinal
    · by_cases hcall : d.call = f.call
      · obtain ⟨hk, -⟩ := (hs.finalizing.finalizes hf).dispatch_eq hs.accounting hd hcall
        have hclean := h.finalizing hf hk hd
        exact ⟨hclean.settled, hclean.untracked (.inr hstage), hclean.unrouted hstage⟩
      · rw [finalizedCount_cons heq, owns, if_neg (by simpa using Ne.symm hcall)] at hfinal
        exact h.finalized hd hfinal
  · exact absurd (ha.live_unfinalized hd' (by rw [Dispatch.onNode, hfresh.side])) hfinal

/-- Ids are drawn and never given back. -/
theorem Move.issued_mono (hm : Move cfg ev s s') : s.issued ≤ s'.issued := by
  cases hm.numbering with
  | same _ hissued | begin _ _ hissued => exact hissued.ge
  | goOn i c c' hc hcalls hjob hnum =>
      cases hnum with
      | same _ hissued => exact hissued.ge
      | number now _ hissued => exact hissued ▸ Nat.le_succ _

/-- In every state of a run that meets the guard. -/
theorem trackingInv_reach (hs : (balancer cfg).Reach TracksAll s) (hissued : s.issued < 2 ^ 32) :
    TrackingInv s := by
  refine hs.invariant (I := fun s => s.issued < 2 ^ 32 → TrackingInv s) (fun _ => ?_)
    (fun {s s'} ev hr h hok hstep hissued => ?_) hissued
  · refine ⟨⟨⟨fun hd => (by cases hd), fun hx => (by cases hx)⟩, fun _ _ _ _ hd => (by cases hd)⟩,
      ⟨fun hd => (by cases hd), fun hx => (by cases hx)⟩, fun hid => (by cases hid),
      fun hd => (by cases hd), fun _ _ hd => (by cases hd), fun hd => (by cases hd)⟩
  · have hm := step_move hstep
    have hsound := sound_reach hr
    have hless : s.issued < 2 ^ 32 := hm.issued_mono.trans_lt hissued
    have h := h hless
    exact {
      routed := h.routed.next hm hsound.registering hsound.finalizing hsound.accounting
        (h.not_pending hok.1)
      ids := h.ids_next hm hsound hless
      tracked := h.tracked_next hm hsound
      untracked := h.untracked_next hm
      finalizing := h.finalizing_next hm hsound hok.2
      finalized := h.finalized_next hm hsound (accountingInv_reach (hr.step ev hok hstep)) }

/-! ## The result

From outside: an id that is tracked, or a handle that is routed, belongs to a job that is accepted
and not finalised. -/

/-- The job of this dispatch is accepted and not finalised. -/
def InFlight (s : State F) (d : Dispatch) : Prop :=
  d ∈ s.dispatches ∧ accepted s d.call = true ∧ finalizedCount s d.call = 0

/-- The aging engine and the routing maps are about jobs in flight only, and the maps are inverse to
each other. -/
structure NoGhosts (s : State F) : Prop where
  tracked : ∀ id, s.m.mAgingEngine.isTracked id = true →
    ∃ d, InFlight s d ∧ d.capturedJob.id = id
  handles : ∀ handle info, s.m.mHandleToJobInfo.lookup handle = some info →
    s.m.mJobIdToHandleMap.lookup info.jobId = some handle ∧
      ∃ d, InFlight s d ∧ d.handle = handle ∧ d.info = info
  ids : ∀ id handle, s.m.mJobIdToHandleMap.lookup id = some handle →
    ∃ info, s.m.mHandleToJobInfo.lookup handle = some info ∧ info.jobId = id
  /-- once all accepted jobs are finalised -/
  empty : (∀ i, accepted s i = true → finalizedCount s i ≠ 0) →
    s.m.mHandleToJobInfo.entries = [] ∧ s.m.mJobIdToHandleMap.entries = [] ∧
      s.m.mAgingEngine.mTracked.entries = []

/-- A dispatched job is accepted. -/
theorem AccountingInv.accepted_of_dispatched (h : AccountingInv s) {k : Nat} {d : Dispatch}
    (hd : s.dispatches[k]? = some d) : accepted s d.call = true := by
  have hone : owns d.call (some d.call) ≤
      Table.total (fun d₁ : Dispatch => owns d.call (some d₁.call)) s.dispatches :=
    Table.le_total (w := fun d₁ : Dispatch => owns d.call (some d₁.call)) hd
  rw [dispatches_le_places, owns_self] at hone
  have hplaced := h.placed d.call
  rw [show acceptedAt s.calls d.call = (accepted s d.call).toNat from rfl] at hplaced
  unfold waiting ended at hplaced
  by_contra hnot
  rw [Bool.eq_false_iff.mpr hnot, Bool.toNat_false] at hplaced
  omega

/-- A dispatch of which something is left is in flight. -/
theorem TrackingInv.inFlight (h : TrackingInv s) (ha : AccountingInv s) {k : Nat} {d : Dispatch}
    (hd : s.dispatches[k]? = some d) (hleft : d.untracked = false ∨ d.routed = true) :
    InFlight s d := by
  refine ⟨List.mem_of_getElem? hd, ha.accepted_of_dispatched hd, ?_⟩
  by_contra hfinal
  have hclean := h.finalized hd hfinal
  rcases hleft with hun | hrouted
  · rw [hclean.untracked] at hun
    cases hun
  · rw [hclean.unrouted] at hrouted
    cases hrouted

/-- **No ghosts.**  In every run in which cancels hit settled jobs, what is tracked or routed is in
flight, and nothing is left when all accepted jobs are finalised. -/
theorem no_ghosts (hs : (balancer cfg).Reach TracksAll s) (hissued : s.issued < 2 ^ 32) :
    NoGhosts s := by
  have h := trackingInv_reach hs hissued
  have ha := accountingInv_reach hs
  have htracked : ∀ id, s.m.mAgingEngine.isTracked id = true →
      ∃ d, InFlight s d ∧ d.capturedJob.id = id := by
    intro id hid
    obtain ⟨k, d, hd, hjob, hun⟩ := h.tracked hid
    exact ⟨d, h.inFlight ha hd (.inl hun), hjob⟩
  have hhandles : ∀ handle info, s.m.mHandleToJobInfo.lookup handle = some info →
      s.m.mJobIdToHandleMap.lookup info.jobId = some handle ∧
        ∃ d, InFlight s d ∧ d.handle = handle ∧ d.info = info := by
    intro handle info hinfo
    obtain ⟨k, d, hd, hrouted, rfl, rfl⟩ := h.routed.handles.owned hinfo
    exact ⟨h.ids.own hd hrouted, d, h.inFlight ha hd (.inr hrouted), rfl, rfl⟩
  have hids : ∀ id handle, s.m.mJobIdToHandleMap.lookup id = some handle →
      ∃ info, s.m.mHandleToJobInfo.lookup handle = some info ∧ info.jobId = id := by
    intro id handle hid
    obtain ⟨k, d, hd, hrouted, rfl, rfl⟩ := h.ids.owned hid
    exact ⟨d.info, h.routed.handles.own hd hrouted, rfl⟩
  refine ⟨htracked, hhandles, hids, fun hall => ?_⟩
  -- once every accepted job is finalised, an entry of any of the three tables has no owner
  have hnone : ∀ handle, s.m.mHandleToJobInfo.lookup handle = none := by
    intro handle
    cases hinfo : s.m.mHandleToJobInfo.lookup handle with
    | none => rfl
    | some info =>
        obtain ⟨-, d, ⟨-, hacc, hopen⟩, -⟩ := hhandles handle info hinfo
        exact absurd hopen (hall d.call hacc)
  refine ⟨HashMap.entries_eq_nil hnone, HashMap.entries_eq_nil fun id => ?_,
    HashMap.entries_eq_nil fun id => ?_⟩
  · cases hid : s.m.mJobIdToHandleMap.lookup id with
    | none => rfl
    | some handle =>
        obtain ⟨info, hinfo, -⟩ := hids id handle hid
        rw [hnone] at hinfo
        cases hinfo
  · cases hid : s.m.mAgingEngine.mTracked.lookup id with
    | none => rfl
    | some job =>
        obtain ⟨d, ⟨-, hacc, hopen⟩, -⟩ := htracked id (by rw [AgingEngine.isTracked, hid]; rfl)
        exact absurd hopen (hall d.call hacc)

/-- Aging is switched on. -/
def agingOn : List Event :=
  [{ actor := .toggleCall true }, { actor := .toggle 0 }, { actor := .toggle 0 },
    { actor := .toggle 0 }]

/-- A tracked job on its node. -/
theorem no_ghosts_tracked : ∃ s : State Rat, s.m.mAgingEngine.isTracked 1 = true ∧ NoGhosts s := by
  obtain ⟨s, hs, hp⟩ := exists_reach (balancer oneNode) TracksAll
    (agingOn ++ submitScript 0 {} 14 { selected := some 0, accepted := some 7 })
    (fun s => s.m.mAgingEngine.isTracked 1 && decide (s.issued < 2 ^ 32)) (by decide)
  obtain ⟨htracked, hissued⟩ := Bool.and_eq_true_iff.mp hp
  exact ⟨s, htracked, no_ghosts hs (of_decide_eq_true hissued)⟩

/-- A job completes and its node uses the handle again for the next one.  A late `cancel` of the
first finds the second between its entry into the routing maps and its tracking. -/
def lateCancel : List Event :=
  agingOn ++ submitScript 0 {} 14 { selected := some 0, accepted := some 7 } ++
    List.replicate 7 { actor := .node 0 } ++
    submitScript 1 {} 12 { selected := some 0, accepted := some 7 } ++
    [{ actor := .cancelCall 7 }, { actor := .cancel 0 },
      { actor := .cancel 0, input := { cancelReply := .ok 1 } }] ++
    List.replicate 4 { actor := .cancel 0 } ++ List.replicate 2 { actor := .submit 1 }

/-- The second job is finalised before it is tracked, and stays tracked. -/
theorem tracked_ghost : ∃ s : State Rat, (balancer oneNode).Reach DistinctHandles s ∧
    s.issued < 2 ^ 32 ∧ s.m.mAgingEngine.isTracked 2 = true ∧ ¬NoGhosts s := by
  obtain ⟨s, hs, hp⟩ := exists_reach (balancer oneNode) DistinctHandles lateCancel
    (fun s => s.issued == 2 && s.m.mAgingEngine.isTracked 2 &&
      s.dispatches.all fun d => finalizedCount s d.call != 0) (by decide)
  simp only [Bool.and_eq_true, beq_iff_eq] at hp
  obtain ⟨⟨hissued, htracked⟩, hall⟩ := hp
  refine ⟨s, hs, by rw [hissued]; decide, htracked, fun h => ?_⟩
  obtain ⟨d, ⟨hd, -, hopen⟩, -⟩ := h.tracked 2 htracked
  have := List.all_eq_true.mp hall d hd
  simp [hopen] at this

end FatpBalancer
