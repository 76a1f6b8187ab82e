/-
# Policy switches

`switchPolicy` replaces the policy in the middle of the traffic.  The increment of the counter
before the draining gate, the counter that stays raised for held jobs, and the switch mutex make the
moment of the replacement a quiet one: nobody is past the gate, and no accepted job is unfinished.
All of it rests on the counter being 0 only when nothing is in flight.

`engaged` is the notion behind the argument: a job whose call is past the draining gate and which is
not finalised yet.  Every engaged job is counted in `mSubmittedCount`, so a counter of zero means
that none is engaged, as long as the counter has not come round at 2³² (`CounterFits`).

`SwitchInv` follows the one `switchPolicy` call that holds the mutex: past the store to `mDraining`
no call gets past the gate any more, and past the load of a zero no job is engaged until the gate is
opened again.  `PolicyInv` then says of the histories that no job was selected for by one policy and
finalised under another.
-/
import FatpBalancer.Balancer.Lifecycle

universe u

namespace FatpBalancer

open Machine

variable {F : Type u} [FloatOps F] {cfg : BalancerConfig F} {inp : Input} {ev : Event}
  {s s' : State F}

/-! ## Engaged jobs

A call may read `mDraining = false` just before the store and go on; it is engaged from that reading
on, which is why the increment of the counter has to come before it. -/

/-- The call has read `mDraining = false` and has neither accepted its job nor ended. -/
def SubmitPc.pastGate : SubmitPc → Bool
  | .entered | .turnedAway | .countHeld _ | .countDispatched _ | .register _ | .returned _ => false
  | _ => true

/-- The job of call `i` is past the draining gate and not finalised yet. -/
def engaged (s : State F) (i : CallId) : Prop :=
  (∃ c, s.calls[i]? = some c ∧ c.pc.pastGate = true) ∨
    accepted s i = true ∧ finalizedCount s i = 0

/-- The layers of the admission gate are past the draining gate. -/
theorem SubmitPc.pastGate_of_gated {pc : SubmitPc} (h : pc.gated = true) : pc.pastGate = true := by
  cases pc <;> simp_all [SubmitPc.gated, SubmitPc.pastGate]

/-- Past the gate and not accepted yet. -/
theorem SubmitPc.not_accepted_of_pastGate {pc : SubmitPc} (h : pc.pastGate = true) :
    pc.accepted = false := by
  cases pc <;> simp_all [SubmitPc.accepted, SubmitPc.pastGate]

/-- How one step takes a call through its phases. -/
structure Phase (s : State F) (c c' : Call) : Prop where
  notEntered : c'.pc ≠ .entered
  pastGate : c'.pc.pastGate = true →
    c.pc.pastGate = true ∨ c.pc = .entered ∧ s.m.mDraining = false
  accepted : c'.pc.accepted = true → c.pc.accepted = true ∨ c.pc.pastGate = true

/-- A `submit` step takes its call through the phases in their order. -/
theorem SubmitMove.phase {i : CallId} {c : Call} (h : SubmitMove cfg inp s i c s') :
    ∃ c', s'.calls = s.calls.set i c' ∧ Phase s c c' := by
  cases h with
  | shut hpc hdrain =>
      exact ⟨_, rfl, by simp, by simp [SubmitPc.pastGate], by simp [SubmitPc.accepted]⟩
  | opened hpc hdrain =>
      exact ⟨_, rfl, by simp, fun _ => .inr ⟨hpc, hdrain⟩, by simp [SubmitPc.accepted]⟩
  | reject ac error hpc =>
      have hpast := SubmitPc.pastGate_of_gated hpc
      exact ⟨_, rfl, by simp, fun _ => .inl hpast, fun _ => .inr hpast⟩
  | advance ac pc hpc hpc' =>
      have hpast := SubmitPc.pastGate_of_gated hpc
      refine ⟨_, rfl, ?_, fun _ => .inl hpast, fun _ => .inr hpast⟩
      rcases hpc' with hpc' | rfl
      · rintro rfl
        cases hpc'
      · simp
  | reserve hpc | holdId hpc | enqueued job handle queue hpc | notEnqueued job error hpc
  | releaseSlot hpc | unselected error hpc | selected nodeId hpc | assignId nodeId hpc
  | refused nodeId job hpc | accepted nodeId job handle hpc =>
      have hpast : c.pc.pastGate = true := by rw [hpc]; rfl
      exact ⟨_, rfl, by simp, fun _ => .inl hpast, fun _ => .inr hpast⟩
  -- the gate is behind the call, and its job accepted
  | countHeld handle hpc | countDispatched r hpc =>
      have hacc : c.pc.accepted = true := by rw [hpc]; rfl
      exact ⟨_, rfl, by simp, by simp [SubmitPc.pastGate], fun _ => .inl hacc⟩
  | @register r t r' hpc hr =>
      have hacc : c.pc.accepted = true := by rw [hpc]; rfl
      refine ⟨_, by rw [State.submitAt, hr.sameOutside.calls], ?_, ?_, fun _ => .inl hacc⟩
      · cases r' <;> simp
      · cases r' <;> simp [SubmitPc.pastGate]
  | backOut error hpc =>
      exact ⟨_, rfl, by simp, by simp [SubmitPc.pastGate], by simp [SubmitPc.accepted]⟩

/-- The job of a call is accepted when the call says so. -/
theorem accepted_iff {i : CallId} :
    accepted s i = true ↔ ∃ c, s.calls[i]? = some c ∧ c.pc.accepted = true := by
  simp [accepted, Option.any_eq_true]

/-- A step engages a job only by letting its call through the gate. -/
theorem Move.engages (h : Move cfg ev s s') {i : CallId} (hi : engaged s' i) :
    engaged s i ∨
      (∃ c, s.calls[i]? = some c ∧ c.pc = .entered) ∧ s.m.mDraining = false := by
  have hle := h.finalizedCount_le i
  have hkeep : ∀ c : Call, s.calls[i]? = some c →
      c.pc.pastGate = true ∨ c.pc.accepted = true ∧ finalizedCount s' i = 0 →
        engaged s i := by
    rintro c hc (hpast | ⟨hacc, hzero⟩)
    · exact .inl ⟨c, hc, hpast⟩
    · exact .inr ⟨accepted_iff.mpr ⟨c, hc, hacc⟩, by omega⟩
  have hi : ∃ c', s'.calls[i]? = some c' ∧
      (c'.pc.pastGate = true ∨ c'.pc.accepted = true ∧ finalizedCount s' i = 0) := by
    rcases hi with ⟨c', hc', hpast⟩ | ⟨hacc, hzero⟩
    · exact ⟨c', hc', .inl hpast⟩
    · obtain ⟨c', hc', hacc⟩ := accepted_iff.mp hacc
      exact ⟨c', hc', .inr ⟨hacc, hzero⟩⟩
  obtain ⟨c', hc', hphase'⟩ := hi
  rcases h.call_back hc' with hentered | ⟨c, hc, rfl | ⟨-, hm⟩⟩
  · simp [hentered, SubmitPc.pastGate, SubmitPc.accepted] at hphase'
  · exact .inl (hkeep c' hc hphase')
  · obtain ⟨b, hcalls, hphase⟩ := hm.phase
    obtain rfl := call_of_set hc hc' hcalls
    rcases hphase' with hpast | ⟨hacc, hzero⟩
    · rcases hphase.pastGate hpast with hpast | ⟨hpc, hdrain⟩
      · exact .inl (hkeep c hc (.inl hpast))
      · exact .inr ⟨⟨c, hc, hpc⟩, hdrain⟩
    · rcases hphase.accepted hacc with hacc | hpast
      · exact .inl (hkeep c hc (.inr ⟨hacc, hzero⟩))
      · exact .inl (hkeep c hc (.inl hpast))

/-- A job that waits, or that a thread handles, is engaged. -/
theorem AccountingInv.engaged_of_pos (h : AccountingInv s) {i : CallId}
    (hi : 0 < waiting s i + handling s i) : engaged s i := by
  have hplaced := h.placed i
  have hsettled := h.settled i
  have hle := h.ended_le i
  rw [show acceptedAt s.calls i = (accepted s i).toNat from rfl] at hplaced
  refine .inr ⟨?_, by omega⟩
  by_contra hacc
  simp only [Bool.not_eq_true] at hacc
  rw [hacc, Bool.toNat_false] at hplaced
  omega

/-- No finalisation of an engaged job has happened. -/
theorem AccountingInv.not_finalized (h : AccountingInv s) {i : CallId} (hi : engaged s i)
    {e : CallId × PolicyId} (he : e ∈ s.finalized) : e.1 ≠ i := by
  rintro rfl
  have hpos : 0 < finalizedCount s e.1 := List.countP_pos_iff.mpr ⟨e, he, by simp⟩
  rcases hi with ⟨c, hc, hpast⟩ | ⟨-, hzero⟩
  · have hle := h.finalizedCount_le e.1
    have hacc : accepted s e.1 = false := by
      simp [accepted, hc, SubmitPc.not_accepted_of_pastGate hpast]
    rw [hacc, Bool.toNat_false] at hle
    omega
  · omega

/-! ## What a step does to the histories

A selection is noted with the policy of the moment, and so is a finalisation. -/

/-- A policy is selected for an engaged job only, and it is the installed one. -/
theorem Move.selections_cases (h : Move cfg ev s s') (ha : AccountingInv s) :
    s'.selections = s.selections ∨
      ∃ i, engaged s i ∧ s'.selections = (i, s.m.mPolicy) :: s.selections := by
  cases h with
  | submit i c hc hm =>
      cases hm with
      | unselected error hpc | selected nodeId hpc =>
          exact .inr ⟨i, .inl ⟨c, hc, by rw [hpc]; rfl⟩, rfl⟩
      | register r hpc hr => exact .inl hr.sameOutside.selections
      | _ => exact .inl rfl
  | node k d hd hm =>
      cases hm with
      | finalize f hside hf => exact .inl hf.sameOutside.selections
      | _ => exact .inl rfl
  | cancel c c' t cancels aging hm hrep =>
      cases hm with
      | finalize f hpc hf => exact .inl hf.sameOutside.selections
      | _ => exact .inl rfl
  | drain hm =>
      cases hm with
      -- the loop selects for the entry in its hands, which is in flight
      | unselected entry hpc | selected entry nodeId hpc =>
          refine .inr ⟨entry.onDone.call, ha.engaged_of_pos ?_, rfl⟩
          simp only [waiting, hpc, DrainPc.carries, owns_self]
          omega
      | dropping f hpc hf => exact .inl hf.sameOutside.selections
      | register r hpc hr => exact .inl hr.sameOutside.selections
      | _ => exact .inl rfl
  | aging hm => cases hm <;> exact .inl rfl
  | switch k pc hactor hpc hm => cases hm <;> exact .inl rfl
  | _ => exact .inl rfl

/-- The last stage notes the finalisation. -/
theorem FinalizeMove.finalized_cons {f : Finalize} {f' : Option Finalize}
    (h : FinalizeMove s f s' f') :
    s'.finalized = s.finalized ∨ s'.finalized = (f.call, s.m.mPolicy) :: s.finalized :=
  h.finalized_cases.imp And.left And.left

/-- A registration notes only that of its early-completed job. -/
theorem RegisterMove.finalized_cons {r : Register} {r' : Option Register}
    (h : RegisterMove cfg inp s r s' r') :
    s'.finalized = s.finalized ∨
      ∃ i, r.handles = some i ∧ s'.finalized = (i, s.m.mPolicy) :: s.finalized := by
  cases h with
  | finalize f hstage hf =>
      exact hf.finalized_cons.imp_right fun h => ⟨f.call, by rw [Register.handles, hstage], h⟩
  | _ => exact .inl rfl

/-- A job is finalised by the thread that handles it. -/
theorem Move.finalized_cases (h : Move cfg ev s s') (ha : AccountingInv s) :
    s'.finalized = s.finalized ∨
      ∃ i, engaged s i ∧ s'.finalized = (i, s.m.mPolicy) :: s.finalized := by
  cases h with
  | submit i c hc hm =>
      cases hm with
      | register r hpc hr =>
          refine hr.finalized_cons.imp_right fun ⟨j, hj, hf⟩ =>
            ⟨j, ha.engaged_of_pos ?_, hf⟩
          have : owns j c.pc.handles ≤ callsHandle s.calls j :=
            Table.le_total (w := fun c : Call => owns j c.pc.handles) hc
          rw [hpc, SubmitPc.handles, hj, owns_self] at this
          unfold handling
          omega
      | _ => exact .inl rfl
  | node k d hd hm =>
      cases hm with
      | finalize f hside hf =>
          refine hf.finalized_cons.imp_right fun h => ⟨f.call, ha.engaged_of_pos ?_, h⟩
          have : owns f.call d.handles + owns f.call d.early ≤ nodesHandle s.dispatches f.call :=
            Table.le_total (w := fun d : Dispatch => owns f.call d.handles + owns f.call d.early) hd
          rw [Dispatch.handles, hside, owns_self] at this
          unfold handling
          omega
      | _ => exact .inl rfl
  | cancel c c' t cancels aging hm hrep =>
      cases hm with
      | finalize f hpc hf =>
          refine hf.finalized_cons.imp_right fun h => ⟨f.call, ha.engaged_of_pos ?_, h⟩
          obtain ⟨k, hk⟩ := List.getElem?_of_mem hrep.old
          have : owns f.call c.pc.handles ≤ cancelsHandle s.allCancels f.call :=
            Table.le_total (w := fun c : CancelCall => owns f.call c.pc.handles) hk
          rw [hpc, CancelPc.handles, owns_self] at this
          unfold handling
          omega
      | _ => exact .inl rfl
  | drain hm =>
      cases hm with
      | dropping f hpc hf =>
          refine hf.finalized_cons.imp_right fun h => ⟨f.call, ha.engaged_of_pos ?_, h⟩
          simp only [handling, hpc, DrainPc.handles, owns_self]
          omega
      | register r hpc hr =>
          refine hr.finalized_cons.imp_right fun ⟨j, hj, hf⟩ =>
            ⟨j, ha.engaged_of_pos ?_, hf⟩
          simp only [handling, hpc, DrainPc.handles, hj, owns_self]
          omega
      | _ => exact .inl rfl
  | aging hm => cases hm <;> exact .inl rfl
  | switch k pc hactor hpc hm => cases hm <;> exact .inl rfl
  | _ => exact .inl rfl

/-- Two states between which no `switchPolicy` call has moved. -/
structure SwitchFrame (s s' : State F) : Prop where
  switches : s'.switches = s.switches
  draining : s'.m.mDraining = s.m.mDraining
  mutex : s'.m.mSwitchMutex = s.m.mSwitchMutex
  policy : s'.m.mPolicy = s.m.mPolicy

/-- Registration and finalisation have nothing to do with switches. -/
theorem SameOutside.switchFrame (h : SameOutside s s') : SwitchFrame s s' :=
  ⟨h.switches, h.draining, h.mutex, h.policy⟩

/-- A step belongs to a `switchPolicy` call or moves none. -/
theorem Move.switch_cases (h : Move cfg ev s s') :
    SwitchFrame s s' ∨ s' = { s with switches := s.switches ++ [.lock] } ∨
      ∃ k pc, ev.actor = .switch k ∧ s.switches[k]? = some pc ∧ SwitchMove s k pc s' := by
  cases h with
  | submit i c hc hm =>
      cases hm with
      | register r hpc hr =>
          have hframe := hr.sameOutside.switchFrame
          exact .inl ⟨hframe.switches, hframe.draining, hframe.mutex, hframe.policy⟩
      | _ => exact .inl ⟨rfl, rfl, rfl, rfl⟩
  | node k d hd hm =>
      cases hm with
      | finalize f hside hf =>
          exact .inl (modifyDispatch_sameOutside hf.sameOutside (some k) _).switchFrame
      | _ => exact .inl ⟨rfl, rfl, rfl, rfl⟩
  | cancel c c' t cancels aging hm hrep =>
      cases hm with
      | finalize f hpc hf =>
          have hframe := hf.sameOutside.switchFrame
          exact .inl ⟨hframe.switches, hframe.draining, hframe.mutex, hframe.policy⟩
      | _ => exact .inl ⟨rfl, rfl, rfl, rfl⟩
  | drain hm =>
      cases hm with
      | dropping f hpc hf =>
          have hframe := hf.sameOutside.switchFrame
          exact .inl ⟨hframe.switches, hframe.draining, hframe.mutex, hframe.policy⟩
      | register r hpc hr =>
          have hframe := hr.sameOutside.switchFrame
          exact .inl ⟨hframe.switches, hframe.draining, hframe.mutex, hframe.policy⟩
      | _ => exact .inl ⟨rfl, rfl, rfl, rfl⟩
  | aging hm => cases hm <;> exact .inl ⟨rfl, rfl, rfl, rfl⟩
  | switchCall => exact .inr (.inl rfl)
  | switch k pc hactor hpc hm => exact .inr (.inr ⟨k, pc, hactor, hpc, hm⟩)
  | _ => exact .inl ⟨rfl, rfl, rfl, rfl⟩

/-! ## The quiet moment

Three phases of the call that holds the mutex, each contained in the one before: it has the mutex,
it has shut the gate, it has read zero. -/

/-- A call that holds the switch mutex. -/
def SwitchPc.critical : SwitchPc → Bool
  | .setDraining | .spin | .swap | .resume | .unlock => true
  | .lock | .done => false

/-- Past the store to `mDraining` and before its reset. -/
def SwitchPc.shut : SwitchPc → Bool
  | .spin | .swap | .resume => true
  | _ => false

/-- Past the load that read a counter of 0. -/
def SwitchPc.drained : SwitchPc → Bool
  | .swap | .resume => true
  | _ => false

/-- The load comes after the store. -/
theorem SwitchPc.shut_of_drained {pc : SwitchPc} (h : pc.drained = true) : pc.shut = true := by
  cases pc <;> simp_all [SwitchPc.drained, SwitchPc.shut]

/-- And the store under the mutex. -/
theorem SwitchPc.critical_of_shut {pc : SwitchPc} (h : pc.shut = true) : pc.critical = true := by
  cases pc <;> simp_all [SwitchPc.critical, SwitchPc.shut]

/-- The step loads `mSubmittedCount` in `switchPolicy`. -/
def readsCounter (s : State F) (ev : Event) : Bool :=
  match ev.actor with
  | .switch k => s.switches[k]? == some .spin
  | _ => false

/-- Whenever `switchPolicy` loads the counter, the number of jobs in flight is not a positive
multiple of 2³², so that a counter of 0 means that there are none. -/
def CounterFits (s : State F) (ev : Event) : Prop :=
  readsCounter s ev = true → inFlight s % 2 ^ 32 = 0 → inFlight s = 0

instance (s : State F) (ev : Event) : Decidable (CounterFits s ev) :=
  inferInstanceAs (Decidable (_ → _ → _))

/-- Mutual exclusion, the shut gate, and no engaged job past the load. -/
structure SwitchInv (s : State F) : Prop where
  mutex : Table.total (fun pc : SwitchPc => pc.critical.toNat) s.switches =
    s.m.mSwitchMutex.toNat
  draining : ∀ (k : Nat) (pc : SwitchPc), s.switches[k]? = some pc → pc.shut = true →
    s.m.mDraining = true
  quiet : ∀ (k : Nat) (pc : SwitchPc), s.switches[k]? = some pc → pc.drained = true →
    ∀ i, ¬engaged s i

/-- No call has begun. -/
theorem SwitchInv.create (cfg : BalancerConfig F) : SwitchInv (State.create cfg) where
  mutex := rfl
  draining := by simp [State.create]
  quiet := by simp [State.create]

/-- Only one call holds the mutex. -/
theorem SwitchInv.alone (h : SwitchInv s) {j k : Nat} {pc pc' : SwitchPc}
    (hj : s.switches[j]? = some pc) (hk : s.switches[k]? = some pc') (hpc : pc.critical = true)
    (hpc' : pc'.critical = true) : j = k := by
  by_contra hne
  have hle : pc.critical.toNat + pc'.critical.toNat ≤ s.m.mSwitchMutex.toNat :=
    h.mutex ▸ Table.add_le_total (w := fun pc : SwitchPc => pc.critical.toNat) hj hk hne
  have := Bool.toNat_le s.m.mSwitchMutex
  rw [hpc, hpc', Bool.toNat_true] at hle
  omega

/-- With nothing in flight no job is engaged. -/
theorem not_engaged_of_inFlight (h : inFlight s = 0) (i : CallId) : ¬engaged s i := by
  obtain ⟨hpending, hunfinalized⟩ : pendingSubmits s = 0 ∧ unfinalizedJobs s = 0 :=
    Nat.add_eq_zero_iff.mp h
  rintro (⟨c, hc, hpast⟩ | ⟨hacc, hzero⟩)
  · have hpos : 0 < pendingSubmits s := by
      refine List.countP_pos_iff.mpr ⟨c, List.mem_of_getElem? hc, ?_⟩
      cases hpc : c.pc <;> simp_all [SubmitPc.pastGate, SubmitPc.pending, SubmitPc.accepted,
        SubmitPc.rejected]
    omega
  · have hlt : i < s.calls.length := by
      obtain ⟨c, hc, -⟩ := accepted_iff.mp hacc
      exact (List.getElem?_eq_some_iff.mp hc).1
    have hpos : 0 < unfinalizedJobs s :=
      List.countP_pos_iff.mpr ⟨i, List.mem_range.mpr hlt, by simp [hacc, hzero]⟩
    omega

/-- The moment stays quiet while the gate is shut. -/
theorem Move.quiet (h : Move cfg ev s s') (hdrain : s.m.mDraining = true)
    (hquiet : ∀ i, ¬engaged s i) (i : CallId) : ¬engaged s' i := by
  intro hi
  rcases h.engages hi with hi | ⟨-, hopen⟩
  · exact hquiet i hi
  · rw [hdrain] at hopen
    cases hopen

/-- One `switchPolicy` call goes from `pc` to `pc'`. -/
theorem SwitchInv.replace (h : SwitchInv s) {k : Nat} {pc : SwitchPc}
    (hpc : s.switches[k]? = some pc) (pc' : SwitchPc) {m : Members F}
    (hmutex : m.mSwitchMutex.toNat + pc.critical.toNat =
      s.m.mSwitchMutex.toNat + pc'.critical.toNat)
    (hothers : m.mDraining = s.m.mDraining ∨ pc.critical = true)
    (hdraining : pc'.shut = true → m.mDraining = true)
    (hquiet : pc'.drained = true → ∀ i, ¬engaged s i) :
    SwitchInv { s with m := m, switches := s.switches.set k pc' } where
  mutex := by
    have hset := Table.total_set (w := fun pc : SwitchPc => pc.critical.toNat) hpc pc'
    have := h.mutex
    dsimp only at hset ⊢
    omega
  draining := by
    intro j x hj hx
    rcases Table.getElem?_set_cases hj with ⟨rfl, rfl⟩ | ⟨hne, hj⟩
    · exact hdraining hx
    · rcases hothers with hsame | hcritical
      · exact hsame.trans (h.draining j x hj hx)
      · exact absurd (h.alone hj hpc (SwitchPc.critical_of_shut hx) hcritical) hne
  quiet := by
    intro j x hj hx
    rcases Table.getElem?_set_cases hj with ⟨rfl, rfl⟩ | ⟨-, hj⟩
    · exact hquiet hx
    · exact h.quiet j x hj hx

/-- The steps of the calls of `switchPolicy` themselves. -/
theorem SwitchInv.switch (h : SwitchInv s) (ha : AccountingInv s) {k : Nat} {pc : SwitchPc}
    (hactor : ev.actor = .switch k) (hfits : CounterFits s ev)
    (hpc : s.switches[k]? = some pc) (hm : SwitchMove s k pc s') : SwitchInv s' := by
  cases hm with
  | lock hlock hmutex =>
      subst hlock
      exact h.replace hpc _ (by rw [hmutex]; rfl) (.inl rfl) (by simp [SwitchPc.shut])
        (by simp [SwitchPc.drained])
  -- from the flag on, no call passes the gate
  | setDraining hset =>
      subst hset
      exact h.replace hpc _ rfl (.inr rfl) (fun _ => rfl) (by simp [SwitchPc.drained])
  | spinOn hspin hcount =>
      subst hspin
      exact h.replace hpc _ rfl (.inl rfl) (fun _ => h.draining k _ hpc rfl)
        (by simp [SwitchPc.drained])
  | spinOff hspin hcount =>
      subst hspin
      -- the counter is 0 and fits, so nothing is in flight
      have hreads : readsCounter s ev = true := by simp [readsCounter, hactor, hpc]
      have hzero : inFlight s = 0 := hfits hreads (ha.submittedCount_eq ▸ hcount)
      exact h.replace hpc _ rfl (.inl rfl) (fun _ => h.draining k _ hpc rfl)
        (fun _ => not_engaged_of_inFlight hzero)
  | swap hswap =>
      subst hswap
      exact h.replace hpc _ rfl (.inl rfl) (fun _ => h.draining k _ hpc rfl)
        (fun _ => h.quiet k _ hpc rfl)
  | resume hresume =>
      subst hresume
      exact h.replace hpc _ rfl (.inr rfl) (by simp [SwitchPc.shut]) (by simp [SwitchPc.drained])
  -- whoever unlocks holds the mutex
  | unlock hunlock =>
      subst hunlock
      have hheld : s.m.mSwitchMutex.toNat = 1 := by
        have hle : SwitchPc.unlock.critical.toNat ≤ s.m.mSwitchMutex.toNat :=
          h.mutex ▸ Table.le_total (w := fun pc : SwitchPc => pc.critical.toNat) hpc
        have := Bool.toNat_le s.m.mSwitchMutex
        simp only [SwitchPc.critical, Bool.toNat_true] at hle
        omega
      exact h.replace hpc _ (by rw [hheld]; rfl) (.inl rfl) (by simp [SwitchPc.shut])
        (by simp [SwitchPc.drained])

/-- Every step, under the condition on the load. -/
theorem SwitchInv.step (h : SwitchInv s) (ha : AccountingInv s) (hfits : CounterFits s ev)
    (hm : Move cfg ev s s') : SwitchInv s' := by
  rcases hm.switch_cases with hframe | rfl | ⟨k, pc, hactor, hpc, hswitch⟩
  · refine ⟨?_, ?_, ?_⟩
    · rw [hframe.switches, hframe.mutex, h.mutex]
    · rw [hframe.switches, hframe.draining]
      exact h.draining
    · rw [hframe.switches]
      intro k pc hk hpc
      exact hm.quiet (h.draining k pc hk (SwitchPc.shut_of_drained hpc)) (h.quiet k pc hk hpc)
  · refine ⟨by simpa [SwitchPc.critical] using h.mutex, fun k pc hk hpc => ?_,
      fun k pc hk hpc => ?_⟩
    · rcases Table.getElem?_append_cases hk with hk | rfl
      · exact h.draining k pc hk hpc
      · cases hpc
    · rcases Table.getElem?_append_cases hk with hk | rfl
      · exact h.quiet k pc hk hpc
      · cases hpc
  · exact h.switch ha hactor hfits hpc hswitch

/-- In every state of a run whose loads of the counter fit. -/
theorem switchInv_reach (hs : (balancer cfg).Reach CounterFits s) : SwitchInv s :=
  hs.invariant (.create cfg) fun _ hr h hok hstep =>
    h.step (accountingInv_reach hr) hok (step_move hstep)

/-! ## One policy for each job

A job is selected for and finalised while it is engaged, and the policy changes only when no job is.
-/

/-- What the histories say about the policies. -/
structure PolicyInv (s : State F) : Prop where
  known : ∀ e ∈ s.selections, ∃ c, s.calls[e.1]? = some c ∧ c.pc ≠ .entered
  current : ∀ e ∈ s.selections, engaged s e.1 → e.2 = s.m.mPolicy
  same : ∀ e ∈ s.selections, ∀ e' ∈ s.selections, e.1 = e'.1 → e.2 = e'.2
  final : ∀ e ∈ s.selections, ∀ e' ∈ s.finalized, e.1 = e'.1 → e.2 = e'.2

/-- The histories are empty. -/
theorem PolicyInv.create (cfg : BalancerConfig F) : PolicyInv (State.create cfg) where
  known := by simp [State.create]
  current := by simp [State.create]
  same := by simp [State.create]
  final := by simp [State.create]

/-- A call that has passed the gate stays past it. -/
theorem Move.known (h : Move cfg ev s s') {i : CallId}
    (hi : ∃ c, s.calls[i]? = some c ∧ c.pc ≠ .entered) :
    ∃ c, s'.calls[i]? = some c ∧ c.pc ≠ .entered := by
  obtain ⟨c, hc, hpc⟩ := hi
  rcases h.call_cases hc with hsame | ⟨-, hm⟩
  · exact ⟨c, hsame, hpc⟩
  · obtain ⟨c', hcalls, hphase⟩ := hm.phase
    refine ⟨c', ?_, hphase.notEntered⟩
    rw [hcalls, List.getElem?_set_self (List.getElem?_eq_some_iff.mp hc).1]

/-- The policy changes in one step of `switchPolicy` and in no other. -/
theorem Move.policy_cases (h : Move cfg ev s s') :
    s'.m.mPolicy = s.m.mPolicy ∨ ∃ k : Nat, s.switches[k]? = some .swap := by
  rcases h.switch_cases with hframe | rfl | ⟨k, pc, -, hpc, hswitch⟩
  · exact .inl hframe.policy
  · exact .inl rfl
  · cases hswitch with
    | swap hswap => exact .inr ⟨k, hswap ▸ hpc⟩
    | _ => exact .inl rfl

/-- While a job is engaged the policy stays. -/
theorem SwitchInv.policy_eq (h : SwitchInv s) (hm : Move cfg ev s s') {i : CallId}
    (hi : engaged s i) : s'.m.mPolicy = s.m.mPolicy := by
  rcases hm.policy_cases with hpolicy | ⟨k, hk⟩
  · exact hpolicy
  · exact absurd hi (h.quiet k .swap hk rfl i)

/-- A new entry of a history has the policy of the moment. -/
theorem PolicyInv.step (h : PolicyInv s) (ha : AccountingInv s) (hswitch : SwitchInv s)
    (hm : Move cfg ev s s') : PolicyInv s' := by
  -- a selection after the step is an old one, or the installed policy for an engaged job
  have hsel : ∀ e ∈ s'.selections,
      e ∈ s.selections ∨ engaged s e.1 ∧ e.2 = s.m.mPolicy := by
    intro e he
    rcases hm.selections_cases ha with hsame | ⟨i, hi, hcons⟩
    · exact .inl (hsame ▸ he)
    · rw [hcons] at he
      rcases List.mem_cons.mp he with rfl | he
      · exact .inr ⟨hi, rfl⟩
      · exact .inl he
  -- and likewise for a finalisation
  have hfin : ∀ e ∈ s'.finalized, e ∈ s.finalized ∨ engaged s e.1 ∧ e.2 = s.m.mPolicy := by
    intro e he
    rcases hm.finalized_cases ha with hsame | ⟨i, hi, hcons⟩
    · exact .inl (hsame ▸ he)
    · rw [hcons] at he
      rcases List.mem_cons.mp he with rfl | he
      · exact .inr ⟨hi, rfl⟩
      · exact .inl he
  refine ⟨fun e he => hm.known ?_, fun e he hi => ?_, fun e he e' he' heq => ?_,
    fun e he e' he' heq => ?_⟩
  · rcases hsel e he with he | ⟨hi, -⟩
    · exact h.known e he
    · rcases hi with ⟨c, hc, hpast⟩ | ⟨hacc, -⟩
      · exact ⟨c, hc, fun hpc => by simp [hpc, SubmitPc.pastGate] at hpast⟩
      · obtain ⟨c, hc, hacc⟩ := accepted_iff.mp hacc
        exact ⟨c, hc, fun hpc => by simp [hpc, SubmitPc.accepted] at hacc⟩
  · rcases hsel e he with he | ⟨hi, hpolicy⟩
    · obtain ⟨c, hc, hpc⟩ := h.known e he
      have hi : engaged s e.1 := by
        rcases hm.engages hi with hi | ⟨⟨d, hd, hentered⟩, -⟩
        · exact hi
        · exact absurd (Option.some.inj (hc.symm.trans hd) ▸ hentered) hpc
      rw [hswitch.policy_eq hm hi]
      exact h.current e he hi
    · rw [hswitch.policy_eq hm hi]
      exact hpolicy
  · rcases hsel e he with he | ⟨hi, hpolicy⟩ <;> rcases hsel e' he' with he' | ⟨hi', hpolicy'⟩
    · exact h.same e he e' he' heq
    -- an old selection of an engaged job was made by the installed policy
    · rw [hpolicy', h.current e he (heq ▸ hi')]
    · rw [hpolicy, h.current e' he' (heq ▸ hi)]
    · rw [hpolicy, hpolicy']
  · rcases hsel e he with he | ⟨hi, hpolicy⟩ <;> rcases hfin e' he' with he' | ⟨hi', hpolicy'⟩
    · exact h.final e he e' he' heq
    · rw [hpolicy', h.current e he (heq ▸ hi')]
    -- a finalised job is selected for no more
    · exact absurd heq.symm (ha.not_finalized hi he')
    · rw [hpolicy, hpolicy']

/-- In every state of such a run. -/
theorem policyInv_reach (hs : (balancer cfg).Reach CounterFits s) : PolicyInv s :=
  hs.invariant (.create cfg) fun _ hr h _ hstep =>
    h.step (accountingInv_reach hr) (switchInv_reach hr) (step_move hstep)

/-- What `switchPolicy` promises of a reachable state. -/
structure SwitchSafe (s : State F) : Prop where
  /-- before the replacement nobody is past the gate, nothing accepted is unfinished and nothing
  is held -/
  quiescent : ∀ k : Nat, s.switches[k]? = some .swap →
    (∀ c ∈ s.calls, c.pc.pastGate = false) ∧
      (∀ i, accepted s i = true → finalizedCount s i = 1) ∧ s.m.mHoldingQueue.entries = []
  /-- all selections for one job are made by one policy -/
  onePolicy : ∀ i p q, (i, p) ∈ s.selections → (i, q) ∈ s.selections → p = q
  /-- which is still installed when the job is finalised -/
  stillInstalled : ∀ i p q, (i, p) ∈ s.selections → (i, q) ∈ s.finalized → p = q

/-- **A switch is quiet and no job is routed by two policies**, in every run in which the counter
that `switchPolicy` loads has not wrapped to 0. -/
theorem switchPolicy_safe (hs : (balancer cfg).Reach CounterFits s) : SwitchSafe s := by
  have ha := accountingInv_reach hs
  have hsw := switchInv_reach hs
  have hp := policyInv_reach hs
  refine ⟨fun k hk => ?_, fun i p q hi hj => hp.same _ hi _ hj rfl,
    fun i p q hi hj => hp.final _ hi _ hj rfl⟩
  have hquiet := hsw.quiet k .swap hk rfl
  refine ⟨fun c hc => ?_, fun i hi => ?_, ?_⟩
  -- the calls, the accepted jobs, the queue: whatever is left would be engaged
  · by_contra hpast
    obtain ⟨i, hi⟩ := List.getElem?_of_mem hc
    exact hquiet i (.inl ⟨c, hi, by simpa using hpast⟩)
  · have hle := ha.finalizedCount_le i
    rw [hi, Bool.toNat_true] at hle
    by_contra hne
    exact hquiet i (.inr ⟨hi, by omega⟩)
  · by_contra hne
    obtain ⟨e, he⟩ := List.exists_mem_of_ne_nil _ hne
    refine hquiet e.onDone.call (ha.engaged_of_pos ?_)
    obtain ⟨k, hk⟩ := List.getElem?_of_mem he
    have : owns e.onDone.call (some e.onDone.call) ≤
        heldJobs s.m.mHoldingQueue.entries e.onDone.call :=
      Table.le_total (w := fun x : HeldEntry => owns e.onDone.call (some x.onDone.call)) hk
    rw [owns_self] at this
    unfold waiting
    omega

/-- A switch that completes around a finished job. -/
theorem switchPolicy_safe_run : ∃ s : State Rat, s.m.mPolicy = 1 ∧ SwitchSafe s := by
  obtain ⟨s, hs, hp⟩ := exists_reach (balancer oneNode) CounterFits
    (submitScript 0 {} 13 { selected := some 0, accepted := some 7 } ++
      List.replicate 7 { actor := .node 0 } ++
      { actor := .switchCall } :: List.replicate 6 { actor := .switch 0 })
    (fun s => s.m.mPolicy == 1) (by decide)
  exact ⟨s, by simpa using hp, switchPolicy_safe hs⟩

/-- With 2³² jobs in flight `switchPolicy` does not wait for any of them. -/
theorem switchPolicy_wraps : ∃ s : State Rat, (balancer oneNode).Reach anyEvent s ∧
    s.switches[0]? = some .swap ∧ accepted s 0 = true ∧ finalizedCount s 0 = 0 ∧
      ¬SwitchSafe s := by
  obtain ⟨s, hs, hf⟩ := flooded_reach (2 ^ 32)
  have hzero : s.m.mSubmittedCount = 0 := by
    rw [(accountingInv_reach hs).submittedCount_eq, hf.inFlight_eq hs, Nat.mod_self]
  obtain ⟨c, hc⟩ : ∃ c, s.calls[0]? = some c :=
    ⟨_, List.getElem?_eq_getElem (by rw [hf.length]; exact Nat.two_pow_pos 32)⟩
  have hacc : accepted s 0 = true := by
    obtain ⟨handle, hpc⟩ := hf.accepted c (List.mem_of_getElem? hc)
    exact accepted_iff.mpr ⟨c, hc, by rw [hpc]; rfl⟩
  have hfin : finalizedCount s 0 = 0 := by simp [finalizedCount, hf.unfinalized]
  have hswap : (balancer oneNode).Reach anyEvent
      { s with m.mSwitchMutex := true, m.mDraining := true, switches := [.swap] } := by
    refine hs.run ({ actor := .switchCall } :: List.replicate 3 { actor := .switch 0 }) ?_
    simp [run, balancer, step, switchStep, List.replicate, hf.idle, hzero]
  refine ⟨_, hswap, rfl, hacc, hfin, fun hsafe => ?_⟩
  have hone : finalizedCount s 0 = 1 := (hsafe.quiescent 0 rfl).2.1 0 hacc
  rw [hfin] at hone
  cases hone

end FatpBalancer
