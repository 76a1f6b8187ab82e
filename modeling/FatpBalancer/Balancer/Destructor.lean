/-
# The destructor

`~Balancer` shuts the gate, waits for `mSubmittedCount` to reach zero, and stops the two threads of
the balancer.  The callbacks on the worker threads of the nodes it does not wait for: that none of
them touches a member afterwards rests on the counter alone, which `finalizeJobLifecycle` decrements
last.

The caller has to be done with the balancer: no call may be under way when the destructor begins,
and none may begin later.  `setAgingEnabled` is taken to be called by one thread at a time; two
calls that overlap can leave the aging thread running behind a cleared flag.

`Lifetime` adds the destructor's program counter and the drain thread's own flags to the state of
the balancer, and `lifetime` is the machine of both.  `Owned` is the condition on a run: what the
caller owes, and that the 32-bit counter reads zero only when no job is in flight.

Three invariants make up the proof.  `TogglesInv` ties the aging flag to the existence of the aging
thread, through the calls that raise it and take it down.  `NothingLeft` says what an idle balancer
with no engaged job looks like: no call, no held entry, no dispatch that is still to be finalised.
`LifetimeInv` follows the destructor's program counter and says at each stage which of the threads
are gone.
-/
import FatpBalancer.Balancer.Rest
import FatpBalancer.Balancer.Switching

universe u

namespace FatpBalancer

open Machine

variable {F : Type u} [FloatOps F] {cfg : BalancerConfig F}

/-! ## The model

The destructor is one more thread, whose steps are the statements of `~Balancer` and of the two
functions it calls.  Joining a thread is enabled when the thread has returned. -/

/-- Where the destructor stands: the gate, the spin, and the two threads it stops one after the
other. -/
inductive DestructorPc
  | setDraining
  | spin
  /-- `stopAgingThread` -/
  | stopAging
  | raiseAgingStop
  | joinAging
  /-- `stopHoldingDrainThread` -/
  | stopDrain
  | raiseDrainStop
  | joinDrain
  | destroyed
  deriving DecidableEq, Repr

/-- A balancer from its construction on. -/
structure Lifetime (F : Type u) [FloatOps F] where
  balancer : State F
  /-- none until the destructor is called -/
  destructor : Option DestructorPc := none
  mHoldingDrainRunning : Bool := true
  mHoldingDrainStop : Bool := false
  /-- `holdingDrainLoop` has returned -/
  drainExited : Bool := false

/-- A step of some thread, the beginning of the destructor, or one of its steps. -/
inductive LifetimeEvent
  | thread (ev : Event)
  /-- the destructor is called -/
  | destroy
  | destructor

/-- The drain thread is at its wait, where it reads its stop flag. -/
def DrainPc.isWaiting : DrainPc → Bool
  | .waiting => true
  | _ => false

namespace Lifetime

/-- A step of a thread other than the one in the destructor. -/
def threadStep (cfg : BalancerConfig F) (l : Lifetime F) (ev : Event) : Option (Lifetime F) :=
  match ev.actor with
  | .drain =>
      if l.drainExited then none
      -- the flag is read outside the inner loop only
      else if l.mHoldingDrainStop && l.balancer.drain.isWaiting then
        some { l with drainExited := true }
      else (FatpBalancer.step cfg l.balancer ev).map fun s => { l with balancer := s }
  | _ => (FatpBalancer.step cfg l.balancer ev).map fun s => { l with balancer := s }

/-- One statement of the destructor; `none` while it has to wait for a thread to return. -/
def destructorStep (l : Lifetime F) (pc : DestructorPc) : Option (Lifetime F) :=
  let goto (l : Lifetime F) (pc : DestructorPc) : Lifetime F := { l with destructor := some pc }
  match pc with
  | .setDraining => some (goto { l with balancer.m.mDraining := true } .spin)
  | .spin => some (goto l (if l.balancer.m.mSubmittedCount = 0 then .stopAging else .spin))
  | .stopAging =>
      if l.balancer.m.mAgingEnabled then
        some (goto { l with balancer.m.mAgingEnabled := false } .raiseAgingStop)
      else some (goto l .stopDrain)
  | .raiseAgingStop => some (goto { l with balancer.m.mAgingThreadStop := true } .joinAging)
  | .joinAging =>
      match l.balancer.aging with
      -- not joinable
      | .absent => some (goto l .stopDrain)
      | .exited => some (goto { l with balancer.aging := .absent } .stopDrain)
      | _ => none
  | .stopDrain =>
      if l.mHoldingDrainRunning then
        some (goto { l with mHoldingDrainRunning := false } .raiseDrainStop)
      else some (goto l .destroyed)
  | .raiseDrainStop => some (goto { l with mHoldingDrainStop := true } .joinDrain)
  | .joinDrain => if l.drainExited then some (goto l .destroyed) else none
  | .destroyed => none

/-- A step of the balancer and its destructor. -/
def step (cfg : BalancerConfig F) (l : Lifetime F) : LifetimeEvent → Option (Lifetime F)
  | .thread ev => l.threadStep cfg ev
  | .destroy => if l.destructor = none then some { l with destructor := some .setDraining } else none
  | .destructor => l.destructor.bind l.destructorStep

end Lifetime

/-- The balancer from its construction to its destruction. -/
def lifetime (cfg : BalancerConfig F) : Machine (Lifetime F) LifetimeEvent where
  init := { balancer := .create cfg }
  step := Lifetime.step cfg

/-! ## What the caller owes

C++ leaves these conditions to the owner of an object: nobody may be inside a member function when
the destructor begins, and nobody may enter one afterwards. -/

/-- The event is a call of a member function. -/
def Event.isCall (ev : Event) : Bool :=
  match ev.actor with
  | .submitCall _ | .cancelCall _ | .switchCall | .toggleCall _ | .setShedBulk _
  | .setAdmissionStrict _ | .setDegradationEnabled _ => true
  | _ => false

/-- No `setAgingEnabled` call is under way. -/
def togglesDone (s : State F) : Bool := s.toggles.all (· == .done)

/-- Every call has returned. -/
def callersDone (s : State F) : Bool :=
  s.calls.all (fun c => c.pc.isReturned) && s.cancels.all (fun c => c.pc.isReturned) &&
    s.switches.all (· == .done) && togglesDone s

/-- The event begins a `setAgingEnabled` call. -/
def Actor.isToggleCall : Actor → Bool
  | .toggleCall _ => true
  | _ => false

/-- The caller is done with the balancer when it destroys it, and `mSubmittedCount` fits whenever
the destructor reads it. -/
def Owned (l : Lifetime F) : LifetimeEvent → Prop
  | .thread ev =>
      (ev.isCall = true → l.destructor = none) ∧
        (ev.actor.isToggleCall = true → togglesDone l.balancer = true)
  | .destroy => callersDone l.balancer = true
  | .destructor =>
      l.destructor = some .spin → inFlight l.balancer % 2 ^ 32 = 0 → inFlight l.balancer = 0

instance (l : Lifetime F) (e : LifetimeEvent) : Decidable (Owned l e) :=
  match e with
  | .thread _ => inferInstanceAs (Decidable ((_ → _) ∧ (_ → _)))
  | .destroy => inferInstanceAs (Decidable (_ = true))
  | .destructor => inferInstanceAs (Decidable (_ → _ → _))

/-! ## The aging thread and its flag

`stopAgingThread` joins the thread only when `mAgingEnabled` is up.  So the flag has to be up
whenever the thread is there, which is so between calls that do not overlap. -/

variable {ev : Event} {s s' : State F}

/-- What only `setAgingEnabled` writes. -/
def SameToggles (s s' : State F) : Prop :=
  s'.toggles = s.toggles ∧ s'.m.mAgingEnabled = s.m.mAgingEnabled

/-- Dispatches have nothing to do with the aging flag. -/
theorem modifyDispatch_sameToggles (h : SameToggles s s') (k : Option Nat)
    (g : Dispatch → Dispatch) : SameToggles s (modifyDispatch s' k g) := by
  cases k with
  | none => exact h
  | some k => exact h

/-- Nor has finalisation. -/
theorem FinalizeMove.sameToggles {f : Finalize} {f' : Option Finalize}
    (h : FinalizeMove s f s' f') : SameToggles s s' := by
  cases h with
  | unroute handle =>
      apply modifyDispatch_sameToggles
      unfold eraseRoutingState
      split <;> exact ⟨rfl, rfl⟩
  | untrack =>
      apply modifyDispatch_sameToggles
      exact ⟨rfl, rfl⟩
  | _ => exact ⟨rfl, rfl⟩

/-- Nor has registration. -/
theorem RegisterMove.sameToggles {inp : Input} {r : Register} {r' : Option Register}
    (h : RegisterMove cfg inp s r s' r') : SameToggles s s' := by
  cases h with
  | finalize f hstage hf => exact hf.sameToggles
  | _ => exact ⟨rfl, rfl⟩

/-- An event of no `setAgingEnabled` call. -/
def Actor.isToggle : Actor → Bool
  | .toggle _ | .toggleCall _ => true
  | _ => false

/-- Without `setAgingEnabled` the flag stays, and no aging thread comes into being. -/
theorem step_sameToggles (h : step cfg s ev = some s') (hactor : ev.actor.isToggle = false) :
    SameToggles s s' ∧ (s.aging = .absent → s'.aging = .absent) := by
  cases hev : ev.actor <;> simp only [step, hev, Option.some.injEq] at h
  case submit i =>
    obtain ⟨c, hc, h⟩ := Option.bind_eq_some_iff.mp h
    have hm := submitStep_move h
    cases hm with
    | register r hpc hr => exact ⟨hr.sameToggles, fun h => hr.sameOutside.aging.trans h⟩
    | _ => exact ⟨⟨rfl, rfl⟩, id⟩
  case node k =>
    obtain ⟨d, hd, h⟩ := Option.bind_eq_some_iff.mp h
    have hm := nodeStep_move h
    refine ⟨?_, fun h => hm.threads.2.2.2.2.trans h⟩
    cases hm with
    | finalize f hside hf => exact modifyDispatch_sameToggles hf.sameToggles _ _
    | _ => exact ⟨rfl, rfl⟩
  case cancel k =>
    obtain ⟨c, hc, h⟩ := Option.bind_eq_some_iff.mp h
    obtain ⟨r, hr, rfl⟩ := Option.map_eq_some_iff.mp h
    have hm := cancelStep_move hr
    refine ⟨?_, fun h => hm.threads.2.2.2.2.trans h⟩
    generalize r.1 = t, r.2 = c' at hm ⊢
    cases hm with
    | finalize f hpc hf => exact hf.sameToggles
    | _ => exact ⟨rfl, rfl⟩
  case switch k =>
    obtain ⟨pc, hpc, h⟩ := Option.bind_eq_some_iff.mp h
    have hm := switchStep_move h
    cases hm <;> exact ⟨⟨rfl, rfl⟩, id⟩
  case drain =>
    have hm := drainStep_move h
    refine ⟨?_, fun h => hm.threads.2.2.2.trans h⟩
    cases hm with
    | dropping f hpc hf => exact hf.sameToggles
    | register r hpc hr => exact hr.sameToggles
    | _ => exact ⟨rfl, rfl⟩
  case aging =>
    rcases agingStep_move h with hm | ⟨c, expired, t, c', hpc, hm, rfl⟩
    · cases hm <;> exact ⟨⟨rfl, rfl⟩, fun h => by simp_all⟩
    · refine ⟨?_, fun h => by simp_all⟩
      cases hm with
      | finalize f hpc hf => exact hf.sameToggles
      | _ => exact ⟨rfl, rfl⟩
  case toggle k => rw [hev] at hactor; cases hactor
  case toggleCall enabled => rw [hev] at hactor; cases hactor
  all_goals
    subst h
    exact ⟨⟨rfl, rfl⟩, id⟩

/-- On the way to starting the thread. -/
def TogglePc.starting : TogglePc → Bool
  | .clearStop | .spawn => true
  | _ => false

/-- On the way to joining it. -/
def TogglePc.stopping : TogglePc → Bool
  | .raiseStop | .join => true
  | _ => false

/-- One `setAgingEnabled` at a time: the aging thread is absent while its flag is down, but for the
call that is taking it down. -/
structure TogglesInv (s : State F) : Prop where
  serial : ∀ {j k : Nat} {pc pc' : TogglePc}, s.toggles[j]? = some pc → s.toggles[k]? = some pc' →
    pc ≠ .done → pc' ≠ .done → j = k
  starting : ∀ {k : Nat} {pc : TogglePc}, s.toggles[k]? = some pc → pc.starting = true →
    s.m.mAgingEnabled = true
  stopped : s.m.mAgingEnabled = false → (∀ pc ∈ s.toggles, pc.stopping = false) →
    s.aging = .absent

/-- A step that writes none of it keeps the invariant. -/
theorem TogglesInv.frame (h : TogglesInv s) (hsame : SameToggles s s')
    (haging : s.aging = .absent → s'.aging = .absent) : TogglesInv s' := by
  obtain ⟨htoggles, henabled⟩ := hsame
  refine ⟨?_, ?_, ?_⟩
  · rw [htoggles]
    exact h.serial
  · rw [htoggles, henabled]
    exact h.starting
  · rw [htoggles, henabled]
    intro hoff hnone
    exact haging (h.stopped hoff hnone)

/-- With no call under way, each of them is done. -/
theorem done_of_togglesDone (hdone : togglesDone s = true) {pc : TogglePc} (hpc : pc ∈ s.toggles) :
    pc = .done :=
  beq_iff_eq.mp (List.all_eq_true.mp hdone pc hpc)

/-- With the flag down and no call under way, the thread is absent. -/
theorem TogglesInv.absent (h : TogglesInv s) (hdone : togglesDone s = true)
    (hoff : s.m.mAgingEnabled = false) : s.aging = .absent := by
  refine h.stopped hoff fun pc hpc => ?_
  rw [done_of_togglesDone hdone hpc]
  rfl

/-- A call may begin when the others are done. -/
theorem TogglesInv.call (h : TogglesInv s) (hdone : togglesDone s = true) (enabled : Bool) :
    TogglesInv { s with toggles := s.toggles ++ [.exchange enabled] } := by
  have hold : ∀ {k : Nat} {pc : TogglePc}, s.toggles[k]? = some pc → pc = .done := fun hk =>
    done_of_togglesDone hdone (List.mem_of_getElem? hk)
  refine ⟨?_, ?_, ?_⟩
  · intro j k pc pc' hj hk hpc hpc'
    rcases Table.getElem?_concat_cases hj with hj | ⟨rfl, -⟩
    · exact absurd (hold hj) hpc
    · rcases Table.getElem?_concat_cases hk with hk | ⟨rfl, -⟩
      · exact absurd (hold hk) hpc'
      · rfl
  · intro k pc hk hpc
    rcases Table.getElem?_concat_cases hk with hk | ⟨-, rfl⟩
    · rw [hold hk] at hpc
      cases hpc
    · cases hpc
  · intro hoff _
    exact h.absent hdone hoff

/-- The call under way goes on at `pc'`. -/
theorem TogglesInv.replace (h : TogglesInv s) {k : Nat} {pc : TogglePc}
    (hpc : s.toggles[k]? = some pc) (hopen : pc ≠ .done) {pc' : TogglePc}
    (htoggles : s'.toggles = s.toggles.set k pc')
    (hstarting : pc'.starting = true → s'.m.mAgingEnabled = true)
    (hstopped : s'.m.mAgingEnabled = false → pc'.stopping = false → s'.aging = .absent) :
    TogglesInv s' := by
  have hother : ∀ {j x}, j ≠ k → s.toggles[j]? = some x → x = .done := by
    intro j x hne hj
    by_contra hx
    exact hne (h.serial hj hpc hx hopen)
  refine ⟨?_, ?_, ?_⟩
  · intro i j x x' hi hj hx hx'
    rw [htoggles] at hi hj
    rcases Table.getElem?_set_cases hi with ⟨rfl, -⟩ | ⟨hne, hi⟩
    · rcases Table.getElem?_set_cases hj with ⟨rfl, -⟩ | ⟨hne, hj⟩
      · rfl
      · exact absurd (hother hne hj) hx'
    · exact absurd (hother hne hi) hx
  · intro j x hj hx
    rw [htoggles] at hj
    rcases Table.getElem?_set_cases hj with ⟨rfl, rfl⟩ | ⟨hne, hj⟩
    · exact hstarting hx
    · rw [hother hne hj] at hx
      cases hx
  · intro hoff hnone
    refine hstopped hoff (hnone pc' ?_)
    rw [htoggles]
    exact List.mem_of_getElem? (List.getElem?_set_self (List.getElem?_eq_some_iff.mp hpc).1)

/-- The steps of the one call that is under way. -/
theorem TogglesInv.toggle (h : TogglesInv s) {k : Nat} {pc : TogglePc}
    (hpc : s.toggles[k]? = some pc) (hstep : toggleStep s k pc = some s') : TogglesInv s' := by
  cases pc with
  | exchange enabled =>
      have hoff : s.m.mAgingEnabled = false → s.aging = .absent := by
        intro hoff
        refine h.stopped hoff fun x hx => ?_
        obtain ⟨j, hj⟩ := List.getElem?_of_mem hx
        by_contra hx
        -- this call is the one that is under way
        obtain rfl := h.serial hj hpc (by rintro rfl; exact hx rfl) (by simp)
        obtain rfl := Option.some.inj (hj.symm.trans hpc)
        exact hx rfl
      simp only [toggleStep] at hstep
      split at hstep
      · cases hstep
        exact h.replace hpc (by simp) rfl (fun h => by cases h) fun h _ => hoff h
      · cases hstep
        refine h.replace hpc (by simp) rfl ?_ ?_
        · cases enabled <;> simp [TogglePc.starting]
        · cases enabled <;> simp [TogglePc.stopping]
  | clearStop =>
      cases hstep
      have hon := h.starting hpc rfl
      exact h.replace hpc (by simp) rfl (fun _ => hon) fun hoff => by simp [hon] at hoff
  | spawn =>
      have hon := h.starting hpc rfl
      simp only [toggleStep] at hstep
      split at hstep <;> cases hstep
      exact h.replace hpc (by simp) rfl (fun _ => hon) fun hoff => by simp [hon] at hoff
  | raiseStop =>
      cases hstep
      exact h.replace hpc (by simp) rfl (fun h => by cases h) fun _ h => by cases h
  | join =>
      simp only [toggleStep] at hstep
      split at hstep <;> cases hstep
      · next haging =>
          exact h.replace hpc (by simp) rfl (fun h => by cases h) fun _ _ => haging
      · exact h.replace hpc (by simp) rfl (fun h => by cases h) fun _ _ => rfl
  | done => cases hstep

/-- Every step of the balancer, under the condition that calls do not overlap. -/
theorem TogglesInv.step (h : TogglesInv s)
    (hserial : ev.actor.isToggleCall = true → togglesDone s = true)
    (hstep : step cfg s ev = some s') : TogglesInv s' := by
  cases htoggle : ev.actor.isToggle with
  | false =>
      obtain ⟨hsame, haging⟩ := step_sameToggles hstep htoggle
      exact h.frame hsame haging
  | true =>
      cases hev : ev.actor with
      | toggle k =>
          simp only [FatpBalancer.step, hev] at hstep
          obtain ⟨pc, hpc, hstep⟩ := Option.bind_eq_some_iff.mp hstep
          exact h.toggle hpc hstep
      | toggleCall enabled =>
          simp only [FatpBalancer.step, hev, Option.some.injEq] at hstep
          subst hstep
          exact h.call (hserial (by rw [hev]; rfl)) enabled
      | _ =>
          rw [hev] at htoggle
          cases htoggle

/-! ## Nothing is left of the calls

Once the calls have returned only background steps are possible, and they bring no new job.  With
the counter at zero no job is engaged either, and so none is anywhere. -/

/-- Once every call has returned, only the nodes and the balancer's own threads take steps. -/
theorem step_background (hdone : callersDone s = true) (hcall : ev.isCall = false)
    (h : step cfg s ev = some s') :
    (∃ k, ev.actor = .node k) ∨ ev.actor = .drain ∨ ev.actor = .aging := by
  simp only [callersDone, Bool.and_eq_true, List.all_eq_true] at hdone
  obtain ⟨⟨⟨hcalls, hcancels⟩, hswitches⟩, htoggles⟩ := hdone
  cases hev : ev.actor with
  | node k => exact .inl ⟨k, rfl⟩
  | drain => exact .inr (.inl rfl)
  | aging => exact .inr (.inr rfl)
  | submit i =>
      simp only [step, hev] at h
      obtain ⟨c, hc, h⟩ := Option.bind_eq_some_iff.mp h
      obtain ⟨result, hpc⟩ := SubmitPc.returned_of_isReturned (hcalls c (List.mem_of_getElem? hc))
      simp [submitStep, hpc] at h
  | cancel k =>
      simp only [step, hev] at h
      obtain ⟨c, hc, h⟩ := Option.bind_eq_some_iff.mp h
      obtain ⟨result, hpc⟩ := CancelPc.returned_of_isReturned (hcancels c (List.mem_of_getElem? hc))
      simp [cancelStep, hpc] at h
  | switch k =>
      simp only [step, hev] at h
      obtain ⟨pc, hpc, h⟩ := Option.bind_eq_some_iff.mp h
      obtain rfl : pc = .done := by simpa using hswitches pc (List.mem_of_getElem? hpc)
      cases h
  | toggle k =>
      simp only [step, hev] at h
      obtain ⟨pc, hpc, h⟩ := Option.bind_eq_some_iff.mp h
      obtain rfl := done_of_togglesDone htoggles (List.mem_of_getElem? hpc)
      cases h
  | _ =>
      rw [Event.isCall, hev] at hcall
      cases hcall

/-- No call comes up by itself. -/
theorem callersDone_next (hdone : callersDone s = true) (hcall : ev.isCall = false)
    (h : step cfg s ev = some s') : callersDone s' = true := by
  have hthreads : s'.calls = s.calls ∧ s'.cancels = s.cancels ∧ s'.switches = s.switches := by
    rcases step_background hdone hcall h with ⟨k, hev⟩ | hev | hev <;> simp only [step, hev] at h
    · obtain ⟨d, hd, h⟩ := Option.bind_eq_some_iff.mp h
      obtain ⟨hcalls, hcancels, hswitches, -⟩ := (nodeStep_move h).threads
      exact ⟨hcalls, hcancels, hswitches⟩
    · obtain ⟨hcalls, hcancels, hswitches, -⟩ := (drainStep_move h).threads
      exact ⟨hcalls, hcancels, hswitches⟩
    · rcases agingStep_move h with hm | ⟨c, expired, t, c', hpc, hm, rfl⟩
      · cases hm <;> exact ⟨rfl, rfl, rfl⟩
      · obtain ⟨hcalls, hcancels, hswitches, -⟩ := hm.threads
        exact ⟨hcalls, hcancels, hswitches⟩
  have htoggle : ev.actor.isToggle = false := by
    rcases step_background hdone hcall h with ⟨k, hev⟩ | hev | hev <;> rw [hev] <;> rfl
  obtain ⟨hcalls, hcancels, hswitches⟩ := hthreads
  rw [callersDone, togglesDone, hcalls, hcancels, hswitches, (step_sameToggles h htoggle).1.1]
  exact hdone

/-- No call is at the gate, so no job gets past it. -/
theorem quiet_next (hdone : callersDone s = true) (hquiet : ∀ i, ¬engaged s i)
    (h : step cfg s ev = some s') (i : CallId) : ¬engaged s' i := by
  intro hi
  rcases (step_move h).engages hi with hi | ⟨⟨c, hc, hpc⟩, -⟩
  · exact hquiet i hi
  · simp only [callersDone, Bool.and_eq_true, List.all_eq_true] at hdone
    have hreturned := hdone.1.1.1 c (List.mem_of_getElem? hc)
    rw [hpc] at hreturned
    cases hreturned

/-- What is true of the members once no job is engaged. -/
structure NothingLeft (s : State F) : Prop where
  finalized : ∀ i, accepted s i = true → finalizedCount s i = 1
  /-- no callback is under way or to come, and none has left its job behind -/
  dispatches : ∀ d ∈ s.dispatches,
    (d.side = .called ∨ d.side = .cancelled) ∧ d.regState.earlyCompletedJob = none
  queue : s.m.mHoldingQueue.entries = []

/-- A balancer without engaged jobs, from the accounting of the places. -/
theorem AccountingInv.nothingLeft (h : AccountingInv s) (hquiet : ∀ i, ¬engaged s i) :
    NothingLeft s := by
  have hzero : ∀ i, waiting s i = 0 ∧ handling s i = 0 := by
    intro i
    have hnot : ¬0 < waiting s i + handling s i := fun hpos => hquiet i (h.engaged_of_pos hpos)
    omega
  refine ⟨?_, ?_, ?_⟩
  · intro i hi
    have hle := h.finalizedCount_le i
    have hne : finalizedCount s i ≠ 0 := fun heq => hquiet i (.inr ⟨hi, heq⟩)
    rw [hi, Bool.toNat_true] at hle
    omega
  · intro d hd
    obtain ⟨k, hk⟩ := List.getElem?_of_mem hd
    have hnode : owns d.call d.onNode ≤ onNodes s.dispatches d.call :=
      Table.le_total (w := fun x : Dispatch => owns d.call x.onNode) hk
    have hearly : owns d.call d.early ≤ handling s d.call := by
      have : owns d.call d.handles + owns d.call d.early ≤ nodesHandle s.dispatches d.call :=
        Table.le_total (w := fun x : Dispatch => owns d.call x.handles + owns d.call x.early) hk
      unfold handling
      omega
    obtain ⟨hwaiting, hhandling⟩ := hzero d.call
    constructor
    · cases hside : d.side with
      | live | finished completed succeeded =>
          rw [Dispatch.onNode, hside, owns_self] at hnode
          unfold waiting at hwaiting
          omega
      | calling f =>
          -- the callback finalises the job that it names
          have hf : owns f.call d.handles ≤ handling s f.call := by
            have : owns f.call d.handles + owns f.call d.early ≤
                nodesHandle s.dispatches f.call :=
              Table.le_total (w := fun x : Dispatch => owns f.call x.handles + owns f.call x.early)
                hk
            unfold handling
            omega
          rw [Dispatch.handles, hside, owns_self, (hzero f.call).2] at hf
          omega
      | called => exact .inl rfl
      | cancelled => exact .inr rfl
    · by_contra hsome
      rw [Dispatch.early, if_pos (Option.isSome_iff_ne_none.mpr hsome), owns_self, hhandling]
        at hearly
      omega
  · refine List.eq_nil_iff_forall_not_mem.mpr fun e he => ?_
    obtain ⟨k, hk⟩ := List.getElem?_of_mem he
    have hle : owns e.onDone.call (some e.onDone.call) ≤
        heldJobs s.m.mHoldingQueue.entries e.onDone.call :=
      Table.le_total (w := fun x : HeldEntry => owns e.onDone.call (some x.onDone.call)) hk
    have hwaiting := (hzero e.onDone.call).1
    rw [owns_self] at hle
    unfold waiting at hwaiting
    omega

/-! ## The destructor's progress

The stages are ordered, and the invariant says from which stage on a thread is gone. -/

/-- The order in which the destructor goes through its stages. -/
def DestructorPc.rank : DestructorPc → Nat
  | .setDraining => 0
  | .spin => 1
  | .stopAging => 2
  | .raiseAgingStop => 3
  | .joinAging => 4
  | .stopDrain => 5
  | .raiseDrainStop => 6
  | .joinDrain => 7
  | .destroyed => 8

/-- The invariants of the balancer for as long as they hold, and what each stage of the destructor
adds to them. -/
structure LifetimeInv (cfg : BalancerConfig F) (l : Lifetime F) : Prop where
  holding : HoldingInv cfg l.balancer
  accounting : AccountingInv l.balancer
  /-- until the destructor takes the flag down itself -/
  toggles : (∀ pc, l.destructor = some pc → pc.rank ≤ 2) → TogglesInv l.balancer
  callers : l.destructor ≠ none → callersDone l.balancer = true
  quiet : ∀ pc, l.destructor = some pc → 2 ≤ pc.rank → ∀ i, ¬engaged l.balancer i
  absent : ∀ pc, l.destructor = some pc → 5 ≤ pc.rank → l.balancer.aging = .absent
  running : (∀ pc, l.destructor = some pc → pc.rank ≤ 5) → l.mHoldingDrainRunning = true
  exited : l.destructor = some .destroyed → l.drainExited = true

variable {l l' : Lifetime F} {e : LifetimeEvent}

/-- A balancer whose destructor has not been called. -/
theorem LifetimeInv.init : LifetimeInv cfg (lifetime cfg).init where
  holding := .create cfg
  accounting := .create cfg
  toggles _ := by
    refine ⟨?_, ?_, fun _ _ => rfl⟩
    · intro j k pc pc' hj
      cases hj
    · intro k pc hk
      cases hk
  callers h := absurd rfl h
  quiet pc h := by cases h
  absent pc h := by cases h
  running _ := rfl
  exited h := by cases h

/-- A step of another thread is a step of the balancer, or the end of the drain loop. -/
theorem threadStep_cases (h : l.threadStep cfg ev = some l') :
    (∃ s', step cfg l.balancer ev = some s' ∧ l' = { l with balancer := s' }) ∨
      l' = { l with drainExited := true } := by
  unfold Lifetime.threadStep at h
  split at h
  · split at h
    · cases h
    · split at h
      · cases h
        exact .inr rfl
      · obtain ⟨s', hs', rfl⟩ := Option.map_eq_some_iff.mp h
        exact .inl ⟨s', hs', rfl⟩
  · obtain ⟨s', hs', rfl⟩ := Option.map_eq_some_iff.mp h
    exact .inl ⟨s', hs', rfl⟩

/-- A step of a thread that is not the destructor. -/
theorem LifetimeInv.thread (h : LifetimeInv cfg l) (howned : Owned l (.thread ev))
    (hstep : l.threadStep cfg ev = some l') : LifetimeInv cfg l' := by
  rcases threadStep_cases hstep with ⟨s', hs', rfl⟩ | rfl
  · have hm := step_move hs'
    have hcall : l.destructor ≠ none → ev.isCall = false := by
      intro hne
      by_contra hcall
      exact hne (howned.1 (by simpa using hcall))
    have hbegun : ∀ {pc}, l.destructor = some pc → l.destructor ≠ none := by
      intro pc hpc
      rw [hpc]
      exact Option.some_ne_none pc
    refine ⟨h.holding.move hm, h.accounting.move h.holding hm, ?_, ?_, ?_, ?_, h.running, h.exited⟩
    · intro hrank
      exact (h.toggles hrank).step howned.2 hs'
    · intro hne
      exact callersDone_next (h.callers hne) (hcall hne) hs'
    · intro pc hpc hrank
      exact quiet_next (h.callers (hbegun hpc)) (h.quiet pc hpc hrank) hs'
    · intro pc hpc hrank
      have hcallers := h.callers (hbegun hpc)
      have htoggle : ev.actor.isToggle = false := by
        rcases step_background hcallers (hcall (hbegun hpc)) hs' with ⟨k, hev⟩ | hev | hev <;>
          rw [hev] <;> rfl
      exact (step_sameToggles hs' htoggle).2 (h.absent pc hpc hrank)
  · exact ⟨h.holding, h.accounting, h.toggles, h.callers, h.quiet, h.absent, h.running,
      fun _ => rfl⟩

/-- The destructor goes on at `pc'` and leaves the balancer as it is. -/
theorem LifetimeInv.goto (h : LifetimeInv cfg l) {pc : DestructorPc}
    (hpc : l.destructor = some pc) (pc' : DestructorPc) (hrank : pc.rank ≤ pc'.rank)
    (hquiet : 2 ≤ pc'.rank → 2 ≤ pc.rank ∨ ∀ i, ¬engaged l.balancer i)
    (habsent : 5 ≤ pc'.rank → 5 ≤ pc.rank ∨ l.balancer.aging = .absent)
    (hexited : pc' = .destroyed → l.drainExited = true) :
    LifetimeInv cfg { l with destructor := some pc' } := by
  refine ⟨h.holding, h.accounting, ?_, ?_, ?_, ?_, ?_, ?_⟩
  · intro hle
    refine h.toggles fun x hx => ?_
    obtain rfl := Option.some.inj (hpc.symm.trans hx)
    exact hrank.trans (hle pc' rfl)
  · intro _
    exact h.callers (hpc ▸ Option.some_ne_none pc)
  · intro x hx hle
    obtain rfl := Option.some.inj hx
    rcases hquiet hle with hle | hquiet
    · exact h.quiet pc hpc hle
    · exact hquiet
  · intro x hx hle
    obtain rfl := Option.some.inj hx
    rcases habsent hle with hle | habsent
    · exact h.absent pc hpc hle
    · exact habsent
  · intro hle
    refine h.running fun x hx => ?_
    obtain rfl := Option.some.inj (hpc.symm.trans hx)
    exact hrank.trans (hle pc' rfl)
  · intro hx
    exact hexited (Option.some.inj hx)

/-- The destructor writes a flag, or has joined the aging thread. -/
theorem LifetimeInv.write (h : LifetimeInv cfg l) {pc : DestructorPc}
    (hpc : l.destructor = some pc) (draining enabled stop : Bool) (aging : AgingPc)
    (haging : aging = l.balancer.aging ∨ l.balancer.aging = .exited ∧ aging = .absent)
    (hrank : pc.rank ≤ 2 → enabled = l.balancer.m.mAgingEnabled ∧ aging = l.balancer.aging) :
    LifetimeInv cfg
      { l with
        balancer := { l.balancer with
          m.mDraining := draining
          m.mAgingEnabled := enabled
          m.mAgingThreadStop := stop
          aging := aging } } := by
  have hcancels : ∀ w : CancelCall → Nat, Table.total w (aging.cancel?.toList ++ l.balancer.cancels) =
      Table.total w l.balancer.allCancels := by
    intro w
    rcases haging with rfl | ⟨hexited, rfl⟩
    · rfl
    · rw [State.allCancels, hexited]
      rfl
  refine ⟨?_, ?_, ?_, h.callers, h.quiet, ?_, h.running, h.exited⟩
  · exact h.holding.quiet rfl ⟨rfl, rfl⟩ rfl rfl (hcancels _)
  · exact h.accounting.quietCancels rfl rfl fun i => hcancels _
  · intro hle
    obtain ⟨rfl, rfl⟩ := hrank (hle pc hpc)
    exact (h.toggles hle).frame ⟨rfl, rfl⟩ id
  · intro x hx hle
    have habsent := h.absent x hx hle
    rcases haging with rfl | ⟨hexited, -⟩
    · exact habsent
    · rw [habsent] at hexited
      cases hexited

/-- A step of the destructor. -/
theorem LifetimeInv.destruct (h : LifetimeInv cfg l) (howned : Owned l .destructor)
    {pc : DestructorPc} (hpc : l.destructor = some pc) (hstep : l.destructorStep pc = some l') :
    LifetimeInv cfg l' := by
  cases pc <;> simp only [Lifetime.destructorStep] at hstep
  case setDraining =>
    cases hstep
    exact (h.write hpc true _ _ _ (.inl rfl) fun _ => ⟨rfl, rfl⟩).goto hpc .spin (by decide)
      (fun h => absurd h (by decide)) (fun h => absurd h (by decide)) (fun h => by cases h)
  case spin =>
    cases hstep
    split
    · next hcount =>
        -- the counter is 0 and fits, so nothing is in flight
        have hzero : inFlight l.balancer = 0 :=
          howned hpc (h.accounting.submittedCount_eq ▸ hcount)
        exact h.goto hpc .stopAging (by decide) (fun _ => .inr (not_engaged_of_inFlight hzero))
          (fun h => absurd h (by decide)) (fun h => by cases h)
    · exact h.goto hpc .spin le_rfl (fun h => absurd h (by decide))
        (fun h => absurd h (by decide)) (fun h => by cases h)
  case stopAging =>
    split at hstep <;> cases hstep
    · have hnext := h.goto hpc .raiseAgingStop (by decide) (fun _ => .inl (by decide))
        (fun h => absurd h (by decide)) (fun h => by cases h)
      exact hnext.write rfl _ false _ _ (.inl rfl) fun h => absurd h (by decide)
    · next hoff =>
        have hcallers := h.callers (hpc ▸ Option.some_ne_none _)
        have htoggles : togglesDone l.balancer = true := by
          simp only [callersDone, Bool.and_eq_true] at hcallers
          exact hcallers.2
        have hinv := h.toggles fun x hx => by
          obtain rfl := Option.some.inj (hpc.symm.trans hx)
          exact le_rfl
        exact h.goto hpc .stopDrain (by decide) (fun _ => .inl (by decide))
          (fun _ => .inr (hinv.absent htoggles (by simpa using hoff))) (fun h => by cases h)
  case raiseAgingStop =>
    cases hstep
    have hnext := h.goto hpc .joinAging (by decide) (fun _ => .inl (by decide))
      (fun h => absurd h (by decide)) (fun h => by cases h)
    exact hnext.write rfl _ _ true _ (.inl rfl) fun h => absurd h (by decide)
  case joinAging =>
    split at hstep <;> cases hstep
    · next habsent =>
        exact h.goto hpc .stopDrain (by decide) (fun _ => .inl (by decide))
          (fun _ => .inr habsent) (fun h => by cases h)
    · next hexited =>
        have hjoined := h.write hpc l.balancer.m.mDraining l.balancer.m.mAgingEnabled
          l.balancer.m.mAgingThreadStop .absent (.inr ⟨hexited, rfl⟩)
          fun h => absurd h (by decide)
        exact hjoined.goto hpc .stopDrain (by decide) (fun _ => .inl (by decide))
          (fun _ => .inr rfl) (fun h => by cases h)
  case stopDrain =>
    have hrunning := h.running fun x hx => by
      obtain rfl := Option.some.inj (hpc.symm.trans hx)
      exact le_rfl
    rw [if_pos hrunning] at hstep
    cases hstep
    have hnext := h.goto hpc .raiseDrainStop (by decide) (fun _ => .inl (by decide))
      (fun _ => .inl (by decide)) (fun h => by cases h)
    exact ⟨hnext.holding, hnext.accounting, hnext.toggles, hnext.callers, hnext.quiet,
      hnext.absent, fun hle => absurd (hle _ rfl) (by decide), hnext.exited⟩
  case raiseDrainStop =>
    cases hstep
    have hnext := h.goto hpc .joinDrain (by decide) (fun _ => .inl (by decide))
      (fun _ => .inl (by decide)) (fun h => by cases h)
    exact ⟨hnext.holding, hnext.accounting, hnext.toggles, hnext.callers, hnext.quiet,
      hnext.absent, hnext.running, hnext.exited⟩
  case joinDrain =>
    split at hstep <;> cases hstep
    next hexited =>
    exact h.goto hpc .destroyed (by decide) (fun _ => .inl (by decide))
      (fun _ => .inl (by decide)) (fun _ => hexited)
  case destroyed => cases hstep

/-- Either of them, or the destructor's beginning. -/
theorem LifetimeInv.step (h : LifetimeInv cfg l) (howned : Owned l e)
    (hstep : l.step cfg e = some l') : LifetimeInv cfg l' := by
  cases e with
  | thread ev => exact h.thread howned hstep
  | destroy =>
      simp only [Lifetime.step] at hstep
      split at hstep <;> cases hstep
      next hnone =>
      have hinv := h.toggles fun pc hpc => by
        rw [hnone] at hpc
        cases hpc
      refine ⟨h.holding, h.accounting, fun _ => hinv, fun _ => howned, ?_, ?_, ?_, ?_⟩
      · intro pc hpc hle
        cases hpc
        exact absurd hle (by decide)
      · intro pc hpc hle
        cases hpc
        exact absurd hle (by decide)
      · intro _
        refine h.running fun pc hpc => ?_
        rw [hnone] at hpc
        cases hpc
      · intro hpc
        cases hpc
  | destructor =>
      obtain ⟨pc, hpc, hstep⟩ := Option.bind_eq_some_iff.mp hstep
      exact h.destruct howned hpc hstep

/-- In every state of a run whose caller is as it owes. -/
theorem lifetimeInv_reach (hl : (lifetime cfg).Reach Owned l) : LifetimeInv cfg l :=
  hl.invariant (I := LifetimeInv cfg) .init fun _ _ h howned hstep => h.step howned hstep

/-! ## After the destructor

With the aging thread joined, the drain thread returned, every call returned and nothing left on any
node, no thread has a step that would touch a member. -/

/-- No thread has a step left. -/
theorem LifetimeInv.threadStep_none (h : LifetimeInv cfg l) (hpc : l.destructor = some .destroyed)
    (hcall : ev.isCall = false) : l.threadStep cfg ev = none := by
  have hcallers := h.callers (hpc ▸ Option.some_ne_none _)
  have hleft := h.accounting.nothingLeft (h.quiet _ hpc (by decide))
  have hstep : ev.actor ≠ .drain → FatpBalancer.step cfg l.balancer ev = none := by
    intro hdrain
    by_contra hsome
    obtain ⟨s', hs'⟩ := Option.ne_none_iff_exists'.mp hsome
    rcases step_background hcallers hcall hs' with ⟨k, hev⟩ | hev | hev
    · -- the node is done with each job
      simp only [FatpBalancer.step, hev] at hs'
      obtain ⟨d, hd, hs'⟩ := Option.bind_eq_some_iff.mp hs'
      rcases (hleft.dispatches d (List.mem_of_getElem? hd)).1 with hside | hside <;>
        simp [nodeStep, hside] at hs'
    · exact hdrain hev
    · simp [FatpBalancer.step, hev, agingStep, h.absent _ hpc (by decide)] at hs'
  unfold Lifetime.threadStep
  split
  · rw [if_pos (h.exited hpc)]
  · next hdrain => rw [hstep hdrain, Option.map_none]

/-- **Nothing touches a destroyed balancer.**  When the destructor is through, every job that
`submit` has accepted has been finalised, once; no entry is left in the holding queue and no
callback on a node; and no thread has a step left in the balancer. -/
theorem nothing_after_destructor (hl : (lifetime cfg).Reach Owned l)
    (hpc : l.destructor = some .destroyed) :
    NothingLeft l.balancer ∧ ∀ ev : Event, ev.isCall = false → l.threadStep cfg ev = none := by
  have h := lifetimeInv_reach hl
  exact ⟨h.accounting.nothingLeft (h.quiet _ hpc (by decide)), fun ev hcall =>
    h.threadStep_none hpc hcall⟩

/-- A balancer with its aging thread running is destroyed while a job is on a node. -/
def destroyScript : List LifetimeEvent :=
  let inp : Input := { selected := some 0, accepted := some 1 }
  .thread { actor := .toggleCall true } :: List.replicate 3 (.thread { actor := .toggle 0 }) ++
    (submitScript 0 {} 14 inp).map .thread ++
    [.destroy, .destructor, .destructor] ++
    List.replicate 7 (.thread { actor := .node 0 }) ++
    List.replicate 3 .destructor ++ [.thread { actor := .aging }] ++
    List.replicate 3 .destructor ++ [.thread { actor := .drain }, .destructor]

theorem nothing_after_destructor_aging : ∃ l : Lifetime Rat, accepted l.balancer 0 = true ∧
    NothingLeft l.balancer ∧ ∀ ev : Event, ev.isCall = false → l.threadStep oneNode ev = none := by
  obtain ⟨l, hl, hp⟩ := exists_reach (lifetime oneNode) Owned destroyScript
    (fun l => l.destructor == some .destroyed && accepted l.balancer 0) (by decide +kernel)
  simp only [Bool.and_eq_true, beq_iff_eq] at hp
  exact ⟨l, hp.2, nothing_after_destructor hl hp.1⟩

end FatpBalancer
