/-
# The simulated node: what it reports and what it accepts

`start` and `stop` region by region, beside the faults, the submits and the tasks.  `submit` goes by
the shutdown flag, the fault, the state and the pool; the balancer goes by the reported state alone.

`NodeLife` is the node with the thread that starts or stops it, and `step` interleaves the lock
regions of `start` and `stop` with everything else.  `Resolves` is what most regions do to the
state, the fault, the flag and the pool: leave them alone, or resolve the state by the depth.
`Phased` says what each phase of `start` and `stop` has made of them.

A node is truthful when it can serve what its state says it accepts.  `Steady` names the steps that
keep it so, and the converse of each is shown too; the places where the two part are `stop`, whose
first region leaves the state as it was, and faults injected while the node is not running.
-/
import FatpBalancer.Sim.NodeTasks

namespace FatpBalancer

/-! ## Starting and stopping

The pool is created and destroyed outside the lock, between two regions, so that for a while the
flag and the state say one thing and the pool another. -/

namespace SimulatedNode

/-- The first lock region of `start`. -/
def startBegin (n : SimulatedNode) : SimulatedNode :=
  { n with
    mShutdown := false
    mState := .initializing }

/-- `make_unique`, outside the lock. -/
def startPool (n : SimulatedNode) : SimulatedNode := { n with mThreadPool := true }

/-- The second lock region of `start`. -/
def startEnd (n : SimulatedNode) : SimulatedNode := { n with mState := .idle }

/-- The first lock region of `stop`. -/
def stopBegin (n : SimulatedNode) : SimulatedNode := { n with mShutdown := true }

/-- `reset`, outside the lock. -/
def stopPool (n : SimulatedNode) : SimulatedNode := { n with mThreadPool := false }

/-- The second lock region of `stop`. -/
def stopEnd (n : SimulatedNode) : SimulatedNode := { n with mState := .offline }

theorem start_eq (n : SimulatedNode) : n.start = n.startBegin.startPool.startEnd := rfl

end SimulatedNode

/-- The task is in the pool, or a worker runs it. -/
def TaskPc.inPool : TaskPc → Bool
  | .queued | .running _ | .ran .. | .completed .. => true
  | .registered | .called | .discarded => false

/-- Where the thread is that starts or stops the node. -/
inductive NodePhase
  | settled
  /-- in `start`, past its first region -/
  | starting
  /-- in `start`, the pool being there -/
  | pooled
  /-- in `stop`, past its first region -/
  | stopping
  /-- in `stop`, the pool being gone -/
  | drained
  deriving DecidableEq

structure NodeLife where
  serving : NodeTasks
  phase : NodePhase := .settled

inductive LifeEvent
  | startBegin
  | startPool
  | startEnd
  | stopBegin
  | stopPool
  | stopEnd
  | serve (e : NodeEvent)

namespace NodeLife

def node (s : NodeLife) : SimulatedNode := s.serving.node

/-- The lifecycle thread goes on. -/
def move (s : NodeLife) (node : SimulatedNode) (phase : NodePhase) : NodeLife where
  serving := { s.serving with node }
  phase

/-- `start` and `stop` are not called while one of them is going on.  A task goes on only where there
is a pool, and `stop` waits for the tasks in it. -/
def step (s : NodeLife) : LifeEvent → Option NodeLife
  | .startBegin =>
      if s.phase = .settled then some (s.move s.node.startBegin .starting) else none
  | .startPool => if s.phase = .starting then some (s.move s.node.startPool .pooled) else none
  | .startEnd => if s.phase = .pooled then some (s.move s.node.startEnd .settled) else none
  | .stopBegin =>
      if s.phase = .settled then some (s.move s.node.stopBegin .stopping) else none
  | .stopPool =>
      if s.phase = .stopping ∧ ∀ t ∈ s.serving.tasks, t.pc.inPool = false then
        some (s.move s.node.stopPool .drained)
      else none
  | .stopEnd => if s.phase = .drained then some (s.move s.node.stopEnd .settled) else none
  | .serve (.task k a) =>
      if s.node.mThreadPool then
        (s.serving.step (.task k a)).map fun serving => { s with serving }
      else none
  | .serve e => (s.serving.step e).map fun serving => { s with serving }

end NodeLife

/-- A node that has been constructed. -/
def nodeLife (mId : NodeId) (mConfig : SimulatedNodeConfig) : Machine NodeLife LifeEvent where
  init := { serving := { node := { mId, mConfig } } }
  step := NodeLife.step

/-! ## Acceptance

`submit` checks four members; the balancer, and everybody else outside, sees the state only. -/

namespace SimulatedNode

variable {n n' : SimulatedNode}

/-- A submit is accepted exactly when the reported state accepts its priority; and a node that is
stopped, not started or crashed reports no state in which it would be working. -/
structure StateAgrees (n : SimulatedNode) : Prop where
  accepts_iff : ∀ job smHandle, (n.submit job smHandle).isOk = true ↔
    nodeAcceptsPriority n.mState job.priority = true
  idle : n.mShutdown = true ∨ n.mThreadPool = false ∨ n.mFault = .crash →
    n.mState ≠ .idle ∧ n.mState ≠ .busy ∧ n.mState ≠ .overloaded

/-- The reported state accepts some priority. -/
def Reports (n : SimulatedNode) : Prop := nodeAcceptsPriority n.mState .critical = true

instance (n : SimulatedNode) : Decidable n.Reports := inferInstanceAs (Decidable (_ = _))

/-- The node can take jobs, unless it is partitioned. -/
structure Serves (n : SimulatedNode) : Prop where
  shutdown : n.mShutdown = false
  fault : n.mFault ≠ .crash
  pool : n.mThreadPool = true

def Truthful (n : SimulatedNode) : Prop := n.Reports → n.Serves

/-- What is accepted at all is accepted as Critical. -/
theorem reports_of_accepts {priority : Priority}
    (h : nodeAcceptsPriority n.mState priority = true) : n.Reports := by
  unfold Reports
  cases hstate : n.mState <;> rw [hstate] at h <;> first | rfl | cases h

theorem submit_isOk_iff (n : SimulatedNode) (job : Job) (smHandle : SlotMapHandle) :
    (n.submit job smHandle).isOk = true ↔
      n.mFault ≠ .partition ∧ n.Serves ∧ nodeAcceptsPriority n.mState job.priority = true := by
  rw [submit]
  split
  · next hrefused =>
      refine iff_of_false Bool.false_ne_true ?_
      rintro ⟨hpartition, hserves, haccepts⟩
      rcases hrefused with h | h | h | h | h
      · rw [hserves.shutdown] at h
        cases h
      · exact hserves.fault h
      · exact hpartition h
      · rw [h] at haccepts
        cases haccepts
      · rw [h] at haccepts
        cases haccepts
  · next hrefused =>
      simp only [not_or, Bool.not_eq_true] at hrefused
      obtain ⟨hshutdown, hcrash, hpartition, -, -⟩ := hrefused
      split
      · next hrejected =>
          refine iff_of_false Bool.false_ne_true fun h => ?_
          rw [h.2.2] at hrejected
          cases hrejected
      · next haccepts =>
          split
          · next hpool =>
              refine iff_of_false Bool.false_ne_true fun h => ?_
              rw [h.2.1.pool] at hpool
              cases hpool
          · next hpool =>
              exact iff_of_true rfl
                ⟨hpartition, ⟨hshutdown, hcrash, by simpa using hpool⟩, by simpa using haccepts⟩

/-- **Where no partition is active the two agree exactly on the nodes that are truthful.** -/
theorem stateAgrees_iff (hpartition : n.mFault ≠ .partition) : n.StateAgrees ↔ n.Truthful := by
  constructor
  · intro h hreports
    have haccepted := (h.accepts_iff { priority := .critical } ⟨0, 0⟩).mpr hreports
    exact ((submit_isOk_iff ..).mp haccepted).2.1
  · intro h
    constructor
    · intro job smHandle
      rw [submit_isOk_iff]
      constructor
      · exact fun haccepted => haccepted.2.2
      · exact fun haccepts => ⟨hpartition, h (reports_of_accepts haccepts), haccepts⟩
    · intro hclosed
      have hsilent : ¬n.Reports := by
        intro hreports
        obtain ⟨hshutdown, hfault, hpool⟩ := h hreports
        rcases hclosed with hclosed | hclosed | hclosed
        · rw [hshutdown] at hclosed
          cases hclosed
        · rw [hpool] at hclosed
          cases hclosed
        · exact hfault hclosed
      refine ⟨?_, ?_, ?_⟩
      · exact fun hstate => hsilent (by rw [Reports, hstate]; rfl)
      · exact fun hstate => hsilent (by rw [Reports, hstate]; rfl)
      · exact fun hstate => hsilent (by rw [Reports, hstate]; rfl)

/-! ## What a region does to the four members

One lemma for each region, and one notion for all of them. -/

/-- One of the states `updateStateUnlocked` resolves to. -/
def Working (state : NodeState) : Prop := state = .idle ∨ state = .busy ∨ state = .overloaded

/-- A region leaves the state as it is, or resolves it when the node has not failed; the flag, the
fault and the pool stay. -/
structure Resolves (n n' : SimulatedNode) : Prop where
  shutdown : n'.mShutdown = n.mShutdown
  pool : n'.mThreadPool = n.mThreadPool
  fault : n'.mFault = n.mFault
  state : n'.mState = n.mState ∨ n.mFault ≠ .crash ∧ n.mState ≠ .failed ∧ Working n'.mState

/-- The state is resolved unless the node has failed. -/
theorem updateStateUnlocked_spec (n : SimulatedNode) :
    (n.mFault = .crash ∨ n.mState = .failed) ∧ n.updateStateUnlocked.2 = n ∨
      (n.mFault ≠ .crash ∧ n.mState ≠ .failed) ∧
        ∃ state, Working state ∧ n.updateStateUnlocked.2 = { n with mState := state } := by
  rw [updateStateUnlocked]
  split
  · next hfailed => exact .inl ⟨hfailed, rfl⟩
  · next hfailed =>
      refine .inr ⟨not_or.mp hfailed, ?_⟩
      dsimp only
      generalize hnew : (if n.mConfig.overloadThreshold ≤ n.mQueueDepth then NodeState.overloaded
        else if 0 < n.mQueueDepth then
          if n.mState = .overloaded ∧ n.mConfig.recoverThreshold < n.mQueueDepth then .overloaded
          else .busy
        else .idle) = newState
      have hworking : Working newState := by
        rw [← hnew, Working]
        split_ifs <;> simp
      refine ⟨newState, hworking, ?_⟩
      split
      · rfl
      · next hsame => rw [not_not.mp hsame]

theorem resolvedState_working (config : SimulatedNodeConfig) (state : NodeState) (depth : Nat) :
    Working (resolvedState config state depth) := by
  rw [resolvedState, Working]
  split_ifs <;> simp

theorem Follows.resolves (h : n.Follows n') : n.Resolves n' := by
  refine ⟨h.shutdown, h.pool, h.fault, ?_⟩
  rcases h.state with ⟨hsame, -⟩ | hresolved
  · exact .inl hsame
  · split at hresolved
    · exact .inl hresolved
    · next hfailed =>
        obtain ⟨hfault, hstate⟩ := not_or.mp hfailed
        exact .inr ⟨hfault, hstate, hresolved ▸ resolvedState_working ..⟩

@[simp] theorem cancel_mState (n : SimulatedNode) (handle : JobHandle) :
    (n.cancel handle).2.mState = n.mState := by
  rw [cancel]
  split <;> rfl

@[simp] theorem reprioritise_mState (n : SimulatedNode) (handle : JobHandle)
    (newPriority : Priority) : (n.reprioritise handle newPriority).2.mState = n.mState := by
  rw [reprioritise]
  split <;> rfl

/-- Whatever the state of a node that takes jobs is resolved to, it tells the truth. -/
theorem Truthful.resolves (hn : n.Truthful) (h : n.Resolves n')
    (hserves : n.mFault ≠ .crash → n.mState ≠ .failed → n'.mState ≠ n.mState → n.Serves) :
    n'.Truthful := by
  intro hreports
  have htook : n.Serves := by
    by_cases hsame : n'.mState = n.mState
    · rw [Reports, hsame] at hreports
      exact hn hreports
    · rcases h.state with hstate | ⟨hfault, hstate, -⟩
      · exact absurd hstate hsame
      · exact hserves hfault hstate hsame
  constructor
  · rw [h.shutdown, htook.shutdown]
  · rw [h.fault]
    exact htook.fault
  · rw [h.pool, htook.pool]

/-- Clearing a fault of a failed node resolves its state at once. -/
theorem injectFault_recovers (hstate : n.mState = .failed) (config : FaultConfig) :
    (n.injectFault .none config).mShutdown = n.mShutdown ∧
      (n.injectFault .none config).mThreadPool = n.mThreadPool ∧
      (n.injectFault .none config).mFault = .none ∧ Working (n.injectFault .none config).mState := by
  rw [injectFault, if_neg (by decide), if_pos ⟨rfl, hstate⟩]
  rcases updateStateUnlocked_spec
    { n with mFault := .none, mFaultConfig := config, mState := .recovering } with
    ⟨hfailed, -⟩ | ⟨-, state, hworking, hnode⟩
  · rcases hfailed with h | h <;> cases h
  · rw [hnode]
    exact ⟨rfl, rfl, rfl, hworking⟩

end SimulatedNode

/-! ## The lifecycle

The four members in each phase, and what a fault does to them there. -/

namespace NodeLife

variable {s s' : NodeLife}

/-- An accepted submit has found a node that takes jobs, and nothing else but a task resolves the
state. -/
theorem resolves_of_step {t t' : NodeTasks} {e : NodeEvent} (h : t.step e = some t')
    (hfault : ∀ fault config, e ≠ .injectFault fault config) :
    t.node.Resolves t'.node ∧
      ((∃ k a, e = .task k a) ∨ t'.node.mState = t.node.mState ∨ t.node.Serves) := by
  refine ⟨(NodeTasks.step_follows h hfault).resolves, ?_⟩
  cases e with
  | submit job smHandle =>
      rw [NodeTasks.step] at h
      split at h
      · cases h
      · split at h
        · obtain rfl := Option.some.inj h
          exact .inr (.inl rfl)
        · next node hnode =>
            have haccepted : (t.node.submit job smHandle).isOk = true := by
              rw [hnode]
              rfl
            exact .inr (.inr ((SimulatedNode.submit_isOk_iff ..).mp haccepted).2.1)
  | cancel handle =>
      have hstate := t.node.cancel_mState handle
      simp only [NodeTasks.step] at h
      split at h
      · obtain rfl := Option.some.inj h
        exact .inr (.inl hstate)
      · obtain rfl := Option.some.inj h
        exact .inr (.inl hstate)
  | reprioritise handle newPriority =>
      obtain rfl := Option.some.inj h
      exact .inr (.inl (t.node.reprioritise_mState handle newPriority))
  | injectFault fault config => exact absurd rfl (hfault fault config)
  | task k a => exact .inl ⟨k, a, rfl⟩

theorem step_serve {e : NodeEvent} (h : s.step (.serve e) = some s') :
    ∃ t, s.serving.step e = some t ∧ s' = { s with serving := t } ∧
      ((∃ k a, e = .task k a) → s.node.mThreadPool = true) := by
  cases e with
  | task k a =>
      rw [step] at h
      split at h
      · next hpool =>
          obtain ⟨t, ht, rfl⟩ := Option.map_eq_some_iff.mp h
          exact ⟨t, ht, rfl, fun _ => hpool⟩
      · cases h
  | submit job smHandle | cancel handle | reprioritise handle newPriority
  | injectFault fault config =>
      simp only [step] at h
      obtain ⟨t, ht, rfl⟩ := Option.map_eq_some_iff.mp h
      exact ⟨t, ht, rfl, fun ⟨_, _, htask⟩ => by cases htask⟩

/-- One constructor for each way the lifecycle goes on, one for a fault, and one for all else: the state
is resolved by a task, or by a submit that has found a node taking jobs. -/
inductive LifeMove (s : NodeLife) : LifeEvent → NodeLife → Prop
  | startBegin (hphase : s.phase = .settled) :
      LifeMove s .startBegin (s.move s.node.startBegin .starting)
  | startPool (hphase : s.phase = .starting) :
      LifeMove s .startPool (s.move s.node.startPool .pooled)
  | startEnd (hphase : s.phase = .pooled) : LifeMove s .startEnd (s.move s.node.startEnd .settled)
  | stopBegin (hphase : s.phase = .settled) :
      LifeMove s .stopBegin (s.move s.node.stopBegin .stopping)
  | stopPool (hphase : s.phase = .stopping) :
      LifeMove s .stopPool (s.move s.node.stopPool .drained)
  | stopEnd (hphase : s.phase = .drained) : LifeMove s .stopEnd (s.move s.node.stopEnd .settled)
  | injectFault (fault : FaultType) (config : FaultConfig) :
      LifeMove s (.serve (.injectFault fault config))
        { s with serving := { s.serving with node := s.node.injectFault fault config } }
  | serve {e : NodeEvent} {t : NodeTasks} (hother : ∀ fault config, e ≠ .injectFault fault config)
      (hresolves : s.node.Resolves t.node)
      (hcause : s.node.mThreadPool = true ∨ t.node.mState = s.node.mState ∨ s.node.Serves) :
      LifeMove s (.serve e) { s with serving := t }

theorem step_move {e : LifeEvent} (h : s.step e = some s') : LifeMove s e s' := by
  cases e with
  | startBegin =>
      obtain ⟨hphase, h⟩ := Option.ite_none_right_eq_some.mp h
      exact Option.some.inj h ▸ .startBegin hphase
  | startPool =>
      obtain ⟨hphase, h⟩ := Option.ite_none_right_eq_some.mp h
      exact Option.some.inj h ▸ .startPool hphase
  | startEnd =>
      obtain ⟨hphase, h⟩ := Option.ite_none_right_eq_some.mp h
      exact Option.some.inj h ▸ .startEnd hphase
  | stopBegin =>
      obtain ⟨hphase, h⟩ := Option.ite_none_right_eq_some.mp h
      exact Option.some.inj h ▸ .stopBegin hphase
  | stopPool =>
      obtain ⟨⟨hphase, -⟩, h⟩ := Option.ite_none_right_eq_some.mp h
      exact Option.some.inj h ▸ .stopPool hphase
  | stopEnd =>
      obtain ⟨hphase, h⟩ := Option.ite_none_right_eq_some.mp h
      exact Option.some.inj h ▸ .stopEnd hphase
  | serve e =>
      obtain ⟨t, ht, rfl, hpool⟩ := step_serve h
      by_cases hfault : ∃ fault config, e = .injectFault fault config
      · obtain ⟨fault, config, rfl⟩ := hfault
        obtain rfl := Option.some.inj ht
        exact .injectFault fault config
      · have hother : ∀ fault config, e ≠ .injectFault fault config := by
          intro fault config he
          exact hfault ⟨fault, config, he⟩
        obtain ⟨hresolves, hcause⟩ := resolves_of_step ht hother
        exact .serve hother hresolves (hcause.imp_left hpool)

/-- What the phase of `start` or `stop` says about the node. -/
structure Phased (s : NodeLife) : Prop where
  settled : s.phase = .settled → s.node.mThreadPool = true → s.node.mShutdown = false
  starting : s.phase = .starting ∨ s.phase = .pooled → s.node.mShutdown = false
  pooled : s.phase = .pooled → s.node.mThreadPool = true
  stopping : s.phase = .stopping ∨ s.phase = .drained → s.node.mShutdown = true
  drained : s.phase = .drained → s.node.mThreadPool = false
  /-- only a node that is being started has a pool and does not work -/
  state : s.node.mState = .offline ∨ s.node.mState = .initializing → s.node.mThreadPool = true →
    s.phase = .starting ∨ s.phase = .pooled

/-- What the node does while it serves leaves its lifecycle alone. -/
theorem Phased.serve (hs : s.Phased) {serving : NodeTasks}
    (hshutdown : serving.node.mShutdown = s.node.mShutdown)
    (hpool : serving.node.mThreadPool = s.node.mThreadPool)
    (hstate : serving.node.mState = s.node.mState ∨ serving.node.mState = .failed ∨
      SimulatedNode.Working serving.node.mState) : Phased { s with serving } where
  settled hphase h := by
    rw [NodeLife.node, hshutdown]
    exact hs.settled hphase (hpool ▸ h)
  starting hphase := hshutdown.trans (hs.starting hphase)
  pooled hphase := hpool.trans (hs.pooled hphase)
  stopping hphase := hshutdown.trans (hs.stopping hphase)
  drained hphase := hpool.trans (hs.drained hphase)
  state hoff h := by
    rcases hstate with hsame | hfailed | hworking
    · apply hs.state _ (hpool ▸ h)
      rwa [← hsame]
    · rcases hoff with hoff | hoff <;> cases hfailed.symm.trans hoff
    · rcases hworking with hworking | hworking | hworking <;>
        rcases hoff with hoff | hoff <;> cases hworking.symm.trans hoff

theorem Phased.resolves (hs : s.Phased) {serving : NodeTasks}
    (h : s.node.Resolves serving.node) : Phased { s with serving } :=
  hs.serve h.shutdown h.pool (h.state.imp_right fun hresolved => .inr hresolved.2.2)

/-- A fault fails the node, or resolves its state, or leaves it as it is. -/
theorem injectFault_state (n : SimulatedNode) (fault : FaultType) (config : FaultConfig) :
    (n.injectFault fault config).mShutdown = n.mShutdown ∧
      (n.injectFault fault config).mThreadPool = n.mThreadPool ∧
      ((n.injectFault fault config).mState = n.mState ∨
        (n.injectFault fault config).mState = .failed ∨
        SimulatedNode.Working (n.injectFault fault config).mState) := by
  by_cases hcrash : fault = .crash
  · subst hcrash
    exact ⟨rfl, rfl, .inr (.inl rfl)⟩
  · by_cases hrecovers : fault = .none ∧ n.mState = .failed
    · obtain ⟨rfl, hstate⟩ := hrecovers
      obtain ⟨hshutdown, hpool, -, hworking⟩ :=
        SimulatedNode.injectFault_recovers hstate config
      exact ⟨hshutdown, hpool, .inr (.inr hworking)⟩
    · rw [SimulatedNode.injectFault_keepsState hcrash fun hnone hstate => hrecovers ⟨hnone, hstate⟩]
      exact ⟨rfl, rfl, .inl rfl⟩

/-- **The phases go with the flag and the pool.** -/
theorem Phased.step (hs : s.Phased) {e : LifeEvent} (h : s.step e = some s') : s'.Phased := by
  cases step_move h with
  | startBegin hphase =>
      exact ⟨nofun, fun _ => rfl, nofun, by simp [move], nofun, fun _ _ => .inl rfl⟩
  | startPool hphase =>
      exact ⟨nofun, fun _ => hs.starting (.inl hphase), fun _ => rfl, by simp [move], nofun,
        fun _ _ => .inr rfl⟩
  | startEnd hphase =>
      exact ⟨fun _ _ => hs.starting (.inr hphase), by simp [move], nofun, by simp [move], nofun,
        by simp [move, node, SimulatedNode.startEnd]⟩
  | stopBegin hphase =>
      refine ⟨nofun, by simp [move], nofun, fun _ => rfl, nofun, fun hstate hpool => ?_⟩
      rcases hs.state hstate hpool with hother | hother <;> cases hphase.symm.trans hother
  | stopPool hphase =>
      refine ⟨nofun, by simp [move], nofun, fun _ => hs.stopping (.inl hphase), fun _ => rfl, ?_⟩
      intro _ hpool
      cases hpool
  | stopEnd hphase =>
      have hpool := hs.drained hphase
      refine ⟨fun _ h => ?_, by simp [move], nofun, by simp [move], nofun, fun _ h => ?_⟩
      · cases hpool.symm.trans h
      · cases hpool.symm.trans h
  | injectFault fault config =>
      obtain ⟨hshutdown, hpool, hstate⟩ := injectFault_state s.node fault config
      exact hs.serve hshutdown hpool hstate
  | serve hother hresolves hcause => exact hs.resolves hresolves

/-- The step takes the reported state no further than the node can serve: `stop` begins when the state
accepts nothing any more, `start` ends with no crash active, and a failed node recovers only while it
is started. -/
def Steady (s : NodeLife) : LifeEvent → Prop
  | .startEnd => s.node.mFault ≠ .crash
  | .stopBegin => ¬s.node.Reports
  | .serve (.injectFault .none _) =>
      s.node.mState = .failed → s.node.mShutdown = false ∧ s.node.mThreadPool = true
  | _ => True

/-- A task resolves the state of a node with a pool only. -/
theorem Phased.serves (hs : s.Phased) (htruthful : s.node.Truthful)
    (hpool : s.node.mThreadPool = true) (hfault : s.node.mFault ≠ .crash)
    (hstate : s.node.mState ≠ .failed) : s.node.Serves := by
  by_cases hreports : s.node.Reports
  · exact htruthful hreports
  · refine ⟨hs.starting ?_, hfault, hpool⟩
    apply hs.state _ hpool
    unfold SimulatedNode.Reports at hreports
    cases hnode : s.node.mState with
    | offline => exact .inl rfl
    | initializing => exact .inr rfl
    | failed => exact absurd hnode hstate
    | _ =>
        rw [hnode] at hreports
        exact absurd rfl hreports

theorem truthful_of_silent {n : SimulatedNode} (h : ¬n.Reports) : n.Truthful :=
  fun hreports => absurd hreports h

/-- A fault keeps the truth unless it is cleared from a failed node that cannot serve. -/
theorem injectFault_truthful_iff {n : SimulatedNode} (hn : n.Truthful) (fault : FaultType)
    (config : FaultConfig) :
    (n.injectFault fault config).Truthful ↔
      (fault = .none → n.mState = .failed → n.mShutdown = false ∧ n.mThreadPool = true) := by
  by_cases hcrash : fault = .crash
  · subst hcrash
    exact iff_of_true (truthful_of_silent nofun) nofun
  · by_cases hrecovers : fault = .none ∧ n.mState = .failed
    · obtain ⟨rfl, hstate⟩ := hrecovers
      obtain ⟨hshutdown, hpool, hfault, hworking⟩ :=
        SimulatedNode.injectFault_recovers hstate config
      have hreports : (n.injectFault .none config).Reports := by
        rcases hworking with h | h | h <;> rw [SimulatedNode.Reports, h] <;> rfl
      constructor
      · intro h _ _
        obtain ⟨hserves, -, hserves'⟩ := h hreports
        exact ⟨hshutdown ▸ hserves, hpool ▸ hserves'⟩
      · intro h _
        obtain ⟨hserves, hserves'⟩ := h rfl hstate
        exact ⟨hshutdown.trans hserves, by rw [hfault]; decide, hpool.trans hserves'⟩
    · rw [SimulatedNode.injectFault_keepsState hcrash fun hnone hstate => hrecovers ⟨hnone, hstate⟩]
      refine iff_of_true (fun hreports => ?_) fun hnone hstate => absurd ⟨hnone, hstate⟩ hrecovers
      obtain ⟨hshutdown, -, hpool⟩ := hn hreports
      exact ⟨hshutdown, hcrash, hpool⟩

theorem steady_injectFault_iff (fault : FaultType) (config : FaultConfig) :
    s.Steady (.serve (.injectFault fault config)) ↔
      (fault = .none → s.node.mState = .failed →
        s.node.mShutdown = false ∧ s.node.mThreadPool = true) := by
  cases fault with
  | none => exact ⟨fun h _ => h, fun h => h rfl⟩
  | _ => exact iff_of_true trivial nofun

/-- **The step lemma.**  From a truthful node just the steady steps lead to one. -/
theorem Phased.truthful_iff (hs : s.Phased) (hn : s.node.Truthful) {e : LifeEvent}
    (h : s.step e = some s') : s'.node.Truthful ↔ s.Steady e := by
  cases step_move h with
  | startBegin hphase => exact iff_of_true (truthful_of_silent nofun) trivial
  | startPool hphase =>
      refine iff_of_true (fun hreports => ?_) trivial
      obtain ⟨hshutdown, hfault, -⟩ := hn hreports
      exact ⟨hshutdown, hfault, rfl⟩
  | startEnd hphase =>
      constructor
      · intro h
        exact (h rfl).fault
      · intro hfault _
        exact ⟨hs.starting (.inr hphase), hfault, hs.pooled hphase⟩
  | stopBegin hphase =>
      constructor
      · intro h hreports
        cases (h hreports).shutdown
      · intro hsilent
        exact truthful_of_silent hsilent
  | stopPool hphase =>
      refine iff_of_true (truthful_of_silent fun hreports => ?_) trivial
      have hshutdown := (hn hreports).shutdown
      rw [hs.stopping (.inl hphase)] at hshutdown
      cases hshutdown
  | stopEnd hphase => exact iff_of_true (truthful_of_silent nofun) trivial
  | injectFault fault config =>
      rw [steady_injectFault_iff]
      exact injectFault_truthful_iff hn fault config
  | @serve e t hother hresolves hcause =>
      have hsteady : s.Steady (.serve e) := by
        cases e with
        | injectFault fault config => exact absurd rfl (hother fault config)
        | _ => trivial
      refine iff_of_true (hn.resolves hresolves ?_) hsteady
      intro hcrash hfailed hmoved
      rcases hcause with hpool | hsame | hserves
      · exact hs.serves hn hpool hcrash hfailed
      · exact absurd hsame hmoved
      · exact hserves

/-! ## What is seen while a node stops

Between the first and the last region of `stop` the node may refuse what its state accepts; the
second reading of the property leaves this interval out. -/

/-- `stop` is going on. -/
def Stopping (s : NodeLife) : Prop := s.phase = .stopping ∨ s.phase = .drained

/-- A `stop` may begin in any state, and until its end nothing is asked of a step. -/
def SteadyApart (s : NodeLife) : LifeEvent → Prop
  | .stopBegin => True
  | e => s.Stopping ∨ s.Steady e

instance (s : NodeLife) : Decidable s.Stopping := inferInstanceAs (Decidable (_ ∨ _))

instance (s : NodeLife) (e : LifeEvent) : Decidable (s.Steady e) :=
  match e with
  | .startEnd | .stopBegin => inferInstanceAs (Decidable (¬_))
  | .serve (.injectFault .none _) => inferInstanceAs (Decidable (_ → _))
  | .startBegin | .startPool | .stopPool | .stopEnd => inferInstanceAs (Decidable True)
  | .serve (.injectFault .crash _) | .serve (.injectFault .slowdown _)
  | .serve (.injectFault .partition _) => inferInstanceAs (Decidable True)
  | .serve (.submit _ _) | .serve (.cancel _) | .serve (.reprioritise _ _) | .serve (.task _ _) =>
      inferInstanceAs (Decidable True)

instance (s : NodeLife) (e : LifeEvent) : Decidable (s.SteadyApart e) :=
  match e with
  | .stopBegin => inferInstanceAs (Decidable True)
  | .startBegin | .startPool | .startEnd | .stopPool | .stopEnd | .serve _ =>
      inferInstanceAs (Decidable (_ ∨ _))

/-- Only the end of a `stop` ends it, and it leaves the node offline. -/
theorem Stopping.step (hs : s.Stopping) {e : LifeEvent} (h : s.step e = some s') :
    s'.Stopping ∨ ¬s'.node.Reports := by
  cases step_move h with
  | startBegin hphase | startPool hphase | startEnd hphase | stopBegin hphase =>
      rcases hs with hs | hs <;> cases hphase.symm.trans hs
  | stopPool hphase => exact .inl (.inr rfl)
  | stopEnd hphase => exact .inr nofun
  | injectFault fault config => exact .inl hs
  | serve hother hresolves hcause => exact .inl hs

/-- From a node that is truthful unless it stops. -/
theorem Phased.truthfulApart_iff (hs : s.Phased) (hn : ¬s.Stopping → s.node.Truthful)
    {e : LifeEvent} (h : s.step e = some s') (hsettled : ¬s'.Stopping) :
    s'.node.Truthful ↔ s.SteadyApart e := by
  by_cases hstopping : s.Stopping
  · have hsilent := (hstopping.step h).resolve_left hsettled
    refine iff_of_true (truthful_of_silent hsilent) ?_
    cases e with
    | stopBegin => trivial
    | _ => exact .inl hstopping
  · rw [hs.truthful_iff (hn hstopping) h]
    cases e with
    | stopBegin =>
        cases step_move h
        exact absurd (.inl rfl) hsettled
    | _ => exact (or_iff_right hstopping).symm

/-- The two agree where no partition is active. -/
def Agrees (s : NodeLife) : Prop := s.node.mFault ≠ .partition → s.node.StateAgrees

theorem Phased.init (mId : NodeId) (mConfig : SimulatedNodeConfig) :
    (nodeLife mId mConfig).init.Phased where
  settled _ hpool := by cases hpool
  starting hphase := by rcases hphase with hphase | hphase <;> cases hphase
  pooled hphase := by cases hphase
  stopping hphase := by rcases hphase with hphase | hphase <;> cases hphase
  drained _ := rfl
  state _ hpool := by cases hpool

end NodeLife

section Runs

variable {mId : NodeId} {mConfig : SimulatedNodeConfig} {s : NodeLife}

theorem truthful_of_steady (hs : (nodeLife mId mConfig).Reach NodeLife.Steady s) :
    s.Phased ∧ s.node.Truthful := by
  induction hs with
  | init => exact ⟨.init .., NodeLife.truthful_of_silent nofun⟩
  | step e _ hok h ih =>
      obtain ⟨hphased, htruthful⟩ := ih
      exact ⟨hphased.step h, (hphased.truthful_iff htruthful h).mpr hok⟩

theorem truthful_of_steadyApart (hs : (nodeLife mId mConfig).Reach NodeLife.SteadyApart s) :
    s.Phased ∧ (¬s.Stopping → s.node.Truthful) := by
  induction hs with
  | init => exact ⟨.init .., fun _ => NodeLife.truthful_of_silent nofun⟩
  | step e _ hok h ih =>
      obtain ⟨hphased, htruthful⟩ := ih
      exact ⟨hphased.step h,
        fun hsettled => (hphased.truthfulApart_iff htruthful h hsettled).mpr hok⟩

/-- **What a node reports is what it accepts as long as every step is steady**, and the first step
that is not ends it.  Without the states in which a `stop` is going on the same holds of the runs in
which nothing is asked of those. -/
theorem status_agrees (mId : NodeId) (mConfig : SimulatedNodeConfig) (s : NodeLife) :
    ((nodeLife mId mConfig).Reach NodeLife.Steady s →
      s.Agrees ∧ ∀ e s', s.step e = some s' → s'.node.mFault ≠ .partition →
        (s'.node.StateAgrees ↔ s.Steady e)) ∧
    ((nodeLife mId mConfig).Reach NodeLife.SteadyApart s →
      (¬s.Stopping → s.Agrees) ∧ ∀ e s', s.step e = some s' → s'.node.mFault ≠ .partition →
        ¬s'.Stopping → (s'.node.StateAgrees ↔ s.SteadyApart e)) := by
  constructor
  · intro hs
    obtain ⟨hphased, htruthful⟩ := truthful_of_steady hs
    constructor
    · intro hpartition
      exact (SimulatedNode.stateAgrees_iff hpartition).mpr htruthful
    · intro e s' h hpartition
      rw [SimulatedNode.stateAgrees_iff hpartition]
      exact hphased.truthful_iff htruthful h
  · intro hs
    obtain ⟨hphased, htruthful⟩ := truthful_of_steadyApart hs
    constructor
    · intro hsettled hpartition
      exact (SimulatedNode.stateAgrees_iff hpartition).mpr (htruthful hsettled)
    · intro e s' h hpartition hsettled
      rw [SimulatedNode.stateAgrees_iff hpartition]
      exact hphased.truthfulApart_iff htruthful h hsettled

end Runs

/-- A node that is started, crashed and recovered, and then stopped: both kinds of run, before and
after the stop. -/
theorem status_agrees_recovered :
    (∃ s, (nodeLife 1 {}).Reach NodeLife.Steady s ∧ s.node.mState = .idle ∧ s.Agrees) ∧
      ∃ s, (nodeLife 1 {}).Reach NodeLife.SteadyApart s ∧ s.node.mState = .offline ∧ s.Agrees := by
  constructor
  · obtain ⟨s, hs, hend⟩ := (nodeLife 1 {}).exists_reach NodeLife.Steady
      [.startBegin, .startPool, .startEnd, .serve (.injectFault .crash {}),
        .serve (.injectFault .none {})]
      (fun s => s.node.mState == .idle) (by decide +kernel)
    exact ⟨s, hs, by simpa using hend, ((status_agrees 1 {} s).1 hs).1⟩
  · obtain ⟨s, hs, hend⟩ := (nodeLife 1 {}).exists_reach NodeLife.SteadyApart
      [.startBegin, .startPool, .startEnd, .serve (.submit {} ⟨0, 1⟩),
        .serve (.task 0 .submitPriority), .stopBegin, .serve (.task 0 .beginJob),
        .serve (.task 0 (.payload true 5)), .serve (.task 0 .completeJob), .serve (.task 0 .onDone),
        .stopPool, .stopEnd]
      (fun s => s.node.mState == .offline && !decide s.Stopping) (by decide +kernel)
    simp only [Bool.and_eq_true, beq_iff_eq, Bool.not_eq_true', decide_eq_false_iff_not] at hend
    exact ⟨s, hs, hend.1, ((status_agrees 1 {} s).2 hs).1 hend.2⟩

/-- **A node that was never started reports Idle.**  It is crashed and recovered before its `start`,
and rejects every job. -/
theorem idle_before_start : ∃ s, (nodeLife 1 {}).Reach Machine.anyEvent s ∧
    s.phase = .settled ∧ s.node.mThreadPool = false ∧ s.node.mFault = .none ∧
      s.node.mState = .idle ∧ (∀ job smHandle, (s.node.submit job smHandle).isOk = false) ∧
      ¬s.node.StateAgrees := by
  obtain ⟨s, hs, hend⟩ := (nodeLife 1 {}).exists_reach Machine.anyEvent
    [.serve (.injectFault .crash {}), .serve (.injectFault .none {})]
    (fun s => s.phase = .settled && !s.node.mThreadPool && s.node.mFault == .none &&
      s.node.mState == .idle) (by decide +kernel)
  simp only [Bool.and_eq_true, beq_iff_eq, Bool.not_eq_true', decide_eq_true_eq] at hend
  obtain ⟨⟨⟨hphase, hpool⟩, hfault⟩, hstate⟩ := hend
  refine ⟨s, hs, hphase, hpool, hfault, hstate, fun job smHandle => ?_, fun h => ?_⟩
  · rw [← Bool.not_eq_true, SimulatedNode.submit_isOk_iff]
    rintro ⟨-, hserves, -⟩
    cases hpool.symm.trans hserves.pool
  · exact (h.idle (.inr (.inl hpool))).1 hstate

end FatpBalancer
