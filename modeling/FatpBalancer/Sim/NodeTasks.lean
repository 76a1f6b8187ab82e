/-
# The simulated node: tasks and their outcomes

A node that has been started, with the task of every job it has accepted.  The thread pool runs each
task it has been given once, in any order; the slot map never hands out a handle twice; every lock
region is one step.

Whether a job runs is decided by its slot: a cancel erases it while it is queued, and the task finds
it gone.  One invariant says, for each point a task can be at, what its slot holds and what has
happened to its job so far.

`simulatedNode` is the machine, with `stepTask` for the steps of one task.  `Task.Sound` is the
invariant of a task at each of its points and `Sound` that of the node; from it `Task.Outcome` says
what can have become of a job, and `finishes` that a task can always be taken to its end.

`Counted` is about the depth: as long as fewer than 2³² tasks are outstanding the 32-bit counter is
their number.  The last part shows that the bound is needed: cancelled jobs free their slot at once
and keep their task, so that one slot can be used to flood the pool.
-/
import FatpBalancer.Lib.Machine
import FatpBalancer.Lib.Table
import FatpBalancer.Sim.SimulatedNode

namespace FatpBalancer

/-! ## Tasks and steps

`executeJob` is split at its two lock regions, with the payload between them; the callback comes
after the second one. -/

/-- Where a task is, with what it has in hand there. -/
inductive TaskPc
  /-- the job has its slot; `submit` is about to hand the task to the pool -/
  | registered
  /-- in the pool -/
  | queued
  /-- in `executeJob`, past the first lock region -/
  | running (job : Job)
  /-- the payload has returned or thrown -/
  | ran (job : Job) (succeeded : Bool) (elapsedUs : Nat)
  /-- past the second lock region, before `onDone` -/
  | completed (job : Job) (succeeded : Bool)
  /-- `onDone` has been invoked -/
  | called
  /-- the slot was gone -/
  | discarded
  deriving DecidableEq

/-- An accepted job: what its task has captured, and where the task is. -/
structure Task where
  job : Job
  smHandle : SlotMapHandle
  pc : TaskPc := .registered
  /-- history: the successful cancels of its handle -/
  cancels : Nat := 0
  /-- history: the runs of its payload -/
  payloadRuns : Nat := 0
  /-- history: the invocations of its completion callback -/
  callbacks : Nat := 0
  deriving DecidableEq

/-- The node, its tasks in the order of their acceptance, and what has happened to each job. -/
structure NodeTasks where
  node : SimulatedNode
  tasks : List Task := []

/-- What happens to one task. -/
inductive TaskAction
  /-- `mThreadPool->submit_priority` -/
  | submitPriority
  /-- the first lock region of `executeJob` -/
  | beginJob
  | payload (succeeded : Bool) (elapsedUs : Nat)
  /-- the second lock region of `executeJob` -/
  | completeJob
  | onDone

/-- A call from outside, or a step of a task. -/
inductive NodeEvent
  | submit (job : Job) (smHandle : SlotMapHandle)
  | cancel (handle : JobHandle)
  | reprioritise (handle : JobHandle) (newPriority : Priority)
  | injectFault (fault : FaultType) (config : FaultConfig)
  | task (k : Nat) (a : TaskAction)

namespace NodeTasks

/-- Task `k` goes on, if the action is the next one for it. -/
def stepTask (s : NodeTasks) (k : Nat) (t : Task) : TaskAction → TaskPc → Option NodeTasks
  | .submitPriority, .registered =>
      some { s with tasks := s.tasks.set k { t with pc := .queued } }
  | .beginJob, .queued =>
      let r := s.node.beginJob t.job t.smHandle
      some {
        node := r.2
        tasks := s.tasks.set k { t with pc := r.1.elim .discarded .running } }
  | .payload succeeded elapsedUs, .running job =>
      some { s with
        tasks := s.tasks.set k { t with
          pc := .ran (s.node.observe job elapsedUs) succeeded elapsedUs
          payloadRuns := t.payloadRuns + 1 } }
  | .completeJob, .ran job succeeded elapsedUs =>
      some {
        node := s.node.completeJob job t.smHandle succeeded elapsedUs
        tasks := s.tasks.set k { t with pc := .completed job succeeded } }
  | .onDone, .completed _ _ =>
      some { s with
        tasks := s.tasks.set k { t with
          pc := .called
          callbacks := t.callbacks + 1 } }
  | _, _ => none

/-- One lock region, or one step of a task outside the lock. -/
def step (s : NodeTasks) : NodeEvent → Option NodeTasks
  | .submit job smHandle =>
      -- a generational slot map never hands out a handle twice
      if s.tasks.any (·.smHandle = smHandle) then none
      else
        match s.node.submit job smHandle with
        | .error _ => some s
        | .ok node => some { node, tasks := s.tasks ++ [{ job := s.node.stamp job, smHandle }] }
  | .cancel handle =>
      let r := s.node.cancel handle
      match r.1 with
      | .error _ => some { s with node := r.2 }
      | .ok () => some {
          node := r.2
          tasks := s.tasks.map fun t =>
            if t.smHandle = .ofJobHandle handle then { t with cancels := t.cancels + 1 } else t }
  | .reprioritise handle newPriority =>
      some { s with node := (s.node.reprioritise handle newPriority).2 }
  | .injectFault fault config => some { s with node := s.node.injectFault fault config }
  | .task k a => s.tasks[k]?.bind fun t => s.stepTask k t a t.pc

end NodeTasks

/-- A node that has been started. -/
def simulatedNode (mId : NodeId) (mConfig : SimulatedNodeConfig) : Machine NodeTasks NodeEvent where
  init := { node := ({ mId, mConfig } : SimulatedNode).start }
  step := NodeTasks.step

/-! ## The steps of one task

Read off `stepTask` once, with the guards of each branch. -/

namespace NodeTasks

/-- One constructor for each point at which a task goes on. -/
inductive TaskMove (s : NodeTasks) (k : Nat) (t : Task) : NodeTasks → Prop
  | submitPriority (hpc : t.pc = .registered) :
      TaskMove s k t { s with tasks := s.tasks.set k { t with pc := .queued } }
  | beginJob (hpc : t.pc = .queued) :
      TaskMove s k t
        { node := (s.node.beginJob t.job t.smHandle).2
          tasks := s.tasks.set k
            { t with pc := (s.node.beginJob t.job t.smHandle).1.elim .discarded .running } }
  | payload (job : Job) (succeeded : Bool) (elapsedUs : Nat) (hpc : t.pc = .running job) :
      TaskMove s k t
        { s with
          tasks := s.tasks.set k
            { t with
              pc := .ran (s.node.observe job elapsedUs) succeeded elapsedUs
              payloadRuns := t.payloadRuns + 1 } }
  | completeJob (job : Job) (succeeded : Bool) (elapsedUs : Nat)
      (hpc : t.pc = .ran job succeeded elapsedUs) :
      TaskMove s k t
        { node := s.node.completeJob job t.smHandle succeeded elapsedUs
          tasks := s.tasks.set k { t with pc := .completed job succeeded } }
  | onDone (job : Job) (succeeded : Bool) (hpc : t.pc = .completed job succeeded) :
      TaskMove s k t
        { s with
          tasks := s.tasks.set k { t with pc := .called, callbacks := t.callbacks + 1 } }

/-- The step function of a task takes one of the moves. -/
theorem stepTask_move {s s' : NodeTasks} {k : Nat} {t : Task} {a : TaskAction}
    (h : s.stepTask k t a t.pc = some s') : TaskMove s k t s' := by
  cases a with
  | submitPriority =>
      cases hpc : t.pc <;> rw [hpc] at h <;> cases h
      exact .submitPriority hpc
  | beginJob =>
      cases hpc : t.pc <;> rw [hpc] at h <;> cases h
      exact .beginJob hpc
  | payload succeeded elapsedUs =>
      cases hpc : t.pc <;> rw [hpc] at h <;> cases h
      exact .payload _ succeeded elapsedUs hpc
  | completeJob =>
      cases hpc : t.pc <;> rw [hpc] at h <;> cases h
      exact .completeJob _ _ _ hpc
  | onDone =>
      cases hpc : t.pc <;> rw [hpc] at h <;> cases h
      exact .onDone _ _ hpc

/-- A task's step changes the node as its lock region does. -/
theorem TaskMove.follows {s s' : NodeTasks} {k : Nat} {t : Task} (h : s.TaskMove k t s') :
    s.node.Follows s'.node := by
  cases h with
  | submitPriority hpc => exact .refl _
  | beginJob hpc => exact s.node.follows_beginJob t.job t.smHandle
  | payload job succeeded elapsedUs hpc => exact .refl _
  | completeJob job succeeded elapsedUs hpc =>
      exact s.node.follows_completeJob job t.smHandle succeeded elapsedUs
  | onDone job succeeded hpc => exact .refl _

/-- Whatever happens but a fault. -/
theorem step_follows {s s' : NodeTasks} {e : NodeEvent} (h : s.step e = some s')
    (hfault : ∀ fault config, e ≠ .injectFault fault config) : s.node.Follows s'.node := by
  cases e with
  | submit job smHandle =>
      rw [step] at h
      split at h
      · cases h
      · split at h
        · exact Option.some.inj h ▸ .refl _
        · next node hnode => exact Option.some.inj h ▸ SimulatedNode.follows_submit hnode
  | cancel handle =>
      simp only [step] at h
      split at h <;> exact Option.some.inj h ▸ s.node.follows_cancel handle
  | reprioritise handle newPriority =>
      exact Option.some.inj h ▸ s.node.follows_reprioritise handle newPriority
  | injectFault fault config => exact absurd rfl (hfault fault config)
  | task k a =>
      obtain ⟨t, -, h⟩ := Option.bind_eq_some_iff.mp h
      exact (stepTask_move h).follows

end NodeTasks

/-! ## What the points of a task mean

The slot is the hinge: a queued task has it, or has lost it to a cancel, and a running one has taken
it into its own hands. -/

/-- What the slot of a task holds and what has happened to its job, by the point it is at. -/
def Task.Sound (slot : Option PendingJobState) (t : Task) : Prop :=
  match t.pc with
  | .registered | .queued =>
      (slot = some .queued ∧ t.cancels = 0 ∨ slot = none ∧ t.cancels = 1) ∧
        t.payloadRuns = 0 ∧ t.callbacks = 0
  | .running _ => slot = some .running ∧ t.cancels = 0 ∧ t.payloadRuns = 0 ∧ t.callbacks = 0
  | .ran .. => slot = some .running ∧ t.cancels = 0 ∧ t.payloadRuns = 1 ∧ t.callbacks = 0
  | .completed .. => slot = none ∧ t.cancels = 0 ∧ t.payloadRuns = 1 ∧ t.callbacks = 0
  | .called => slot = none ∧ t.cancels = 0 ∧ t.payloadRuns = 1 ∧ t.callbacks = 1
  | .discarded => slot = none ∧ t.cancels = 1 ∧ t.payloadRuns = 0 ∧ t.callbacks = 0

namespace NodeTasks

/-- Every task is sound, and different tasks have different handles. -/
structure Sound (s : NodeTasks) : Prop where
  distinct : (s.tasks.map (·.smHandle)).Nodup
  tasks : ∀ t ∈ s.tasks, t.Sound (s.node.mPendingSlots.lookup t.smHandle)

variable {s s' : NodeTasks}

/-- Another position holds a task with another handle. -/
theorem Sound.handle_ne (hs : s.Sound) {j k : Nat} {t u : Task} (hk : s.tasks[k]? = some t)
    (hj : s.tasks[j]? = some u) (hne : j ≠ k) : u.smHandle ≠ t.smHandle := by
  intro heq
  apply hne
  have hk' : (s.tasks.map (·.smHandle))[k]? = some t.smHandle := by simp [hk]
  have hj' : (s.tasks.map (·.smHandle))[j]? = some t.smHandle := by simp [hj, heq]
  have hlt : j < (s.tasks.map (·.smHandle)).length := (List.getElem?_eq_some_iff.mp hj').1
  exact (List.getElem?_inj hlt hs.distinct).mp (hj'.trans hk'.symm)

/-- One task goes on, and no slot but its own changes. -/
theorem Sound.set (hs : s.Sound) {k : Nat} {t t' : Task} (hk : s.tasks[k]? = some t)
    (hhandle : t'.smHandle = t.smHandle) {node : SimulatedNode}
    (hframe : ∀ h, h ≠ t.smHandle → node.mPendingSlots.lookup h = s.node.mPendingSlots.lookup h)
    (hown : t'.Sound (node.mPendingSlots.lookup t.smHandle)) :
    Sound { node, tasks := s.tasks.set k t' } where
  distinct := by
    have hsame : (s.tasks.set k t').map (·.smHandle) = s.tasks.map (·.smHandle) := by
      rw [List.map_set, hhandle]
      apply Table.set_same
      simp [hk]
    show ((s.tasks.set k t').map (·.smHandle)).Nodup
    rw [hsame]
    exact hs.distinct
  tasks u hu := by
    obtain ⟨j, hj⟩ := List.mem_iff_getElem?.mp hu
    rcases Table.getElem?_set_cases hj with ⟨rfl, rfl⟩ | ⟨hne, hj⟩
    · show u.Sound (node.mPendingSlots.lookup u.smHandle)
      rw [hhandle]
      exact hown
    · show u.Sound (node.mPendingSlots.lookup u.smHandle)
      rw [hframe _ (hs.handle_ne hk hj hne)]
      exact hs.tasks u (List.mem_of_getElem? hj)

/-- A task whose slot stays as it is. -/
theorem Sound.setOwn (hs : s.Sound) {k : Nat} {t t' : Task} (hk : s.tasks[k]? = some t)
    (hhandle : t'.smHandle = t.smHandle)
    (hown : t'.Sound (s.node.mPendingSlots.lookup t.smHandle)) :
    Sound { s with tasks := s.tasks.set k t' } :=
  hs.set hk hhandle (fun _ _ => rfl) hown

/-- A task's own step. -/
theorem Sound.move (hs : s.Sound) {k : Nat} {t : Task} (hk : s.tasks[k]? = some t)
    (hm : s.TaskMove k t s') : s'.Sound := by
  have ht := hs.tasks t (List.mem_of_getElem? hk)
  cases hm with
  | submitPriority hpc =>
      rw [Task.Sound, hpc] at ht
      exact hs.setOwn hk rfl ht
  | beginJob hpc =>
      rw [Task.Sound, hpc] at ht
      obtain ⟨hslots, hruns, hcalls⟩ := ht
      refine hs.set hk (by rfl) ?_ ?_
      · intro h hne
        rcases hslots with ⟨hslot, -⟩ | ⟨hslot, -⟩
        · rw [(SimulatedNode.beginJob_present _ hslot).2.1, AList.lookup_insert_ne hne]
        · rw [(SimulatedNode.beginJob_absent _ hslot).2.1]
      · rcases hslots with ⟨hslot, hcancels⟩ | ⟨hslot, hcancels⟩
        · obtain ⟨⟨job, hjob⟩, hslots', -⟩ := SimulatedNode.beginJob_present t.job hslot
          rw [hslots', AList.lookup_insert, hjob]
          exact ⟨rfl, hcancels, hruns, hcalls⟩
        · -- cancelled before it began: the task is discarded
          obtain ⟨hjob, hslots', -⟩ := SimulatedNode.beginJob_absent t.job hslot
          rw [hslots', hjob]
          exact ⟨hslot, hcancels, hruns, hcalls⟩
  | payload job succeeded elapsedUs hpc =>
      rw [Task.Sound, hpc] at ht
      obtain ⟨hslot, hcancels, hruns, hcalls⟩ := ht
      exact hs.setOwn hk rfl ⟨hslot, hcancels, congrArg (· + 1) hruns, hcalls⟩
  | completeJob job succeeded elapsedUs hpc =>
      rw [Task.Sound, hpc] at ht
      have hslots := (s.node.completeJob_counts job t.smHandle succeeded elapsedUs).1
      refine hs.set hk (by rfl) ?_ ?_
      · intro h hne
        rw [hslots, AList.lookup_erase_ne hne]
      · rw [hslots, AList.lookup_erase]
        exact ⟨rfl, ht.2⟩
  | onDone job succeeded hpc =>
      rw [Task.Sound, hpc] at ht
      obtain ⟨hslot, hcancels, hruns, hcalls⟩ := ht
      exact hs.setOwn hk rfl ⟨hslot, hcancels, hruns, congrArg (· + 1) hcalls⟩

/-- A successful cancel finds a task that has not begun, or none. -/
theorem Sound.cancel (hs : s.Sound) (handle : JobHandle)
    (hslot : s.node.mPendingSlots.lookup (.ofJobHandle handle) = some .queued)
    {node : SimulatedNode}
    (hnode : node.mPendingSlots = s.node.mPendingSlots.erase (.ofJobHandle handle)) :
    Sound { node, tasks := s.tasks.map fun t =>
      if t.smHandle = .ofJobHandle handle then { t with cancels := t.cancels + 1 } else t } where
  distinct := by
    have hsame : (s.tasks.map fun t => if t.smHandle = .ofJobHandle handle then
        { t with cancels := t.cancels + 1 } else t).map (·.smHandle) =
          s.tasks.map (·.smHandle) := by
      rw [List.map_map]
      apply List.map_congr_left
      intro t _
      show (if _ then _ else _ : Task).smHandle = _
      split <;> rfl
    show (List.map _ (List.map _ _)).Nodup
    rw [hsame]
    exact hs.distinct
  tasks u hu := by
    obtain ⟨t, ht, rfl⟩ := List.mem_map.mp hu
    have hsound := hs.tasks t ht
    by_cases heq : t.smHandle = .ofJobHandle handle
    · rw [heq, hslot] at hsound
      rw [if_pos heq]
      show Task.Sound (node.mPendingSlots.lookup t.smHandle) _
      rw [hnode, heq, AList.lookup_erase]
      -- only a task that has not begun has a queued slot
      cases hpc : t.pc <;> simp_all [Task.Sound]
    · rw [if_neg heq]
      show Task.Sound (node.mPendingSlots.lookup t.smHandle) _
      rw [hnode, AList.lookup_erase_ne heq]
      exact hsound

/-- A new task has a queued slot of its own. -/
theorem Sound.submit (hs : s.Sound) {job : Job} {smHandle : SlotMapHandle}
    (hfresh : ∀ t ∈ s.tasks, t.smHandle ≠ smHandle) {node : SimulatedNode}
    (hnode : node.mPendingSlots = s.node.mPendingSlots.insert smHandle .queued) :
    Sound { node, tasks := s.tasks ++ [{ job, smHandle }] } where
  distinct := by
    show ((s.tasks ++ [({ job, smHandle } : Task)]).map (·.smHandle)).Nodup
    rw [List.map_append, List.nodup_append]
    refine ⟨hs.distinct, List.nodup_singleton _, ?_⟩
    rintro h hmem h' hmem' rfl
    obtain ⟨t, ht, rfl⟩ := List.mem_map.mp hmem
    exact hfresh t ht (List.mem_singleton.mp hmem')
  tasks u hu := by
    show Task.Sound (node.mPendingSlots.lookup u.smHandle) u
    rw [hnode]
    rcases List.mem_append.mp hu with hold | hnew
    · rw [AList.lookup_insert_ne (hfresh u hold)]
      exact hs.tasks u hold
    · obtain rfl := List.mem_singleton.mp hnew
      rw [AList.lookup_insert]
      exact ⟨.inl ⟨rfl, rfl⟩, rfl, rfl⟩

/-- A node whose slots are the same serves the same tasks. -/
theorem Sound.node (hs : s.Sound) {node : SimulatedNode}
    (hnode : node.mPendingSlots = s.node.mPendingSlots) : Sound { s with node } where
  distinct := hs.distinct
  tasks t ht := by
    show t.Sound (node.mPendingSlots.lookup t.smHandle)
    rw [hnode]
    exact hs.tasks t ht

/-- **The step lemma.** -/
theorem Sound.step (hs : s.Sound) {e : NodeEvent} (h : s.step e = some s') : s'.Sound := by
  cases e with
  | submit job smHandle =>
      rw [NodeTasks.step] at h
      split at h
      · cases h
      · next hfresh =>
          have hfresh : ∀ t ∈ s.tasks, t.smHandle ≠ smHandle := by simpa using hfresh
          split at h
          · exact Option.some.inj h ▸ hs
          · next node hnode =>
              obtain rfl := Option.some.inj h
              exact hs.submit hfresh (SimulatedNode.submit_accepted hnode).1
  | cancel handle =>
      simp only [NodeTasks.step] at h
      rcases s.node.cancel_cases handle with ⟨hok, hslot, hslots, -⟩ | ⟨⟨e, he⟩, -, hsame⟩
      · rw [hok] at h
        obtain rfl := Option.some.inj h
        exact hs.cancel handle hslot hslots
      · rw [he] at h
        obtain rfl := Option.some.inj h
        exact hs.node (congrArg SimulatedNode.mPendingSlots hsame)
  | reprioritise handle newPriority =>
      obtain rfl := Option.some.inj h
      exact hs.node (SimulatedNode.reprioritise_keeps ..).1
  | injectFault fault config =>
      obtain rfl := Option.some.inj h
      exact hs.node (SimulatedNode.injectFault_keeps ..).1
  | task k a =>
      obtain ⟨t, hk, h⟩ := Option.bind_eq_some_iff.mp h
      exact hs.move hk (stepTask_move h)

end NodeTasks

/-! ## The depth counter

Incremented by `submit`, and decremented by the task itself, in its discard or in its completion.
-/

/-- The task has not passed its final lock region. -/
def Task.isOpen (t : Task) : Bool :=
  match t.pc with
  | .registered | .queued | .running _ | .ran .. => true
  | .completed .. | .called | .discarded => false

namespace NodeTasks

variable {s s' : NodeTasks}

/-- The accepted jobs whose task has not passed its completion or discard. -/
def outstanding (s : NodeTasks) : Nat := s.tasks.countP Task.isOpen

/-- No accepted job takes the number of outstanding tasks to 2³². -/
def Fits (s : NodeTasks) : NodeEvent → Prop
  | .submit job smHandle =>
      (s.node.submit job smHandle).isOk = true → s.outstanding + 1 < 2 ^ 32
  | _ => True

instance (s : NodeTasks) (e : NodeEvent) : Decidable (s.Fits e) :=
  match e with
  | .submit _ _ => inferInstanceAs (Decidable (_ → _))
  | .cancel _ | .reprioritise _ _ | .injectFault _ _ | .task _ _ => inferInstanceAs (Decidable True)

/-- The counter is the number of outstanding tasks. -/
structure Counted (s : NodeTasks) : Prop where
  depth : s.node.mQueueDepth = s.outstanding
  lt : s.outstanding < 2 ^ 32

/-- A count of tasks that does not look at their cancels. -/
theorem countP_cancelled {p : Task → Bool}
    (hp : ∀ t : Task, p { t with cancels := t.cancels + 1 } = p t) (handle : JobHandle)
    (tasks : List Task) :
    (tasks.map fun t => if t.smHandle = .ofJobHandle handle then
      { t with cancels := t.cancels + 1 } else t).countP p = tasks.countP p := by
  rw [List.countP_map]
  apply List.countP_congr
  intro t _
  show p (if _ then _ else _) = true ↔ _
  split
  · rw [hp t]
  · rfl

/-- An open task is outstanding. -/
theorem one_le_outstanding {k : Nat} {t : Task} (hk : s.tasks[k]? = some t)
    (ht : t.isOpen = true) : 1 ≤ s.outstanding := by
  rw [outstanding, Nat.one_le_iff_ne_zero, ← Nat.pos_iff_ne_zero, List.countP_pos_iff]
  exact ⟨t, List.mem_of_getElem? hk, ht⟩

/-- A task leaves the depth alone until it closes, and is then counted off. -/
theorem TaskMove.depth {k : Nat} {t : Task} (hm : s.TaskMove k t s') :
    ∃ t', s'.tasks = s.tasks.set k t' ∧
      (t'.isOpen = t.isOpen ∧ s'.node.mQueueDepth = s.node.mQueueDepth ∨
        t.isOpen = true ∧ t'.isOpen = false ∧
          s'.node.mQueueDepth = SimulatedNode.decrement s.node.mQueueDepth) := by
  cases hm with
  | submitPriority hpc | payload job succeeded elapsedUs hpc | onDone job succeeded hpc =>
      refine ⟨_, rfl, .inl ⟨?_, rfl⟩⟩
      rw [Task.isOpen, Task.isOpen, hpc]
  | beginJob hpc =>
      refine ⟨_, rfl, ?_⟩
      have hopen : t.isOpen = true := by rw [Task.isOpen, hpc]
      rw [hopen]
      cases hslot : s.node.mPendingSlots.lookup t.smHandle with
      | none =>
          obtain ⟨hjob, -, hdepth⟩ := SimulatedNode.beginJob_absent t.job hslot
          rw [hjob]
          exact .inr ⟨rfl, rfl, hdepth⟩
      | some st =>
          obtain ⟨⟨job, hjob⟩, -, hdepth⟩ := SimulatedNode.beginJob_present t.job hslot
          rw [hjob]
          exact .inl ⟨rfl, hdepth⟩
  | completeJob job succeeded elapsedUs hpc =>
      refine ⟨_, rfl, .inr ⟨?_, rfl, (SimulatedNode.completeJob_counts ..).2⟩⟩
      rw [Task.isOpen, hpc]

/-- A task's step closes at most itself. -/
theorem Counted.move (hs : s.Counted) {k : Nat} {t : Task} (hk : s.tasks[k]? = some t)
    (hm : s.TaskMove k t s') : s'.Counted := by
  obtain ⟨t', htasks, hdepth⟩ := hm.depth
  have hcount : s'.outstanding + t.isOpen.toNat = s.outstanding + t'.isOpen.toNat := by
    rw [outstanding, htasks]
    exact Table.countP_set hk t'
  have hs₁ := hs.depth
  have hs₂ := hs.lt
  rcases hdepth with ⟨hopen, hsame⟩ | ⟨hopen, hclosed, hdec⟩
  · rw [hopen] at hcount
    constructor <;> omega
  · -- the task that closes is one of those counted, so the counter does not saturate
    rw [hopen, hclosed, Bool.toNat_true, Bool.toNat_false] at hcount
    have hpos := one_le_outstanding hk hopen
    rw [SimulatedNode.decrement, if_pos (by omega), fetchSub32_of_pos (by omega)] at hdec
    constructor <;> omega

/-- One more task, which fits. -/
theorem Counted.submit (hs : s.Counted) {node : SimulatedNode} {t : Task} (ht : t.isOpen = true)
    (hdepth : node.mQueueDepth = fetchAdd32 s.node.mQueueDepth)
    (hlt : s.outstanding + 1 < 2 ^ 32) : Counted { node, tasks := s.tasks ++ [t] } := by
  have hone : (s.tasks ++ [t]).countP Task.isOpen = s.outstanding + 1 := by
    rw [List.countP_append, List.countP_singleton, if_pos ht]
    rfl
  constructor
  · show node.mQueueDepth = List.countP _ _
    rw [hdepth, hs.depth, hone, fetchAdd32, Nat.mod_eq_of_lt hlt]
  · show List.countP _ _ < _
    rw [hone]
    exact hlt

/-- A cancel, successful or not, neither opens nor closes a task. -/
theorem Counted.cancel (hs : s.Counted) (handle : JobHandle) {node : SimulatedNode}
    (hdepth : node.mQueueDepth = s.node.mQueueDepth) :
    Counted { node, tasks := s.tasks.map fun t =>
      if t.smHandle = .ofJobHandle handle then { t with cancels := t.cancels + 1 } else t } := by
  have hsame : (s.tasks.map fun t => if t.smHandle = .ofJobHandle handle then
      { t with cancels := t.cancels + 1 } else t).countP Task.isOpen = s.outstanding :=
    countP_cancelled (fun _ => rfl) handle s.tasks
  constructor
  · exact hdepth.trans (hs.depth.trans hsame.symm)
  · show List.countP _ _ < _
    rw [hsame]
    exact hs.lt

/-- As long as they fit, the outstanding tasks are counted exactly. -/
theorem Counted.step (hs : s.Counted) {e : NodeEvent} (hok : s.Fits e)
    (h : s.step e = some s') : s'.Counted := by
  cases e with
  | submit job smHandle =>
      rw [NodeTasks.step] at h
      split at h
      · cases h
      · split at h
        · exact Option.some.inj h ▸ hs
        · next node hnode =>
            obtain rfl := Option.some.inj h
            have hlt : s.outstanding + 1 < 2 ^ 32 := hok (by rw [hnode]; rfl)
            exact hs.submit rfl (SimulatedNode.submit_accepted hnode).2 hlt
  | cancel handle =>
      have hdepth : (s.node.cancel handle).2.mQueueDepth = s.node.mQueueDepth := by
        rcases s.node.cancel_cases handle with ⟨-, -, -, hdepth⟩ | ⟨-, -, hsame⟩
        · exact hdepth
        · rw [hsame]
      simp only [NodeTasks.step] at h
      split at h
      · obtain rfl := Option.some.inj h
        exact ⟨hdepth.trans hs.depth, hs.lt⟩
      · obtain rfl := Option.some.inj h
        exact hs.cancel handle hdepth
  | reprioritise handle newPriority =>
      obtain rfl := Option.some.inj h
      exact ⟨(SimulatedNode.reprioritise_keeps ..).2.trans hs.depth, hs.lt⟩
  | injectFault fault config =>
      obtain rfl := Option.some.inj h
      exact ⟨(SimulatedNode.injectFault_keeps ..).2.trans hs.depth, hs.lt⟩
  | task k a =>
      obtain ⟨t, hk, h⟩ := Option.bind_eq_some_iff.mp h
      exact hs.move hk (stepTask_move h)

end NodeTasks

/-! ## Outcomes

A job is executed, or cancelled, and never both; its callback comes at most once. -/

/-- The task is done: its callback has been invoked, or it was discarded. -/
def TaskPc.isFinal : TaskPc → Bool
  | .called | .discarded => true
  | _ => false

/-- The task has found its slot, and its job is running or has run. -/
def TaskPc.hasBegun : TaskPc → Bool
  | .running _ | .ran .. | .completed .. | .called => true
  | .registered | .queued | .discarded => false

/-- A cancelled job never runs and never calls back, a job runs and calls back at most once, and in
the end exactly one of the two has happened. -/
structure Task.Outcome (t : Task) : Prop where
  cancelled : t.cancels ≠ 0 → t.cancels = 1 ∧ t.payloadRuns = 0 ∧ t.callbacks = 0
  once : t.payloadRuns ≤ 1 ∧ t.callbacks ≤ t.payloadRuns
  decided : t.pc.isFinal = true →
    t.cancels = 1 ∧ t.payloadRuns = 0 ∧ t.callbacks = 0 ∨
      t.cancels = 0 ∧ t.payloadRuns = 1 ∧ t.callbacks = 1

/-- Read off the point the task is at. -/
theorem Task.Sound.outcome {slot : Option PendingJobState} {t : Task} (h : t.Sound slot) :
    t.Outcome := by
  rw [Task.Sound] at h
  constructor
  · intro hcancels
    cases hpc : t.pc <;> rw [hpc] at h <;> dsimp only at h <;> omega
  · cases hpc : t.pc <;> rw [hpc] at h <;> dsimp only at h <;> omega
  · intro hfinal
    cases hpc : t.pc <;> rw [hpc] at h hfinal <;>
      first | exact .inl h.2 | exact .inr h.2 | cases hfinal

namespace NodeTasks

/-- The task's own steps, each of which is possible, take it to its end. -/
inductive Finishes (k : Nat) : NodeTasks → Prop
  | done {s : NodeTasks} {t : Task} : s.tasks[k]? = some t → t.pc.isFinal = true → Finishes k s
  | step {s s' : NodeTasks} (a : TaskAction) :
      s.step (.task k a) = some s' → Finishes k s' → Finishes k s

variable {s s' : NodeTasks}

/-- A task goes on by an action that is the next one for it. -/
theorem Finishes.of_stepTask {k : Nat} {t t' : Task} {a : TaskAction} {node : SimulatedNode}
    (hk : s.tasks[k]? = some t)
    (h : s.stepTask k t a t.pc = some { node, tasks := s.tasks.set k t' })
    (hrest : ∀ s' : NodeTasks, s'.tasks[k]? = some t' → Finishes k s') : Finishes k s := by
  have hlt := (List.getElem?_eq_some_iff.mp hk).1
  apply Finishes.step a
  · show s.tasks[k]?.bind _ = _
    rw [hk]
    exact h
  · apply hrest
    exact List.getElem?_set_self hlt

/-- What is completed has its callback left. -/
theorem finishes_completed {k : Nat} {t : Task} {job : Job} {succeeded : Bool}
    (hpc : t.pc = .completed job succeeded) (hk : s.tasks[k]? = some t) : Finishes k s := by
  apply Finishes.of_stepTask (a := .onDone) hk
  · rw [hpc]
    rfl
  · intro s' hk'
    exact .done hk' rfl

/-- What has run is completed next. -/
theorem finishes_ran {k : Nat} {t : Task} {job : Job} {succeeded : Bool} {elapsedUs : Nat}
    (hpc : t.pc = .ran job succeeded elapsedUs) (hk : s.tasks[k]? = some t) : Finishes k s := by
  apply Finishes.of_stepTask (a := .completeJob) hk
  · rw [hpc]
    rfl
  · intro s' hk'
    exact finishes_completed rfl hk'

/-- What is running is measured next. -/
theorem finishes_running {k : Nat} {t : Task} {job : Job} (hpc : t.pc = .running job)
    (hk : s.tasks[k]? = some t) : Finishes k s := by
  apply Finishes.of_stepTask (a := .payload true 0) hk
  · rw [hpc]
    rfl
  · intro s' hk'
    exact finishes_ran rfl hk'

/-- What is queued begins, or is discarded. -/
theorem finishes_queued {k : Nat} {t : Task} (hpc : t.pc = .queued) (hk : s.tasks[k]? = some t) :
    Finishes k s := by
  apply Finishes.of_stepTask (a := .beginJob) hk
  · rw [hpc]
    rfl
  · intro s' hk'
    cases hjob : (s.node.beginJob t.job t.smHandle).1 with
    | none => exact .done hk' (by rw [hjob]; rfl)
    | some job => exact finishes_running (by rw [hjob]; rfl) hk'

/-- The pool runs every task to its end. -/
theorem finishes {k : Nat} {t : Task} (hk : s.tasks[k]? = some t) : Finishes k s := by
  cases hpc : t.pc with
  | registered =>
      apply Finishes.of_stepTask (a := .submitPriority) hk
      · rw [hpc]
        rfl
      · intro s' hk'
        exact finishes_queued rfl hk'
  | queued => exact finishes_queued hpc hk
  | running job => exact finishes_running hpc hk
  | ran job succeeded elapsedUs => exact finishes_ran hpc hk
  | completed job succeeded => exact finishes_completed hpc hk
  | called => exact .done hk (by rw [hpc]; rfl)
  | discarded => exact .done hk (by rw [hpc]; rfl)

/-- Every task has one outcome, and can be taken to it. -/
structure Outcomes (s : NodeTasks) : Prop where
  outcome : ∀ t ∈ s.tasks, t.Outcome
  finishes : ∀ k t, s.tasks[k]? = some t → Finishes k s
  /-- `cancel` never succeeds once the job is running -/
  uncancellable : ∀ t ∈ s.tasks, t.pc.hasBegun = true →
    (s.node.cancel t.smHandle.toJobHandle).1 ≠ .ok ()

/-- From the soundness of the tasks. -/
theorem Sound.outcomes (hs : s.Sound) : s.Outcomes where
  outcome t ht := (hs.tasks t ht).outcome
  finishes _ _ hk := NodeTasks.finishes hk
  uncancellable t ht hbegun hok := by
    have hsound := hs.tasks t ht
    -- a cancel succeeds on queued slots only
    rcases s.node.cancel_cases t.smHandle.toJobHandle with ⟨-, hslot, -⟩ | ⟨⟨e, he⟩, -⟩
    · rw [SlotMapHandle.ofJobHandle_toJobHandle] at hslot
      rw [hslot, Task.Sound] at hsound
      cases hpc : t.pc <;> rw [hpc] at hsound hbegun <;> first | (cases hsound.1; done) | cases hbegun
    · rw [he] at hok
      cases hok

/-- A started node has no tasks. -/
theorem Sound.init (mId : NodeId) (mConfig : SimulatedNodeConfig) :
    (simulatedNode mId mConfig).init.Sound where
  distinct := List.nodup_nil
  tasks t ht := by cases ht

/-- And a counter of zero. -/
theorem Counted.init (mId : NodeId) (mConfig : SimulatedNodeConfig) :
    (simulatedNode mId mConfig).init.Counted := ⟨rfl, Nat.two_pow_pos 32⟩

end NodeTasks

section Runs

variable {mId : NodeId} {mConfig : SimulatedNodeConfig} {s : NodeTasks}

/-- As long as they fit, the depth is the number of the outstanding tasks. -/
theorem depth_of_fits (hs : (simulatedNode mId mConfig).Reach NodeTasks.Fits s) :
    s.node.mQueueDepth = s.outstanding := by
  have hcounted : s.Counted := by
    apply Machine.Reach.invariant (I := NodeTasks.Counted) (NodeTasks.Counted.init ..) _ hs
    intro s s' e _ hs hok h
    exact hs.step hok h
  exact hcounted.depth

/-- **One outcome for every job, and an exact depth.**  In every reachable state every accepted job
has, or is on its way to, exactly one outcome, and cannot be cancelled once it runs; and as long as
fewer than 2³² tasks have ever been outstanding, `mQueueDepth` is their number. -/
theorem outcomes_and_depth (hs : (simulatedNode mId mConfig).Reach Machine.anyEvent s) :
    s.Outcomes ∧ ((simulatedNode mId mConfig).Reach NodeTasks.Fits s →
      s.node.mQueueDepth = s.outstanding) := by
  constructor
  · have hsound : s.Sound := by
      apply Machine.Reach.invariant (I := NodeTasks.Sound) (NodeTasks.Sound.init ..) _ hs
      intro s s' e _ hs _ h
      exact hs.step h
    exact hsound.outcomes
  · intro hfits
    exact depth_of_fits hfits

end Runs

/-- The first job runs; the second is cancelled while it is queued. -/
theorem outcomes_and_depth_cancelled : ∃ s,
    (simulatedNode 1 {}).Reach NodeTasks.Fits s ∧ s.Outcomes ∧
      s.tasks.map (fun t => (t.cancels, t.payloadRuns, t.callbacks)) = [(0, 1, 1), (1, 0, 0)] ∧
      s.node.mQueueDepth = s.outstanding := by
  obtain ⟨s, hs, hend⟩ := (simulatedNode 1 {}).exists_reach NodeTasks.Fits
    [.submit {} ⟨0, 1⟩, .task 0 .submitPriority, .submit {} ⟨1, 1⟩, .task 0 .beginJob,
      .cancel (SlotMapHandle.toJobHandle ⟨1, 1⟩), .task 1 .submitPriority, .task 0 (.payload true 5),
      .task 1 .beginJob, .task 0 .completeJob, .task 0 .onDone]
    (fun s => s.tasks.map (fun t => (t.cancels, t.payloadRuns, t.callbacks)) ==
      [(0, 1, 1), (1, 0, 0)]) (by decide +kernel)
  obtain ⟨houtcomes, hdepth⟩ := outcomes_and_depth hs.unguarded
  exact ⟨s, hs, houtcomes, by simpa using hend, hdepth hs⟩

/-! ## Overflow

A slot whose job is cancelled is handed out again, with the next generation, while the discarded
task still waits in the pool. -/

/-- The `n`-th job of a slot's cancelled jobs. -/
def floodHandle (n : Nat) : SlotMapHandle := ⟨0, .ofNat n⟩

/-- What `submit` checks besides the priority. -/
structure SimulatedNode.Accepting (n : SimulatedNode) : Prop where
  shutdown : n.mShutdown = false
  fault : n.mFault = .none
  pool : n.mThreadPool = true
  state : n.mState = .idle ∨ n.mState = .busy ∨ n.mState = .overloaded

namespace SimulatedNode

/-- Critical jobs are accepted in any state that a depth resolves to. -/
theorem Accepting.updateStateUnlocked {n : SimulatedNode} (h : n.Accepting) :
    n.updateStateUnlocked.2.Accepting := by
  rw [SimulatedNode.updateStateUnlocked]
  dsimp only
  split_ifs <;> first | exact h | exact ⟨h.shutdown, h.fault, h.pool, by simp⟩

/-- A cancel leaves a node that accepts. -/
theorem Accepting.cancel {n : SimulatedNode} (h : n.Accepting) (handle : JobHandle) :
    (n.cancel handle).2.Accepting := by
  rw [SimulatedNode.cancel]
  split <;> exact ⟨h.shutdown, h.fault, h.pool, h.state⟩

/-- An accepting node takes a Critical job, and goes on accepting. -/
theorem Accepting.submit {n : SimulatedNode} (h : n.Accepting) (job : Job)
    (hjob : job.priority = .critical) (smHandle : SlotMapHandle) :
    ∃ n', n.submit job smHandle = .ok n' ∧ n'.Accepting := by
  have hrefused : ¬(n.mShutdown ∨ n.mFault = .crash ∨ n.mFault = .partition ∨ n.mState = .failed ∨
      n.mState = .offline) := by
    rcases h.state with hs | hs | hs <;> simp [h.shutdown, h.fault, hs]
  have hpriority : nodeAcceptsPriority n.mState job.priority = true := by
    rcases h.state with hs | hs | hs <;> rw [hs, hjob] <;> rfl
  have hpool : ¬(!n.mThreadPool) = true := by simp [h.pool]
  rw [SimulatedNode.submit, if_neg hrefused, if_neg (by simp [hpriority]), if_neg hpool]
  exact ⟨_, rfl, Accepting.updateStateUnlocked ⟨h.shutdown, h.fault, h.pool, h.state⟩⟩

end SimulatedNode

/-- A node that has accepted and cancelled `n` Critical jobs in one slot, none of whose tasks has
begun. -/
structure NodeFlooded (n : Nat) (s : NodeTasks) : Prop where
  tasks : ∀ t ∈ s.tasks, t.isOpen = true ∧ ∃ i < n, t.smHandle = floodHandle i
  length : s.tasks.length = n
  depth : s.node.mQueueDepth = n % 2 ^ 32
  accepting : s.node.Accepting

/-- Generations tell the handles of a slot apart. -/
theorem floodHandle_ne {i n : Nat} (hi : i < n) (hn : n < 2 ^ 32) :
    floodHandle i ≠ floodHandle n := by
  intro heq
  have hgen : (UInt32.ofNat i).toNat = (UInt32.ofNat n).toNat := by
    rw [(SlotMapHandle.mk.inj heq).2]
  rw [UInt32.toNat_ofNat', UInt32.toNat_ofNat'] at hgen
  omega

/-- One job more. -/
theorem NodeFlooded.succ {n : Nat} (hn : n < 2 ^ 32) {s : NodeTasks} (h : NodeFlooded n s)
    (hs : (simulatedNode 1 {}).Reach Machine.anyEvent s) :
    ∃ s', (simulatedNode 1 {}).Reach Machine.anyEvent s' ∧ NodeFlooded (n + 1) s' := by
  let job : Job := { priority := .critical }
  obtain ⟨node, hnode, haccepting⟩ := h.accepting.submit job rfl (floodHandle n)
  obtain ⟨hslots, hdepth⟩ := SimulatedNode.submit_accepted hnode
  let task : Task := { job := s.node.stamp job, smHandle := floodHandle n }
  have hsubmitted : (simulatedNode 1 {}).Reach Machine.anyEvent
      { node, tasks := s.tasks ++ [task] } := by
    apply hs.step (.submit job (floodHandle n)) trivial
    have hfresh : ¬(s.tasks.any (·.smHandle = floodHandle n)) = true := by
      simp only [List.any_eq_true, decide_eq_true_eq, not_exists, not_and]
      intro t ht
      obtain ⟨i, hi, hhandle⟩ := (h.tasks t ht).2
      rw [hhandle]
      exact floodHandle_ne hi hn
    show s.step (.submit job (floodHandle n)) = _
    rw [NodeTasks.step, if_neg hfresh, hnode]
  rcases node.cancel_cases (floodHandle n).toJobHandle with ⟨hok, -, -, hkept⟩ | ⟨-, hslot, -⟩
  -- the job is cancelled at once, which leaves its task in the pool and the depth as it is
  · have hcancelled : (simulatedNode 1 {}).Reach Machine.anyEvent
        { node := (node.cancel (floodHandle n).toJobHandle).2
          tasks := (s.tasks ++ [task]).map fun t =>
            if t.smHandle = .ofJobHandle (floodHandle n).toJobHandle then
              { t with cancels := t.cancels + 1 }
            else t } := by
      apply hsubmitted.step (.cancel (floodHandle n).toJobHandle) trivial
      show NodeTasks.step { node, tasks := s.tasks ++ [task] } (.cancel _) = _
      simp only [NodeTasks.step, hok]
    refine ⟨_, hcancelled, ?_, ?_, ?_, haccepting.cancel _⟩
    · intro t ht
      obtain ⟨u, hu, rfl⟩ := List.mem_map.mp ht
      have hu' : u.isOpen = true ∧ ∃ i < n + 1, u.smHandle = floodHandle i := by
        rcases List.mem_append.mp hu with hold | hnew
        · obtain ⟨hopen, i, hi, hhandle⟩ := h.tasks u hold
          exact ⟨hopen, i, by omega, hhandle⟩
        · obtain rfl := List.mem_singleton.mp hnew
          exact ⟨rfl, n, by omega, rfl⟩
      split <;> exact hu'
    · show (List.map _ (s.tasks ++ [task])).length = n + 1
      rw [List.length_map, List.length_append, h.length]
      rfl
    · show (node.cancel _).2.mQueueDepth = _
      rw [hkept, hdepth, h.depth, fetchAdd32]
      omega
  -- the slot has just been queued, so the cancel cannot fail
  · rw [SlotMapHandle.ofJobHandle_toJobHandle, hslots, AList.lookup_insert] at hslot
    exact absurd rfl hslot

/-- By induction on the number of jobs. -/
theorem nodeFlooded_reach {n : Nat} (hn : n ≤ 2 ^ 32) :
    ∃ s, (simulatedNode 1 {}).Reach Machine.anyEvent s ∧ NodeFlooded n s := by
  induction n with
  | zero =>
      refine ⟨_, .init, ⟨?_, rfl, rfl, ⟨rfl, rfl, rfl, .inl rfl⟩⟩⟩
      intro t ht
      cases ht
  | succ n ih =>
      obtain ⟨s, hs, hflooded⟩ := ih (by omega)
      exact hflooded.succ (by omega) hs

/-- With 2³² tasks outstanding the depth reads 0. -/
theorem depth_wraps : ∃ s, (simulatedNode 1 {}).Reach Machine.anyEvent s ∧
    s.outstanding = 2 ^ 32 ∧ s.node.mQueueDepth = 0 := by
  obtain ⟨s, hs, hflooded⟩ := nodeFlooded_reach (le_refl (2 ^ 32))
  refine ⟨s, hs, ?_, ?_⟩
  · rw [NodeTasks.outstanding, List.countP_eq_length.mpr fun t ht => (hflooded.tasks t ht).1]
    exact hflooded.length
  · rw [hflooded.depth, Nat.mod_self]

end FatpBalancer
