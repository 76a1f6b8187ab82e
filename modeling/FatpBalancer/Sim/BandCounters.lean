/-
# The simulated node: the counters of the bands

`mQueueDepthByPriority` beside `mQueueDepth`.  A job is counted under the priority it is submitted
with, and counted off under the one it runs with, which a `reprioritise` may have changed.

`CounterOp` reduces a step of the node to what it does to the two counters, `Counts` is that
operation on them, and `counterOp` names the operation of each step.  The total is the sum of the
bands as long as every decrement finds its band above zero, `Balanced`; the converse holds step by
step.

Jobs whose priority nobody changes keep the balance: `Sorted` says that every open task is counted
in the band it was submitted to, so a decrement finds its own increment there.
-/
import FatpBalancer.Lib.Bands
import FatpBalancer.Sim.NodeTasks

namespace FatpBalancer

instance : Fintype Priority where
  elems := {.critical, .high, .normal, .low, .bulk}
  complete p := by cases p <;> decide

/-! ## What a region does to the counters

The regions are the stretches of code that the node runs under its lock; each does one operation at
most. -/

/-- Both counters move together: the total, and the band of one priority. -/
inductive CounterOp
  | keep
  /-- one more in the band -/
  | add (priority : Priority)
  /-- one less in the band, and none below zero -/
  | sub (priority : Priority)

namespace CounterOp

/-- The tasks it opens. -/
@[simp] def opens : CounterOp → Nat
  | .add _ => 1
  | .keep | .sub _ => 0

/-- The tasks it closes. -/
@[simp] def closes : CounterOp → Nat
  | .sub _ => 1
  | .keep | .add _ => 0

/-- It does not take the total where the band does not follow: what is counted off is counted in its
band, and the total does not wrap with jobs in several bands. -/
def Balanced (n : SimulatedNode) : CounterOp → Prop
  | .keep => True
  | .add priority =>
      n.mQueueDepth + 1 = 2 ^ 32 → n.mQueueDepthByPriority priority + 1 = 2 ^ 32
  | .sub priority => 0 < n.mQueueDepth → 0 < n.mQueueDepthByPriority priority

instance (n : SimulatedNode) (op : CounterOp) : Decidable (op.Balanced n) :=
  match op with
  | .keep => inferInstanceAs (Decidable True)
  | .add _ | .sub _ => inferInstanceAs (Decidable (_ → _))

end CounterOp

namespace SimulatedNode

/-- The counters of `n'` are those of `n` after the operation. -/
def Counts (n n' : SimulatedNode) : CounterOp → Prop
  | .keep =>
      n'.mQueueDepth = n.mQueueDepth ∧ n'.mQueueDepthByPriority = n.mQueueDepthByPriority
  | .add priority =>
      n'.mQueueDepth = fetchAdd32 n.mQueueDepth ∧
        n'.mQueueDepthByPriority = Function.update n.mQueueDepthByPriority priority
          (fetchAdd32 (n.mQueueDepthByPriority priority))
  | .sub priority =>
      n'.mQueueDepth = decrement n.mQueueDepth ∧
        n'.mQueueDepthByPriority = Function.update n.mQueueDepthByPriority priority
          (decrement (n.mQueueDepthByPriority priority))

/-- The guarded decrement is subtraction that stops at zero. -/
theorem decrement_eq (counter : Nat) : decrement counter = counter - 1 := by
  unfold decrement
  split
  · next hpos => exact fetchSub32_of_pos hpos
  · omega

/-- Faults change the state of the node, not its depth. -/
theorem counts_injectFault (n : SimulatedNode) (fault : FaultType) (config : FaultConfig) :
    n.Counts (n.injectFault fault config) .keep := by
  rw [injectFault]
  dsimp only
  split_ifs
  · exact ⟨rfl, rfl⟩
  · exact ⟨updateStateUnlocked_mQueueDepth _, updateStateUnlocked_mQueueDepthByPriority _⟩
  · exact ⟨rfl, rfl⟩

/-- An override is recorded for the job; the counters stay where they were. -/
theorem counts_reprioritise (n : SimulatedNode) (handle : JobHandle) (newPriority : Priority) :
    n.Counts (n.reprioritise handle newPriority).2 .keep := by
  rw [reprioritise]
  split <;> exact ⟨rfl, rfl⟩

/-- A cancelled task is counted off later, by the worker that finds it gone. -/
theorem counts_cancel (n : SimulatedNode) (handle : JobHandle) :
    n.Counts (n.cancel handle).2 .keep := by
  rw [cancel]
  split <;> exact ⟨rfl, rfl⟩

/-- An accepted job is counted under its priority. -/
theorem counts_submit {n n' : SimulatedNode} {job : Job} {smHandle : SlotMapHandle}
    (h : n.submit job smHandle = .ok n') : n.Counts n' (.add job.priority) := by
  rw [submit_eq h]
  exact ⟨updateStateUnlocked_mQueueDepth _, updateStateUnlocked_mQueueDepthByPriority _⟩

/-- A discarded task is counted off under the priority it was submitted with. -/
theorem counts_beginJob_absent {n : SimulatedNode} (job : Job) {smHandle : SlotMapHandle}
    (h : n.mPendingSlots.lookup smHandle = none) :
    n.Counts (n.beginJob job smHandle).2 (.sub job.priority) := by
  rw [beginJob]
  simp only [h]
  exact ⟨updateStateUnlocked_mQueueDepth _, updateStateUnlocked_mQueueDepthByPriority _⟩

/-- A job that begins to run stays counted. -/
theorem counts_beginJob_present {n : SimulatedNode} (job : Job) {smHandle : SlotMapHandle}
    {st : PendingJobState} (h : n.mPendingSlots.lookup smHandle = some st) :
    n.Counts (n.beginJob job smHandle).2 .keep := by
  rw [beginJob]
  simp only [h]
  split <;> exact ⟨rfl, rfl⟩

/-- A finished one under the priority it has run with. -/
theorem counts_completeJob (n : SimulatedNode) (job : Job) (smHandle : SlotMapHandle)
    (succeeded : Bool) (elapsedUs : Nat) :
    n.Counts (n.completeJob job smHandle succeeded elapsedUs) (.sub job.priority) := by
  rw [completeJob, Counts, updateStateUnlocked_mQueueDepth, updateStateUnlocked_mQueueDepthByPriority]
  cases succeeded <;> exact ⟨rfl, rfl⟩

end SimulatedNode

namespace NodeTasks

variable {s s' : NodeTasks}

/-- What a step does to the counters. -/
def counterOp (s : NodeTasks) : NodeEvent → CounterOp
  | .submit job smHandle => if (s.node.submit job smHandle).isOk then .add job.priority else .keep
  | .task k a =>
      match a, s.tasks[k]? with
      | .beginJob, some t =>
          if (s.node.mPendingSlots.lookup t.smHandle).isNone then .sub t.job.priority else .keep
      | .completeJob, some t =>
          match t.pc with
          | .ran job _ _ => .sub job.priority
          | _ => .keep
      | _, _ => .keep
  | .cancel _ | .reprioritise _ _ | .injectFault _ _ => .keep

/-- A step and its operation, with the tasks that it opens or closes. -/
structure StepCounts (s s' : NodeTasks) (op : CounterOp) : Prop where
  node : s.node.Counts s'.node op
  outstanding : s'.outstanding + op.closes = s.outstanding + op.opens

/-- A step that touches neither the counters nor the points of the tasks. -/
theorem StepCounts.of_keep {node : SimulatedNode} (h : s.node.Counts node .keep) :
    StepCounts s { s with node } .keep := ⟨h, rfl⟩

/-- One task goes on. -/
theorem StepCounts.set {k : Nat} {t t' : Task} (hk : s.tasks[k]? = some t) {node : SimulatedNode}
    {op : CounterOp} (h : s.node.Counts node op)
    (hopen : t'.isOpen.toNat + op.closes = t.isOpen.toNat + op.opens) :
    StepCounts s { node, tasks := s.tasks.set k t' } op where
  node := h
  outstanding := by
    have hset := Table.countP_set (p := Task.isOpen) hk t'
    show (s.tasks.set k t').countP Task.isOpen + _ = s.tasks.countP Task.isOpen + _
    omega

/-- One task goes on and the node stays as it is. -/
theorem StepCounts.setKeep {k : Nat} {t t' : Task} (hk : s.tasks[k]? = some t)
    (hopen : t'.isOpen = t.isOpen) : StepCounts s { s with tasks := s.tasks.set k t' } .keep :=
  .set hk ⟨rfl, rfl⟩ (by rw [hopen]; rfl)

/-- The steps of a task, one by one. -/
theorem stepTask_counts {k : Nat} {t : Task} {a : TaskAction} (hk : s.tasks[k]? = some t)
    (h : s.stepTask k t a t.pc = some s') : StepCounts s s' (s.counterOp (.task k a)) := by
  cases a with
  | submitPriority =>
      cases hpc : t.pc <;> rw [hpc] at h <;> cases h
      exact .setKeep hk (by simp [Task.isOpen, hpc])
  | beginJob =>
      cases hpc : t.pc <;> rw [hpc] at h <;> cases h
      cases hslot : s.node.mPendingSlots.lookup t.smHandle with
      | none =>
          simp only [counterOp, hk, hslot, Option.isNone_none, if_true]
          apply StepCounts.set hk (SimulatedNode.counts_beginJob_absent t.job hslot)
          rw [(SimulatedNode.beginJob_absent t.job hslot).1]
          simp [Task.isOpen, hpc, CounterOp.closes, CounterOp.opens]
      | some st =>
          simp only [counterOp, hk, hslot, Option.isNone_some, Bool.false_eq_true, if_false]
          apply StepCounts.set hk (SimulatedNode.counts_beginJob_present t.job hslot)
          obtain ⟨job, hjob⟩ := (SimulatedNode.beginJob_present t.job hslot).1
          rw [hjob]
          simp [Task.isOpen, hpc]
  | payload succeeded elapsedUs =>
      cases hpc : t.pc <;> rw [hpc] at h <;> cases h
      exact .setKeep hk (by simp [Task.isOpen, hpc])
  | completeJob =>
      cases hpc : t.pc <;> rw [hpc] at h <;> cases h
      simp only [counterOp, hk, hpc]
      exact .set hk (s.node.counts_completeJob ..)
        (by simp [Task.isOpen, hpc])
  | onDone =>
      cases hpc : t.pc <;> rw [hpc] at h <;> cases h
      exact .setKeep hk (by simp [Task.isOpen, hpc])

/-- **The counters after a step.** -/
theorem step_counts {e : NodeEvent} (h : s.step e = some s') :
    StepCounts s s' (s.counterOp e) := by
  cases e with
  | submit job smHandle =>
      rw [NodeTasks.step] at h
      split at h
      · cases h
      · split at h
        · next hnode =>
            obtain rfl := Option.some.inj h
            rw [counterOp, hnode]
            exact .of_keep ⟨rfl, rfl⟩
        · next node hnode =>
            obtain rfl := Option.some.inj h
            rw [counterOp, hnode]
            refine ⟨SimulatedNode.counts_submit hnode, ?_⟩
            show (s.tasks ++ [_]).countP Task.isOpen + 0 = s.tasks.countP Task.isOpen + 1
            rw [List.countP_append]
            rfl
  | cancel handle =>
      simp only [NodeTasks.step] at h
      split at h
      · obtain rfl := Option.some.inj h
        exact .of_keep (s.node.counts_cancel handle)
      · obtain rfl := Option.some.inj h
        exact ⟨s.node.counts_cancel handle, countP_cancelled (fun _ => rfl) handle s.tasks⟩
  | reprioritise handle newPriority =>
      obtain rfl := Option.some.inj h
      exact .of_keep (s.node.counts_reprioritise handle newPriority)
  | injectFault fault config =>
      obtain rfl := Option.some.inj h
      exact .of_keep (s.node.counts_injectFault fault config)
  | task k a =>
      obtain ⟨t, hk, h⟩ := Option.bind_eq_some_iff.mp h
      exact stepTask_counts hk h

/-! ## When the bands make up the total

The sum of the bands and the total move by the same amount in every balanced step, and by different
ones in every other. -/

def Balanced (s : NodeTasks) (e : NodeEvent) : Prop := (s.counterOp e).Balanced s.node

instance (s : NodeTasks) (e : NodeEvent) : Decidable (s.Balanced e) :=
  inferInstanceAs (Decidable (CounterOp.Balanced _ _))

/-- The total is the sum of the bands. -/
def Sums (s : NodeTasks) : Prop :=
  Bands.Agree s.node.mQueueDepth s.node.mQueueDepthByPriority

/-- **The step lemma.**  A balanced step keeps the sum, and no other step does. -/
theorem Sums.step_iff (hs : s.Sums) (hlt : s.node.mQueueDepth < 2 ^ 32) {e : NodeEvent}
    (h : s.step e = some s') : s'.Sums ↔ s.Balanced e := by
  have hcounts := (step_counts h).node
  unfold Balanced
  cases hop : s.counterOp e with
  | keep =>
      rw [hop] at hcounts
      obtain ⟨htotal, hbands⟩ := hcounts
      rw [Sums, htotal, hbands]
      exact iff_of_true hs trivial
  | add priority =>
      rw [hop] at hcounts
      obtain ⟨htotal, hbands⟩ := hcounts
      rw [Sums, htotal, hbands]
      exact Bands.Agree.add_iff hs hlt priority
  | sub priority =>
      rw [hop] at hcounts
      obtain ⟨htotal, hbands⟩ := hcounts
      rw [Sums, htotal, hbands, SimulatedNode.decrement_eq, SimulatedNode.decrement_eq]
      exact Bands.Agree.sub_iff hs priority

/-- The total counts no more than the tasks that are outstanding. -/
structure Bounded (s : NodeTasks) : Prop where
  lt : s.node.mQueueDepth < 2 ^ 32
  le : s.node.mQueueDepth ≤ s.outstanding

/-- Every increment opens a task, and every decrement closes one. -/
theorem Bounded.step (hs : s.Bounded) {e : NodeEvent} (h : s.step e = some s') : s'.Bounded := by
  obtain ⟨hnode, hopen⟩ := step_counts h
  have hlt := hs.lt
  have hle := hs.le
  cases hop : s.counterOp e with
  | keep =>
      rw [hop] at hnode hopen
      simp only [CounterOp.opens, CounterOp.closes] at hopen
      have htotal := hnode.1
      constructor <;> omega
  | add priority =>
      rw [hop] at hnode hopen
      simp only [CounterOp.opens, CounterOp.closes] at hopen
      have htotal := hnode.1
      rw [fetchAdd32] at htotal
      constructor <;> omega
  | sub priority =>
      rw [hop] at hnode hopen
      simp only [CounterOp.opens, CounterOp.closes] at hopen
      have htotal := hnode.1
      rw [SimulatedNode.decrement_eq] at htotal
      constructor <;> omega

/-- What a node promises of its counters. -/
structure BandsAgree (s : NodeTasks) : Prop where
  sums : s.Sums
  drained : s.outstanding = 0 →
    s.node.mQueueDepth = 0 ∧ ∀ priority, s.node.mQueueDepthByPriority priority = 0

/-- What the node promises, once the total is known to be within bounds. -/
theorem Bounded.bandsAgree_iff (hs : s.Bounded) : s.BandsAgree ↔ s.Sums := by
  constructor
  · exact BandsAgree.sums
  · intro hsums
    refine ⟨hsums, fun hdone => ?_⟩
    have hle := hs.le
    have hzero : s.node.mQueueDepth = 0 := by omega
    exact ⟨hzero, hsums.eq_zero hzero⟩

/-! ## Jobs that keep their priority

Priorities change by `reprioritise` alone, which leaves an override that `beginJob` applies.
Without overrides a job runs with the priority it was submitted with. -/

end NodeTasks

namespace SimulatedNode

/-- The region adds no override. -/
def ForgetsOverrides (n n' : SimulatedNode) : Prop :=
  ∀ key ov, n'.mPriorityOverrides.lookup key = some ov → n.mPriorityOverrides.lookup key = some ov

/-- The overrides are untouched. -/
theorem ForgetsOverrides.of_eq {n n' : SimulatedNode}
    (h : n'.mPriorityOverrides = n.mPriorityOverrides) : n.ForgetsOverrides n' := by
  intro key ov hov
  rwa [h] at hov

/-- An entry is taken out with its override. -/
theorem ForgetsOverrides.of_erase {n n' : SimulatedNode} {key : JobHandle}
    (h : n'.mPriorityOverrides = n.mPriorityOverrides.erase key) : n.ForgetsOverrides n' := by
  intro key' ov hov
  rw [h, HashMap.lookup_erase_eq] at hov
  split at hov
  · cases hov
  · exact hov

/-- Where there was no override there is none. -/
theorem ForgetsOverrides.eq_none {n n' : SimulatedNode} (h : n.ForgetsOverrides n')
    {key : JobHandle} (hnone : n.mPriorityOverrides.lookup key = none) :
    n'.mPriorityOverrides.lookup key = none := by
  cases hov : n'.mPriorityOverrides.lookup key with
  | none => rfl
  | some ov =>
      rw [h key ov hov] at hnone
      cases hnone

/-- Faults have nothing to do with overrides. -/
theorem forgets_injectFault (n : SimulatedNode) (fault : FaultType) (config : FaultConfig) :
    n.ForgetsOverrides (n.injectFault fault config) := by
  apply ForgetsOverrides.of_eq
  rw [injectFault]
  dsimp only
  split_ifs
  · rfl
  · exact updateStateUnlocked_mPriorityOverrides _
  · rfl

/-- A new job has none. -/
theorem forgets_submit {n n' : SimulatedNode} {job : Job} {smHandle : SlotMapHandle}
    (h : n.submit job smHandle = .ok n') : n.ForgetsOverrides n' := by
  apply ForgetsOverrides.of_eq
  rw [submit_eq h, updateStateUnlocked_mPriorityOverrides]

/-- A cancelled job loses its own. -/
theorem forgets_cancel (n : SimulatedNode) (handle : JobHandle) :
    n.ForgetsOverrides (n.cancel handle).2 := by
  rw [cancel]
  split
  · exact .of_eq rfl
  · exact .of_eq rfl
  · exact .of_erase rfl

/-- A job that begins to run has used it up. -/
theorem forgets_beginJob (n : SimulatedNode) (job : Job) (smHandle : SlotMapHandle) :
    n.ForgetsOverrides (n.beginJob job smHandle).2 := by
  rw [beginJob]
  dsimp only
  split
  · exact .of_erase (updateStateUnlocked_mPriorityOverrides _)
  · split
    · exact .of_eq rfl
    · exact .of_erase rfl

/-- A finished job has none left. -/
theorem forgets_completeJob (n : SimulatedNode) (job : Job) (smHandle : SlotMapHandle)
    (succeeded : Bool) (elapsedUs : Nat) :
    n.ForgetsOverrides (n.completeJob job smHandle succeeded elapsedUs) := by
  apply ForgetsOverrides.of_eq
  rw [completeJob, updateStateUnlocked_mPriorityOverrides]
  cases succeeded <;> rfl

/-- The job goes on with its own priority or with that of its override. -/
theorem beginJob_priority {n : SimulatedNode} {job job' : Job} {smHandle : SlotMapHandle}
    (h : (n.beginJob job smHandle).1 = some job') :
    job'.priority = job.priority ∨
      n.mPriorityOverrides.lookup smHandle.toJobHandle = some job'.priority := by
  rw [beginJob] at h
  dsimp only at h
  split at h
  · cases h
  · split at h
    · cases h
      exact .inl rfl
    · next hov =>
        cases h
        exact .inr hov

end SimulatedNode

/-- The job the task goes on with has the priority it was submitted with. -/
def Task.KeepsPriority (t : Task) : Prop :=
  match t.pc with
  | .running job | .ran job _ _ => job.priority = t.job.priority
  | _ => True

namespace NodeTasks

variable {s s' : NodeTasks}

/-- A job is given no priority but its own. -/
def Unpromoted (s : NodeTasks) : NodeEvent → Prop
  | .reprioritise handle newPriority =>
      ∀ t ∈ s.tasks, t.smHandle = .ofJobHandle handle → newPriority = t.job.priority
  | _ => True

instance (s : NodeTasks) (e : NodeEvent) : Decidable (s.Unpromoted e) :=
  match e with
  | .reprioritise _ _ => inferInstanceAs (Decidable (∀ t ∈ _, _))
  | .submit _ _ | .cancel _ | .injectFault _ _ | .task _ _ => inferInstanceAs (Decidable True)

/-- The tasks of a band that are open. -/
def openIn (s : NodeTasks) (priority : Priority) : Nat :=
  s.tasks.countP fun t => t.isOpen && decide (t.job.priority = priority)

/-- Every open task is counted in the band it was submitted to, and none has another priority to run
with. -/
structure Sorted (s : NodeTasks) : Prop where
  bands : ∀ priority, s.node.mQueueDepthByPriority priority = s.openIn priority
  keeps : ∀ t ∈ s.tasks, t.KeepsPriority
  overrides : ∀ t ∈ s.tasks, ∀ ov,
    s.node.mPriorityOverrides.lookup t.smHandle.toJobHandle = some ov → ov = t.job.priority
  fresh : ∀ h, (∀ t ∈ s.tasks, t.smHandle ≠ h) → s.node.mPendingSlots.lookup h = none ∧
    s.node.mPriorityOverrides.lookup h.toJobHandle = none

/-- What a task's step does to the counters: nothing, or it closes the task and counts it off in its
band. -/
def Closes (t t' : Task) (op : CounterOp) : Prop :=
  op = .keep ∧ t'.isOpen = t.isOpen ∨
    op = .sub t.job.priority ∧ t.isOpen = true ∧ t'.isOpen = false

/-- Replacing one task exchanges its share of the band. -/
theorem openIn_set {k : Nat} {t t' : Task} (hk : s.tasks[k]? = some t) (hjob : t'.job = t.job)
    {node : SimulatedNode} {op : CounterOp} (hcounts : s.node.Counts node op)
    (hcloses : Closes t t' op)
    (hbands : ∀ priority, s.node.mQueueDepthByPriority priority = s.openIn priority)
    (priority : Priority) :
    node.mQueueDepthByPriority priority =
      openIn { node, tasks := s.tasks.set k t' } priority := by
  have hset := Table.countP_set
    (p := fun t => t.isOpen && decide (t.job.priority = priority)) hk t'
  have hband := hbands priority
  rw [openIn] at hband ⊢
  simp only [hjob] at hset ⊢
  rcases hcloses with ⟨rfl, hopen⟩ | ⟨rfl, hopen, hclosed⟩
  · rw [hopen] at hset
    rw [hcounts.2]
    omega
  · rw [hopen, hclosed] at hset
    rw [hcounts.2, Function.update_apply]
    by_cases hpriority : priority = t.job.priority
    · subst hpriority
      rw [if_pos rfl, SimulatedNode.decrement_eq]
      simp at hset
      omega
    · rw [if_neg hpriority]
      simp [Ne.symm hpriority] at hset
      omega

/-- One task goes on. -/
theorem Sorted.set (hs : s.Sorted) {k : Nat} {t t' : Task} (hk : s.tasks[k]? = some t)
    (hjob : t'.job = t.job) (hhandle : t'.smHandle = t.smHandle) (hkeeps : t'.KeepsPriority)
    {node : SimulatedNode} {op : CounterOp} (hcounts : s.node.Counts node op)
    (hcloses : Closes t t' op)
    (hslots : ∀ h, h ≠ t.smHandle → node.mPendingSlots.lookup h = s.node.mPendingSlots.lookup h)
    (hforgets : s.node.ForgetsOverrides node) :
    Sorted { node, tasks := s.tasks.set k t' } where
  bands := openIn_set hk hjob hcounts hcloses hs.bands
  keeps u hu := by
    obtain ⟨j, hj⟩ := List.mem_iff_getElem?.mp hu
    rcases Table.getElem?_set_cases hj with ⟨rfl, rfl⟩ | ⟨-, hj⟩
    · exact hkeeps
    · exact hs.keeps u (List.mem_of_getElem? hj)
  overrides u hu ov hov := by
    have hold := hforgets _ _ hov
    obtain ⟨j, hj⟩ := List.mem_iff_getElem?.mp hu
    rcases Table.getElem?_set_cases hj with ⟨rfl, rfl⟩ | ⟨-, hj⟩
    · rw [hhandle] at hold
      rw [hjob]
      exact hs.overrides t (List.mem_of_getElem? hk) ov hold
    · exact hs.overrides u (List.mem_of_getElem? hj) ov hold
  fresh h hfresh := by
    have hother : ∀ u ∈ s.tasks, u.smHandle ≠ h := by
      intro u hu
      obtain ⟨j, hj⟩ := List.mem_iff_getElem?.mp hu
      by_cases hjk : j = k
      · subst hjk
        obtain rfl : t = u := Option.some.inj (hk.symm.trans hj)
        rw [← hhandle]
        exact hfresh t' (List.mem_of_getElem? (List.getElem?_set_self
          (List.getElem?_eq_some_iff.mp hk).1))
      · apply hfresh u
        apply List.mem_of_getElem? (i := j)
        rw [List.getElem?_set_ne (Ne.symm hjk)]
        exact hj
    obtain ⟨hslot, hoverride⟩ := hs.fresh h hother
    constructor
    · show node.mPendingSlots.lookup h = none
      rw [hslots h (Ne.symm (hother t (List.mem_of_getElem? hk))), hslot]
    · exact hforgets.eq_none hoverride

/-- One task goes on and the node stays as it is. -/
theorem Sorted.setKeep (hs : s.Sorted) {k : Nat} {t t' : Task} (hk : s.tasks[k]? = some t)
    (hjob : t'.job = t.job) (hhandle : t'.smHandle = t.smHandle) (hkeeps : t'.KeepsPriority)
    (hopen : t'.isOpen = t.isOpen) : Sorted { s with tasks := s.tasks.set k t' } :=
  hs.set hk hjob hhandle hkeeps (show s.node.Counts s.node .keep from ⟨rfl, rfl⟩)
    (.inl ⟨rfl, hopen⟩) (fun _ _ => rfl) fun _ _ h => h

/-- A task's own step. -/
theorem Sorted.move (hs : s.Sorted) {k : Nat} {t : Task} (hk : s.tasks[k]? = some t)
    (hm : s.TaskMove k t s') : s'.Sorted := by
  have hkeeps := hs.keeps t (List.mem_of_getElem? hk)
  cases hm with
  | submitPriority hpc =>
      exact hs.setKeep hk (by rfl) (by rfl) (by trivial) (by simp [Task.isOpen, hpc])
  | beginJob hpc =>
      have hforgets := s.node.forgets_beginJob t.job t.smHandle
      cases hslot : s.node.mPendingSlots.lookup t.smHandle with
      | none =>
          obtain ⟨hjob, hslots, -⟩ := SimulatedNode.beginJob_absent t.job hslot
          refine hs.set hk (by rfl) (by rfl) ?_
            (SimulatedNode.counts_beginJob_absent t.job hslot) (.inr ⟨rfl, ?_, ?_⟩) ?_ hforgets
          · rw [hjob]
            trivial
          · rw [Task.isOpen, hpc]
          · rw [hjob]
            rfl
          · intro h _
            rw [hslots]
      | some st =>
          obtain ⟨⟨job, hjob⟩, hslots, -⟩ := SimulatedNode.beginJob_present t.job hslot
          refine hs.set hk (by rfl) (by rfl) ?_
            (SimulatedNode.counts_beginJob_present t.job hslot) (.inl ⟨rfl, ?_⟩) ?_ hforgets
          · rw [hjob]
            show job.priority = t.job.priority
            rcases SimulatedNode.beginJob_priority hjob with hown | hov
            · exact hown
            · exact hs.overrides t (List.mem_of_getElem? hk) _ hov
          · rw [hjob]
            simp [Task.isOpen, hpc]
          · intro h hne
            rw [hslots, AList.lookup_insert_ne hne]
  | payload job succeeded elapsedUs hpc =>
      rw [Task.KeepsPriority, hpc] at hkeeps
      exact hs.setKeep hk (by rfl) (by rfl) (by exact hkeeps) (by simp [Task.isOpen, hpc])
  | completeJob job succeeded elapsedUs hpc =>
      rw [Task.KeepsPriority, hpc] at hkeeps
      have hcounts := s.node.counts_completeJob job t.smHandle succeeded elapsedUs
      rw [hkeeps] at hcounts
      refine hs.set hk (by rfl) (by rfl) (by trivial) hcounts (.inr ⟨rfl, ?_, rfl⟩) ?_
        (s.node.forgets_completeJob job t.smHandle succeeded elapsedUs)
      · rw [Task.isOpen, hpc]
      · intro h hne
        rw [(s.node.completeJob_counts ..).1, AList.lookup_erase_ne hne]
  | onDone job succeeded hpc =>
      exact hs.setKeep hk (by rfl) (by rfl) (by trivial) (by simp [Task.isOpen, hpc])

/-- A region that counts nothing and leaves the tasks as they are. -/
theorem Sorted.node (hs : s.Sorted) {node : SimulatedNode} (hcounts : s.node.Counts node .keep)
    (hslots : ∀ h, s.node.mPendingSlots.lookup h = none → node.mPendingSlots.lookup h = none)
    (hoverrides : ∀ t ∈ s.tasks, ∀ ov,
      node.mPriorityOverrides.lookup t.smHandle.toJobHandle = some ov → ov = t.job.priority)
    (hfresh : ∀ h : SlotMapHandle, s.node.mPendingSlots.lookup h = none →
      s.node.mPriorityOverrides.lookup h.toJobHandle = none →
      node.mPriorityOverrides.lookup h.toJobHandle = none) : Sorted { s with node } where
  bands priority := (congrFun hcounts.2 priority).trans (hs.bands priority)
  keeps := hs.keeps
  overrides := hoverrides
  fresh h hother := by
    obtain ⟨hslot, hoverride⟩ := hs.fresh h hother
    exact ⟨hslots h hslot, hfresh h hslot hoverride⟩

/-- A region that adds no override either. -/
theorem Sorted.forget (hs : s.Sorted) {node : SimulatedNode} (hcounts : s.node.Counts node .keep)
    (hslots : ∀ h, s.node.mPendingSlots.lookup h = none → node.mPendingSlots.lookup h = none)
    (hforgets : s.node.ForgetsOverrides node) : Sorted { s with node } := by
  apply hs.node hcounts hslots
  · intro t ht ov hov
    exact hs.overrides t ht ov (hforgets _ _ hov)
  · intro h _ hoverride
    exact hforgets.eq_none hoverride

/-- A new task is open in the band it is submitted to. -/
theorem Sorted.submit (hs : s.Sorted) {job : Job} {smHandle : SlotMapHandle}
    (hfresh : ∀ t ∈ s.tasks, t.smHandle ≠ smHandle) (hlt : s.node.mQueueDepth < 2 ^ 32 - 1)
    (hband : s.node.mQueueDepthByPriority job.priority ≤ s.node.mQueueDepth)
    {node : SimulatedNode} (h : s.node.submit job smHandle = .ok node) :
    Sorted { node, tasks := s.tasks ++ [{ job := s.node.stamp job, smHandle }] } := by
  have hcounts := SimulatedNode.counts_submit h
  have hslots := (SimulatedNode.submit_accepted h).1
  have hforgets := SimulatedNode.forgets_submit h
  constructor
  · intro priority
    have hold := hs.bands priority
    show node.mQueueDepthByPriority priority = List.countP _ (s.tasks ++ [_])
    rw [hcounts.2, Function.update_apply, List.countP_append, List.countP_singleton]
    by_cases hpriority : priority = job.priority
    · subst hpriority
      rw [if_pos rfl, fetchAdd32_of_lt (by omega), hold]
      simp [openIn, Task.isOpen, SimulatedNode.stamp]
    · rw [if_neg hpriority, hold]
      simp [openIn, SimulatedNode.stamp, Ne.symm hpriority]
  · intro t ht
    rcases List.mem_append.mp ht with hold | hnew
    · exact hs.keeps t hold
    · obtain rfl := List.mem_singleton.mp hnew
      trivial
  · intro t ht ov hov
    rcases List.mem_append.mp ht with hold | hnew
    · exact hs.overrides t hold ov (hforgets _ _ hov)
    · obtain rfl := List.mem_singleton.mp hnew
      have hnone := (hs.fresh smHandle hfresh).2
      rw [hforgets _ _ hov] at hnone
      cases hnone
  · intro h' hother
    have hne : smHandle ≠ h' := hother _ (List.mem_append_right _ (List.mem_singleton_self _))
    obtain ⟨hslot, hoverride⟩ := hs.fresh h' fun t ht => hother t (List.mem_append_left _ ht)
    constructor
    · show node.mPendingSlots.lookup h' = none
      rw [hslots, AList.lookup_insert_ne (Ne.symm hne), hslot]
    · exact hforgets.eq_none hoverride

/-- A successful cancel is noted in a task and changes nothing of what counts here. -/
theorem Sorted.cancelled (hs : s.Sorted) (handle : JobHandle) :
    Sorted { s with tasks := s.tasks.map fun t =>
      if t.smHandle = .ofJobHandle handle then { t with cancels := t.cancels + 1 } else t } := by
  have hmem : ∀ u ∈ s.tasks.map (fun t => if t.smHandle = .ofJobHandle handle then
      { t with cancels := t.cancels + 1 } else t),
      ∃ t ∈ s.tasks, u.job = t.job ∧ u.smHandle = t.smHandle ∧ u.pc = t.pc := by
    intro u hu
    obtain ⟨t, ht, rfl⟩ := List.mem_map.mp hu
    refine ⟨t, ht, ?_⟩
    split <;> exact ⟨rfl, rfl, rfl⟩
  constructor
  · intro priority
    rw [openIn, countP_cancelled (fun _ => rfl) handle s.tasks]
    exact hs.bands priority
  · intro u hu
    obtain ⟨t, ht, hjob, -, hpc⟩ := hmem u hu
    rw [Task.KeepsPriority, hjob, hpc]
    exact hs.keeps t ht
  · intro u hu ov hov
    obtain ⟨t, ht, hjob, hhandle, -⟩ := hmem u hu
    rw [hhandle] at hov
    rw [hjob]
    exact hs.overrides t ht ov hov
  · intro h hother
    apply hs.fresh h
    intro t ht heq
    apply hother _ (List.mem_map_of_mem ht)
    split <;> exact heq

/-- A new priority that is the job's own. -/
theorem Sorted.reprioritise (hs : s.Sorted) {handle : JobHandle} {newPriority : Priority}
    (hown : s.Unpromoted (.reprioritise handle newPriority)) :
    Sorted { s with node := (s.node.reprioritise handle newPriority).2 } := by
  have hslots := (s.node.reprioritise_keeps handle newPriority).1
  apply hs.node (s.node.counts_reprioritise handle newPriority)
  · intro h hnone
    rw [hslots, hnone]
  · intro t ht ov hov
    rw [SimulatedNode.reprioritise] at hov
    split at hov
    · rcases HashMap.lookup_put_cases hov with ⟨hkey, rfl⟩ | hold
      · apply hown t ht
        rw [← hkey, SlotMapHandle.ofJobHandle_toJobHandle]
      · exact hs.overrides t ht ov hold
    · exact hs.overrides t ht ov hov
  · intro h hslot hnone
    rw [SimulatedNode.reprioritise]
    split
    · next hqueued =>
        -- the override is stored for a slot that is there
        have hne : h.toJobHandle ≠ handle := by
          rintro rfl
          rw [SlotMapHandle.ofJobHandle_toJobHandle, hslot] at hqueued
          cases hqueued
        show (HashMap.put _ _ _ _).lookup _ = none
        rw [HashMap.lookup_put_ne hne, hnone]
    · exact hnone

/-- **The step lemma for jobs that keep their priority.** -/
theorem Sorted.step (hs : s.Sorted) (hcounted : s.Counted) {e : NodeEvent} (hfits : s.Fits e)
    (hown : s.Unpromoted e) (h : s.step e = some s') : s'.Sorted := by
  cases e with
  | submit job smHandle =>
      rw [NodeTasks.step] at h
      split at h
      · cases h
      · next hfresh =>
          have hfresh : ∀ t ∈ s.tasks, t.smHandle ≠ smHandle := by simpa using hfresh
          split at h
          · exact Option.some.inj h ▸ hs
          · next node hnode =>
              obtain rfl := Option.some.inj h
              have hlt : s.outstanding + 1 < 2 ^ 32 := hfits (by rw [hnode]; rfl)
              have hdepth := hcounted.depth
              have hband : s.openIn job.priority ≤ s.outstanding := by
                apply List.countP_mono_left
                intro t _ hopen
                exact (Bool.and_eq_true_iff.mp hopen).1
              rw [← hs.bands] at hband
              exact hs.submit hfresh (by omega) (by omega) hnode
  | cancel handle =>
      have hcounts := s.node.counts_cancel handle
      have hforgets := s.node.forgets_cancel handle
      have hslots : ∀ h, s.node.mPendingSlots.lookup h = none →
          (s.node.cancel handle).2.mPendingSlots.lookup h = none := by
        intro h hnone
        rcases s.node.cancel_cases handle with ⟨-, -, hslots, -⟩ | ⟨-, -, hsame⟩
        · rw [hslots, HashMap.lookup_erase_eq, hnone, ite_self]
        · rw [hsame, hnone]
      have hforgot := hs.forget hcounts hslots hforgets
      simp only [NodeTasks.step] at h
      split at h
      · obtain rfl := Option.some.inj h
        exact hforgot
      · obtain rfl := Option.some.inj h
        exact hforgot.cancelled handle
  | reprioritise handle newPriority =>
      obtain rfl := Option.some.inj h
      exact hs.reprioritise hown
  | injectFault fault config =>
      obtain rfl := Option.some.inj h
      apply hs.forget (s.node.counts_injectFault fault config)
      · intro h hnone
        rw [(s.node.injectFault_keeps fault config).1, hnone]
      · exact s.node.forgets_injectFault fault config
  | task k a =>
      obtain ⟨t, hk, h⟩ := Option.bind_eq_some_iff.mp h
      exact hs.move hk (stepTask_move h)

/-- An open task is counted in its band. -/
theorem Sorted.band_pos (hs : s.Sorted) {t : Task} (ht : t ∈ s.tasks) (hopen : t.isOpen = true) :
    0 < s.node.mQueueDepthByPriority t.job.priority := by
  rw [hs.bands, openIn, List.countP_pos_iff]
  exact ⟨t, ht, by simp [hopen]⟩

/-- Whatever happens next is balanced. -/
theorem Sorted.balanced (hs : s.Sorted) (hcounted : s.Counted) {e : NodeEvent} (hfits : s.Fits e)
    (h : s.step e = some s') : s.Balanced e := by
  unfold Balanced
  cases e with
  | submit job smHandle =>
      rw [counterOp]
      split
      · next hok =>
          intro hwrap
          have hlt := hfits hok
          have hdepth := hcounted.depth
          omega
      · trivial
  | cancel handle => trivial
  | reprioritise handle newPriority => trivial
  | injectFault fault config => trivial
  | task k a =>
      obtain ⟨t, hk, h⟩ := Option.bind_eq_some_iff.mp h
      have ht := List.mem_of_getElem? hk
      cases a with
      | submitPriority => trivial
      | payload succeeded elapsedUs => trivial
      | onDone => trivial
      | beginJob =>
          simp only [counterOp, hk]
          split
          · intro _
            apply hs.band_pos ht
            cases hpc : t.pc <;> rw [hpc] at h <;> cases h
            rw [Task.isOpen, hpc]
          · trivial
      | completeJob =>
          cases hpc : t.pc <;> rw [hpc] at h <;> cases h
          have hkeeps := hs.keeps t ht
          rw [Task.KeepsPriority, hpc] at hkeeps
          simp only [counterOp, hk, hpc]
          intro _
          rw [show _ = t.job.priority from hkeeps]
          apply hs.band_pos ht
          rw [Task.isOpen, hpc]

/-- Nothing is counted at the start. -/
theorem Sums.init (mId : NodeId) (mConfig : SimulatedNodeConfig) :
    (simulatedNode mId mConfig).init.Sums := Bands.agree_zero

/-- And nothing is outstanding. -/
theorem Bounded.init (mId : NodeId) (mConfig : SimulatedNodeConfig) :
    (simulatedNode mId mConfig).init.Bounded := ⟨Nat.two_pow_pos 32, Nat.zero_le _⟩

/-- And no task is there to be sorted. -/
theorem Sorted.init (mId : NodeId) (mConfig : SimulatedNodeConfig) :
    (simulatedNode mId mConfig).init.Sorted where
  bands _ := rfl
  keeps t ht := by cases ht
  overrides t ht := by cases ht
  fresh _ _ := ⟨rfl, rfl⟩

end NodeTasks

section Runs

variable {mId : NodeId} {mConfig : SimulatedNodeConfig} {s : NodeTasks}

/-- Runs in which jobs keep their priority, and fewer than 2³² tasks are ever outstanding. -/
theorem balanced_of_unpromoted
    (hs : (simulatedNode mId mConfig).Reach (fun s e => s.Fits e ∧ s.Unpromoted e) s) :
    (simulatedNode mId mConfig).Reach NodeTasks.Balanced s := by
  have hinvariant : (simulatedNode mId mConfig).Reach NodeTasks.Balanced s ∧ s.Sorted ∧
      s.Counted := by
    induction hs with
    | init =>
        exact ⟨.init, .init .., .init ..⟩
    | step e _ hok h ih =>
        obtain ⟨hreach, hsorted, hcounted⟩ := ih
        obtain ⟨hfits, hown⟩ := hok
        exact ⟨hreach.step e (hsorted.balanced hcounted hfits h) h,
          hsorted.step hcounted hfits hown h, hcounted.step hfits h⟩
  exact hinvariant.1

/-- **The bands make up the total as long as every step is balanced**, and the first step that is not
ends it. -/
theorem bands_agree (hs : (simulatedNode mId mConfig).Reach NodeTasks.Balanced s) :
    s.BandsAgree ∧ ∀ e s', s.step e = some s' → (s'.BandsAgree ↔ s.Balanced e) := by
  have hinvariant : s.Sums ∧ s.Bounded := by
    induction hs with
    | init => exact ⟨.init .., .init ..⟩
    | step e _ hok h ih =>
        obtain ⟨hsums, hbounded⟩ := ih
        exact ⟨(hsums.step_iff hbounded.lt h).mpr hok, hbounded.step h⟩
  obtain ⟨hsums, hbounded⟩ := hinvariant
  refine ⟨hbounded.bandsAgree_iff.mpr hsums, fun e s' h => ?_⟩
  rw [(hbounded.step h).bandsAgree_iff]
  exact hsums.step_iff hbounded.lt h

end Runs

/-- Two jobs of two bands, the second cancelled before it begins. -/
theorem bands_agree_cancelled : ∃ s,
    (simulatedNode 1 {}).Reach NodeTasks.Balanced s ∧ s.BandsAgree ∧ s.tasks.length = 2 ∧
      s.node.mQueueDepth = 0 ∧ ∀ priority, s.node.mQueueDepthByPriority priority = 0 := by
  obtain ⟨s, hs, hend⟩ := (simulatedNode 1 {}).exists_reach
    (fun s e => s.Fits e ∧ s.Unpromoted e)
    [.submit {} ⟨0, 1⟩, .submit { priority := .high } ⟨1, 1⟩, .task 0 .submitPriority,
      .reprioritise (SlotMapHandle.toJobHandle ⟨0, 1⟩) .normal, .task 1 .submitPriority,
      .cancel (SlotMapHandle.toJobHandle ⟨1, 1⟩), .task 0 .beginJob, .task 0 (.payload true 5),
      .task 1 .beginJob, .task 0 .completeJob]
    (fun s => s.tasks.length == 2 && s.outstanding == 0) (by decide +kernel)
  obtain ⟨hlength, hdone⟩ : s.tasks.length = 2 ∧ s.outstanding = 0 := by simpa using hend
  have hagree := (bands_agree (balanced_of_unpromoted hs)).1
  exact ⟨s, balanced_of_unpromoted hs, hagree, hlength, hagree.drained hdone⟩

/-- **A promoted job leaves its band counted for ever.**  The job is submitted as Normal, promoted to
Critical while it is queued, and finishes: nothing is outstanding, the total is 0, and the Normal
band still counts one. -/
theorem promoted_job_left_counted : ∃ s,
    (simulatedNode 1 {}).Reach Machine.anyEvent s ∧ s.outstanding = 0 ∧ s.node.mQueueDepth = 0 ∧
      s.node.mQueueDepthByPriority .normal = 1 ∧ ¬s.BandsAgree := by
  obtain ⟨s, hs, hend⟩ := (simulatedNode 1 {}).exists_reach Machine.anyEvent
    [.submit {} ⟨0, 1⟩, .task 0 .submitPriority,
      .reprioritise (SlotMapHandle.toJobHandle ⟨0, 1⟩) .critical, .task 0 .beginJob,
      .task 0 (.payload true 5), .task 0 .completeJob]
    (fun s => s.outstanding == 0 && s.node.mQueueDepth == 0 &&
      s.node.mQueueDepthByPriority .normal == 1) (by decide +kernel)
  simp only [Bool.and_eq_true, beq_iff_eq] at hend
  obtain ⟨⟨hdone, htotal⟩, hnormal⟩ := hend
  refine ⟨s, hs, hdone, htotal, hnormal, fun h => ?_⟩
  have hzero := (h.drained hdone).2 .normal
  rw [hnormal] at hzero
  cases hzero

end FatpBalancer
