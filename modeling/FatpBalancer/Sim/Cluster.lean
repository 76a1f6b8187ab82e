/-
# The cluster: a balancer over simulated nodes

The balancer's threads and the nodes' workers, stepping in any order.  A thread that calls into a
node is given the answer the node computes, and a completion callback runs when the task of its job
gets to it, so that nothing is assumed of the nodes any more.

Clock readings, metrics snapshots and the answers of the policy stay inputs.  So does the moment at
which the aging thread's `reprioritise` arrives: it looks its handle up under the map lock and calls
the node later, when the job may be anywhere.

`ClusterMove` is the case analysis: the balancer alone, the balancer with the answer of a node, a
task alone, a task whose step is one of its dispatch, and a fault.  The correspondence of dispatches
and tasks is by node and handle, `dispatchOf` and `taskAt`.
-/
import FatpBalancer.Balancer.Step
import FatpBalancer.Sim.NodeTasks

universe u

namespace FatpBalancer

variable {F : Type u} [FloatOps F]

/-- A balancer and its nodes, by identity. -/
structure Cluster (F : Type u) [FloatOps F] where
  balancer : State F
  nodes : NodeId → NodeTasks
  /-- history: the dispatch of every task of a node -/
  jobs : NodeId → List Nat

/-- A call of the balancer into a node whose answer it waits for. -/
inductive NodeRequest
  | submit (nodeId : NodeId) (job : Job)
  | cancel (nodeId : NodeId) (handle : JobHandle)

inductive ClusterEvent
  /-- a thread of the balancer goes on, or a callback does; `smHandle` is what the slot map of the
  node picks for a new job -/
  | thread (ev : Event) (smHandle : SlotMapHandle)
  | task (nodeId : NodeId) (t : Nat) (a : TaskAction)
  | reprioritise (nodeId : NodeId) (handle : JobHandle) (newPriority : Priority)
  | injectFault (nodeId : NodeId) (fault : FaultType) (config : FaultConfig)

def CancelCall.request (c : CancelCall) : Option NodeRequest :=
  match c.pc with
  | .askNode info => some (.cancel info.nodeId c.handle)
  | _ => none

/-- What the next step of this thread asks of a node. -/
def State.request (s : State F) : Actor → Option NodeRequest
  | .submit i =>
      (s.calls[i]?).bind fun c =>
        match c.pc with
        | .nodeSubmit nodeId job => some (.submit nodeId job)
        | _ => none
  | .cancel c => (s.cancels[c]?).bind CancelCall.request
  | .drain =>
      match s.drain with
      | .nodeSubmit nodeId entry => some (.submit nodeId entry.job)
      | _ => none
  | .aging =>
      match s.aging with
      | .cancelling c _ => c.request
      | _ => none
  | _ => none

namespace Cluster

/-- The balancer under construction has no jobs, and every node has been started. -/
def create (cfg : BalancerConfig F) (mConfig : SimulatedNodeConfig) : Cluster F where
  balancer := .create cfg
  nodes id := (simulatedNode id mConfig).init
  jobs _ := []

/-- The dispatch whose job is task `t` of this node. -/
def dispatchOf (s : Cluster F) (nodeId : NodeId) (t : Nat) : Nat := (s.jobs nodeId)[t]?.getD 0

/-- The task under this handle. -/
def taskAt (s : Cluster F) (nodeId : NodeId) (handle : JobHandle) : Nat :=
  (s.nodes nodeId).tasks.findIdx fun t => t.smHandle = .ofJobHandle handle

/-- `submit` of the node has handed the task of this registration to the pool. -/
def handedOver (s : Cluster F) (r : Register) : Bool :=
  ((s.nodes r.nodeId).tasks.zip (s.jobs r.nodeId)).all fun e =>
    e.2 != r.dispatch || e.1.pc != .registered

/-- The step is not for this thread to take: a job on a node goes on by its task, and a submitter is
still inside the node's `submit` until the task is in the pool. -/
def blocked (s : Cluster F) : Actor → Bool
  | .node k =>
      !(s.balancer.dispatches[k]?).any fun d =>
        match d.side with
        | .calling _ => true
        | _ => false
  | .submit i =>
      (s.balancer.calls[i]?).any fun c =>
        match c.pc with
        | .countDispatched r => !s.handedOver r
        | _ => false
  | .drain =>
      match s.balancer.drain with
      | .releaseSlot r => !s.handedOver r
      | _ => false
  | _ => false

/-- What the node's `submit` returns. -/
def accepts (s : Cluster F) (nodeId : NodeId) (job : Job) (smHandle : SlotMapHandle) :
    Option JobHandle :=
  if ((s.nodes nodeId).node.submit job smHandle).isOk then some smHandle.toJobHandle else none

/-- What the node's `cancel` returns; a success names the dispatch it hits. -/
def cancelReply (s : Cluster F) (nodeId : NodeId) (handle : JobHandle) : Except CancelError Nat :=
  match ((s.nodes nodeId).node.cancel handle).1 with
  | .error error => .error error
  | .ok () => .ok (s.dispatchOf nodeId (s.taskAt nodeId handle))

/-- The step of the job's dispatch that a step of its task is: the second lock region of
`executeJob` takes the job off the node, `onDone` is the callback's lock region. -/
def report (s : Cluster F) (nodeId : NodeId) (t : Nat) (a : TaskAction) : Option Event :=
  ((s.nodes nodeId).tasks[t]?).bind fun task =>
    match a, task.pc with
    | .completeJob, .ran job succeeded _ =>
        some {
          actor := .node (s.dispatchOf nodeId t)
          input := { completed := job, succeeded } }
    | .onDone, .completed _ _ => some { actor := .node (s.dispatchOf nodeId t) }
    | _, _ => none

def setNode (s : Cluster F) (nodeId : NodeId) (n : NodeTasks) : Cluster F :=
  { s with nodes := Function.update s.nodes nodeId n }

/-- A thread of the balancer goes on, with the answer it has been given. -/
def stepBalancer (cfg : BalancerConfig F) (s : Cluster F) (ev : Event) : Option (Cluster F) :=
  (FatpBalancer.step cfg s.balancer ev).map fun b => { s with balancer := b }

def step (cfg : BalancerConfig F) (s : Cluster F) : ClusterEvent → Option (Cluster F)
  | .thread ev smHandle =>
      match s.balancer.request ev.actor with
      | none => if s.blocked ev.actor then none else s.stepBalancer cfg ev
      | some (.submit nodeId job) =>
          let accepted := s.accepts nodeId job smHandle
          ((s.nodes nodeId).step (.submit job smHandle)).bind fun n =>
            { s.setNode nodeId n with
              jobs := Function.update s.jobs nodeId
                (s.jobs nodeId ++ accepted.toList.map fun _ => s.balancer.dispatches.length) }
              |>.stepBalancer cfg { ev with input := { ev.input with accepted } }
      | some (.cancel nodeId handle) =>
          let reply := s.cancelReply nodeId handle
          ((s.nodes nodeId).step (.cancel handle)).bind fun n =>
            (s.setNode nodeId n).stepBalancer cfg
              { ev with input := { ev.input with cancelReply := reply } }
  | .task nodeId t a =>
      ((s.nodes nodeId).step (.task t a)).bind fun n =>
        match s.report nodeId t a with
        | none => some (s.setNode nodeId n)
        | some ev => (s.setNode nodeId n).stepBalancer cfg ev
  | .reprioritise nodeId handle newPriority =>
      ((s.nodes nodeId).step (.reprioritise handle newPriority)).map (s.setNode nodeId)
  | .injectFault nodeId fault config =>
      ((s.nodes nodeId).step (.injectFault fault config)).map (s.setNode nodeId)

end Cluster

/-- A balancer over started nodes. -/
def cluster (cfg : BalancerConfig F) (mConfig : SimulatedNodeConfig) :
    Machine (Cluster F) ClusterEvent where
  init := .create cfg mConfig
  step := Cluster.step cfg

/-! ## What a step can do

Read off `step` once; the invariants of the cluster are proved over it. -/

namespace Cluster

variable {cfg : BalancerConfig F} {s s' : Cluster F}

/-- One constructor for each way in which the balancer and a node step together or alone. -/
inductive ClusterMove (cfg : BalancerConfig F) (s : Cluster F) : Cluster F → Prop
  /-- a thread goes on by itself -/
  | thread (ev : Event) (b : State F) (hreq : s.balancer.request ev.actor = none)
      (hblocked : s.blocked ev.actor = false)
      (hb : FatpBalancer.step cfg s.balancer ev = some b) :
      ClusterMove cfg s { s with balancer := b }
  | refused (ev : Event) (b : State F) (nodeId : NodeId) (job : Job)
      (hreq : s.balancer.request ev.actor = some (.submit nodeId job))
      (hin : ev.input.accepted = none) (hb : FatpBalancer.step cfg s.balancer ev = some b) :
      ClusterMove cfg s { s with balancer := b }
  | accepted (ev : Event) (b : State F) (nodeId : NodeId) (job : Job) (smHandle : SlotMapHandle)
      (n : NodeTasks) (hreq : s.balancer.request ev.actor = some (.submit nodeId job))
      (hfresh : ∀ x ∈ (s.nodes nodeId).tasks, x.smHandle ≠ smHandle)
      (hn : (s.nodes nodeId).step (.submit job smHandle) = some n)
      (htasks : n.tasks =
        (s.nodes nodeId).tasks ++ [{ job := (s.nodes nodeId).node.stamp job, smHandle }])
      (hin : ev.input.accepted = some smHandle.toJobHandle)
      (hb : FatpBalancer.step cfg s.balancer ev = some b) :
      ClusterMove cfg s
        { balancer := b
          nodes := Function.update s.nodes nodeId n
          jobs := Function.update s.jobs nodeId
            (s.jobs nodeId ++ [s.balancer.dispatches.length]) }
  | uncancelled (ev : Event) (b : State F) (nodeId : NodeId) (handle : JobHandle)
      (error : CancelError) (hreq : s.balancer.request ev.actor = some (.cancel nodeId handle))
      (hnode : ((s.nodes nodeId).node.cancel handle).1 = .error error)
      (hin : ev.input.cancelReply = .error error)
      (hb : FatpBalancer.step cfg s.balancer ev = some b) :
      ClusterMove cfg s { s with balancer := b }
  | cancelled (ev : Event) (b : State F) (nodeId : NodeId) (handle : JobHandle) (n : NodeTasks)
      (hreq : s.balancer.request ev.actor = some (.cancel nodeId handle))
      (hnode : ((s.nodes nodeId).node.cancel handle).1 = .ok ())
      (hn : (s.nodes nodeId).step (.cancel handle) = some n)
      (hin : ev.input.cancelReply = .ok (s.dispatchOf nodeId (s.taskAt nodeId handle)))
      (hb : FatpBalancer.step cfg s.balancer ev = some b) :
      ClusterMove cfg s { s.setNode nodeId n with balancer := b }
  /-- a task goes on, of which the balancer hears nothing -/
  | task (nodeId : NodeId) (t : Nat) (a : TaskAction) (n : NodeTasks)
      (hn : (s.nodes nodeId).step (.task t a) = some n) (hreport : s.report nodeId t a = none) :
      ClusterMove cfg s (s.setNode nodeId n)
  | reported (ev : Event) (b : State F) (nodeId : NodeId) (t : Nat) (a : TaskAction)
      (n : NodeTasks) (hn : (s.nodes nodeId).step (.task t a) = some n)
      (hreport : s.report nodeId t a = some ev)
      (hb : FatpBalancer.step cfg s.balancer ev = some b) :
      ClusterMove cfg s { s.setNode nodeId n with balancer := b }
  /-- a fault, or a new priority -/
  | node (nodeId : NodeId) (e : NodeEvent) (n : NodeTasks)
      (he : (∃ handle newPriority, e = .reprioritise handle newPriority) ∨
        ∃ fault config, e = .injectFault fault config)
      (hn : (s.nodes nodeId).step e = some n) (htasks : n.tasks = (s.nodes nodeId).tasks) :
      ClusterMove cfg s (s.setNode nodeId n)

theorem setNode_self (nodeId : NodeId) : s.setNode nodeId (s.nodes nodeId) = s := by
  rw [setNode, Function.update_eq_self]

theorem accepts_error {nodeId : NodeId} {job : Job} {smHandle : SlotMapHandle}
    {error : SubmitError} (h : (s.nodes nodeId).node.submit job smHandle = .error error) :
    s.accepts nodeId job smHandle = none := by
  rw [accepts, h]
  rfl

theorem accepts_ok {nodeId : NodeId} {job : Job} {smHandle : SlotMapHandle}
    {node : SimulatedNode} (h : (s.nodes nodeId).node.submit job smHandle = .ok node) :
    s.accepts nodeId job smHandle = some smHandle.toJobHandle := by
  rw [accepts, h]
  rfl

theorem step_move {e : ClusterEvent} (h : s.step cfg e = some s') : ClusterMove cfg s s' := by
  cases e with
  | thread ev smHandle =>
      rw [step] at h
      split at h
      · next hreq =>
          split at h
          · cases h
          · next hblocked =>
              obtain ⟨b, hb, rfl⟩ := Option.map_eq_some_iff.mp h
              exact .thread ev b hreq (by simpa using hblocked) hb
      · next nodeId job hreq =>
          obtain ⟨n, hn, h⟩ := Option.bind_eq_some_iff.mp h
          obtain ⟨b, hb, rfl⟩ := Option.map_eq_some_iff.mp h
          have hfresh : ¬((s.nodes nodeId).tasks.any (·.smHandle = smHandle)) = true := by
            intro hany
            rw [NodeTasks.step, if_pos hany] at hn
            cases hn
          cases hnode : (s.nodes nodeId).node.submit job smHandle with
          | error error =>
              rw [NodeTasks.step, if_neg hfresh, hnode] at hn
              obtain rfl := Option.some.inj hn
              rw [accepts_error hnode] at hb ⊢
              have hsame : { s.setNode nodeId (s.nodes nodeId) with
                  jobs := Function.update s.jobs nodeId (s.jobs nodeId ++ []) } = s := by
                rw [setNode_self, List.append_nil, Function.update_eq_self]
              show ClusterMove cfg s { { s.setNode nodeId (s.nodes nodeId) with
                jobs := Function.update s.jobs nodeId (s.jobs nodeId ++ []) } with balancer := b }
              rw [hsame]
              exact .refused { ev with input := { ev.input with accepted := none } } b nodeId
                job hreq rfl hb
          | ok node =>
              rw [accepts_ok hnode] at hb ⊢
              refine .accepted { ev with input := { ev.input with
                accepted := some smHandle.toJobHandle } } b nodeId job smHandle n hreq ?_ hn ?_
                rfl hb
              · intro x hx heq
                exact hfresh (List.any_eq_true.mpr ⟨x, hx, by simpa using heq⟩)
              · rw [NodeTasks.step, if_neg hfresh, hnode] at hn
                rw [← Option.some.inj hn]
      · next nodeId handle hreq =>
          obtain ⟨n, hn, h⟩ := Option.bind_eq_some_iff.mp h
          obtain ⟨b, hb, rfl⟩ := Option.map_eq_some_iff.mp h
          cases hnode : ((s.nodes nodeId).node.cancel handle).1 with
          | error error =>
              have hkept : (s.nodes nodeId).node = ((s.nodes nodeId).node.cancel handle).2 := by
                rcases (s.nodes nodeId).node.cancel_cases handle with ⟨hok, -⟩ | ⟨-, -, hsame⟩
                · rw [hok] at hnode
                  cases hnode
                · exact hsame.symm
              simp only [NodeTasks.step, hnode, ← hkept] at hn
              obtain rfl := Option.some.inj hn
              rw [cancelReply, hnode] at hb
              show ClusterMove cfg s { s.setNode nodeId (s.nodes nodeId) with balancer := b }
              rw [setNode_self]
              exact .uncancelled { ev with input := { ev.input with
                cancelReply := .error error } } b nodeId handle error hreq hnode rfl hb
          | ok _ =>
              rw [cancelReply, hnode] at hb
              exact .cancelled { ev with input := { ev.input with
                cancelReply := .ok (s.dispatchOf nodeId (s.taskAt nodeId handle)) } } b nodeId
                handle n hreq hnode hn rfl hb
  | task nodeId t a =>
      rw [step] at h
      obtain ⟨n, hn, h⟩ := Option.bind_eq_some_iff.mp h
      split at h
      · next hreport => exact Option.some.inj h ▸ .task nodeId t a n hn hreport
      · next ev hreport =>
          obtain ⟨b, hb, rfl⟩ := Option.map_eq_some_iff.mp h
          exact .reported ev b nodeId t a n hn hreport hb
  | reprioritise nodeId handle newPriority =>
      rw [step] at h
      obtain ⟨n, hn, rfl⟩ := Option.map_eq_some_iff.mp h
      exact .node nodeId _ n (.inl ⟨handle, newPriority, rfl⟩) hn (by rw [← Option.some.inj hn])
  | injectFault nodeId fault config =>
      rw [step] at h
      obtain ⟨n, hn, rfl⟩ := Option.map_eq_some_iff.mp h
      exact .node nodeId _ n (.inr ⟨fault, config, rfl⟩) hn (by rw [← Option.some.inj hn])

end Cluster

end FatpBalancer
