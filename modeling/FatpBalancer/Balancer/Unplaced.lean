/-
# The balancer: the jobs that can still be handed to a node

A job that is not on a node yet is in the hands of the `submit` call that brought it, in the holding
queue, or in the hands of the drain thread.  A job that a node accepts leaves that count as it enters
the table of dispatches, and so do a stored entry and the call or thread that has stored it: a run
without new calls hands the nodes no more jobs than there are unplaced ones.

The attempts that a held job has left play no part.  An attempt that fails puts the same entry back.

`State.placements` adds the two numbers: the dispatches there are, and the jobs that may still
become one, in the hands of open calls, in the queue and in the drain thread's hands.  No step of a
thread makes the sum larger but the beginning of a new call, so a bound on it is one that a cluster
left to itself keeps.
-/
import FatpBalancer.Balancer.History

universe u

namespace FatpBalancer

variable {F : Type u} [FloatOps F] {cfg : BalancerConfig F} {s s' : State F} {ev : Event}
  {inp : Input}

/-- The call can still hand its job to a node, or store it. -/
def SubmitPc.unplaced : SubmitPc → Bool
  | .entered | .gate | .globalRate _ | .modes _ | .priorityRate _ | .capacity _ | .reserving _
  | .holdId | .enqueue _ | .select | .assignId _ | .nodeSubmit _ _ => true
  | _ => false

/-- The drain thread has an entry in hand that a node can still get, or the queue again. -/
def DrainPc.unplaced : DrainPc → Bool
  | .entry _ | .select _ | .nodeSubmit _ _ | .requeue _ => true
  | _ => false

def unplacedCalls (calls : List Call) : Nat := calls.countP fun c => c.pc.unplaced

/-- The jobs that are on no node yet, and may still get on one. -/
def State.unplaced (s : State F) : Nat :=
  unplacedCalls s.calls + s.m.mHoldingQueue.entries.length + s.drain.unplaced.toNat

/-- The jobs handed to nodes so far, and those that still can be. -/
def State.placements (s : State F) : Nat := s.dispatches.length + s.unplaced

/-! ## The tables -/

theorem NodeMove.length_dispatches {k : Nat} {d : Dispatch} (h : NodeMove inp s k d s') :
    s'.dispatches.length = s.dispatches.length := by
  cases h with
  | finish | early | enter => exact List.length_set
  | finalize f hside hf => exact (List.length_modify ..).trans hf.length_dispatches

theorem CancelMove.length_dispatches {c c' : CancelCall} (h : CancelMove cfg inp s c s' c') :
    s'.dispatches.length = s.dispatches.length := by
  cases h with
  | hit => exact List.length_modify ..
  | finalize f hpc hf => exact hf.length_dispatches
  | _ => rfl

theorem CancelMove.queue {c c' : CancelCall} (h : CancelMove cfg inp s c s' c') :
    s'.m.mHoldingQueue = s.m.mHoldingQueue ∨
      ∃ entry, s.m.mHoldingQueue.Taken entry s'.m.mHoldingQueue := by
  cases h with
  | removed entry queue hpc hbit hq => exact .inr ⟨entry, (HoldingQueue.remove_taken hq).1⟩
  | finalize f hpc hf => exact .inl hf.sameOutside.queue
  | _ => exact .inl rfl

theorem unplacedCalls_set {calls : List Call} {i : CallId} {c : Call} (hc : calls[i]? = some c)
    (c' : Call) :
    unplacedCalls (calls.set i c') + c.pc.unplaced.toNat =
      unplacedCalls calls + c'.pc.unplaced.toNat :=
  Table.countP_set hc c'

/-! ## The moves -/

/-- A step that adds no dispatch, leaves the drain thread alone and stores nothing. -/
theorem State.placements_le (hdispatches : s'.dispatches.length = s.dispatches.length)
    (hcalls : unplacedCalls s'.calls ≤ unplacedCalls s.calls)
    (hqueue : s'.m.mHoldingQueue.entries.length ≤ s.m.mHoldingQueue.entries.length)
    (hdrain : s'.drain = s.drain) : s'.placements ≤ s.placements := by
  rw [State.placements, State.placements, State.unplaced, State.unplaced, hdispatches, hdrain]
  omega

theorem SubmitPc.unplaced_of_gated {pc : SubmitPc} (h : pc.gated = true) : pc.unplaced = true := by
  cases pc <;> first | rfl | cases h

theorem SubmitMove.placements_le {i : CallId} {c : Call} (h : SubmitMove cfg inp s i c s')
    (hc : s.calls[i]? = some c) : s'.placements ≤ s.placements := by
  -- a call that goes on in place counts for no more than before
  have hon : ∀ {t : State F} {d : Call}, t.calls = s.calls.set i d →
      t.dispatches.length = s.dispatches.length → t.drain = s.drain →
      t.m.mHoldingQueue = s.m.mHoldingQueue → c.pc.unplaced = true ∨ d.pc.unplaced = false →
      t.placements ≤ s.placements := by
    intro t d hcalls hdispatches hdrain hqueue hpc
    have htraded := unplacedCalls_set hc d
    refine State.placements_le hdispatches ?_ (by rw [hqueue]) hdrain
    rw [hcalls]
    rcases hpc with hpc | hpc
    · have hle := Bool.toNat_le d.pc.unplaced
      rw [hpc, Bool.toNat_true] at htraded
      omega
    · rw [hpc, Bool.toNat_false] at htraded
      omega
  cases h with
  | enqueued job handle queue hpc hq =>
      -- the job moves from the call into the queue
      have hlength := (HoldingQueue.enqueue_stored hq).1.entries.length_eq
      have htraded := unplacedCalls_set hc { c with pc := .countHeld handle }
      rw [List.length_cons] at hlength
      rw [hpc] at htraded
      simp only [State.placements, State.unplaced, State.submitAt]
      simp only [SubmitPc.unplaced, Bool.toNat_true, Bool.toNat_false] at htraded
      omega
  | accepted nodeId job handle hpc hin hfree =>
      -- the job moves from the call onto the node
      have htraded := unplacedCalls_set hc
        { c with pc := .countDispatched (newRegister s nodeId handle job) }
      rw [hpc] at htraded
      simp only [State.placements, State.unplaced, State.submitAt, acceptDispatch,
        List.length_append, List.length_singleton]
      simp only [SubmitPc.unplaced, Bool.toNat_true, Bool.toNat_false] at htraded
      omega
  | @register r t r' hpc hr =>
      have hout := hr.sameOutside
      refine hon (d := { c with pc := r'.elim (.returned (.ok r.handle)) .register }) ?_
        hr.length_dispatches hout.drain hout.queue (.inr ?_)
      · rw [State.submitAt, hout.calls]
      · cases r' <;> rfl
  | reject ac error hpc | advance ac pc hpc =>
      exact hon rfl rfl rfl rfl (.inl (SubmitPc.unplaced_of_gated hpc))
  | shut hpc | opened hpc | reserve hpc | holdId hpc | notEnqueued _ _ hpc | unselected _ hpc
  | selected _ hpc | assignId _ hpc | refused _ _ hpc =>
      exact hon rfl rfl rfl rfl (.inl (by rw [hpc]; rfl))
  | releaseSlot | countHeld | countDispatched | backOut => exact hon rfl rfl rfl rfl (.inr rfl)

theorem DrainMove.placements_le (h : DrainMove cfg inp s s') : s'.placements ≤ s.placements := by
  have hcalls : s'.calls = s.calls := h.threads.1
  rw [State.placements, State.placements, State.unplaced, State.unplaced, hcalls]
  cases h with
  | take entry queue hpc hq =>
      -- from the queue into the thread's hands
      rw [HoldingQueue.tryDequeue_entries hq, hpc]
      simp only [DrainPc.unplaced, List.length_cons, Bool.toNat_true, Bool.toNat_false]
      omega
  | requeued entry handle queue hpc hq =>
      have hlength := (HoldingQueue.requeue_stored hq).1.entries.length_eq
      rw [List.length_cons] at hlength
      simp only [hpc, DrainPc.unplaced, Bool.toNat_true, Bool.toNat_false]
      omega
  | accepted nodeId entry handle hpc hin hfree =>
      simp only [hpc, acceptDispatch, DrainPc.unplaced, Bool.toNat_true, Bool.toNat_false,
        List.length_append, List.length_singleton]
      omega
  | @dropping f t f' hpc hf =>
      have hhand : (f'.elim DrainPc.looping .dropping).unplaced = false := by cases f' <;> rfl
      rw [hf.length_dispatches, hf.sameOutside.queue, hhand]
      exact Nat.add_le_add_left (Nat.le_add_right ..) _
  | @register r t r' hpc hr =>
      have hhand : (r'.elim DrainPc.looping .register).unplaced = false := by cases r' <;> rfl
      rw [hr.length_dispatches, hr.sameOutside.queue, hhand]
      exact Nat.add_le_add_left (Nat.le_add_right ..) _
  | wake hpc | drained hpc | drop _ hpc | saturated _ hpc | offer _ hpc | dropRelease _ hpc =>
      rw [hpc]
      simp [DrainPc.unplaced]
  | unselected _ hpc | selected _ _ hpc | refused _ _ hpc | lost _ _ hpc | releaseSlot _ hpc =>
      rw [hpc]
      simp [DrainPc.unplaced]

/-- **No step but a new call makes the jobs for the nodes more.** -/
theorem step_placements_le (h : step cfg s ev = some s')
    (hcalls : s'.calls.length = s.calls.length) : s'.placements ≤ s.placements := by
  cases step_move h with
  | submitCall job => simp at hcalls
  | submit i c hc hm => exact hm.placements_le hc
  | node k d hd hm =>
      obtain ⟨hsame, -, -, hdrain, -⟩ := hm.threads
      refine State.placements_le hm.length_dispatches (by rw [hsame]) (le_of_eq ?_) hdrain
      cases hm with
      | finalize f hside hf =>
          exact congrArg (fun queue => queue.entries.length) hf.sameOutside.queue
      | _ => rfl
  | cancel c c' t cancels aging hm hrep =>
      obtain ⟨hsame, -, -, hdrain, -⟩ := hm.threads
      refine State.placements_le hm.length_dispatches (by rw [hsame]) ?_ hdrain
      rcases hm.queue with hqueue | ⟨entry, htaken⟩
      · rw [hqueue]
      · have hlength := htaken.entries.length_eq
        rw [List.length_cons] at hlength
        exact hlength ▸ Nat.le_succ _
  | drain hm => exact hm.placements_le
  | aging hm => cases hm <;> exact le_rfl
  | switch k pc hswitch hpc hm => cases hm <;> exact le_rfl
  | cancelCall | switchCall | toggle | setModes | setDegradationEnabled => exact le_rfl

end FatpBalancer
