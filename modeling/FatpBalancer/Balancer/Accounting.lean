/-
# Where every job is

A job that `submit` has accepted is in one place at a time: stored in the holding queue, in the
drain thread's hands, on a node, or it has left the system.  A job that has left is being finalised
by one thread, or waits in the registration state for its registering thread, or has been
finalised.  Each atomic step moves at most one job from one place to the next, which makes
`finalizeJobLifecycle` run once for each of them and ties `mSubmittedCount` to their number.

The places are sums over the tables of the state, so that a step that changes one row changes one
summand.

* `acceptedAt`, `waiting`, `ended`, `handling` and the histories count, for a single job, how often
  it is accepted, waiting, gone, in a finalising thread's hands and finalised.
* `AccountingInv` balances them: accepted is waiting plus ended, and ended is handling plus
  finalised, with all of them at most one.
* `Handover` is the step lemma of the shared sub-machines, which pass the job they handle on to the
  next stage or to the finalised ones; the threads' own steps follow, one lemma each.
* `AccountingInv.submittedCount_eq` sums over all jobs: the 32-bit counter is the number of accepted
  and unfinalised jobs plus the calls between their increment and their verdict, as long as that
  number fits.
-/
import FatpBalancer.Balancer.Holding

universe u

namespace FatpBalancer

variable {F : Type u} [FloatOps F]

/-! ## The places

Every place answers whose job it has, as an optional call identity, and `owns` makes a number of the
answer. -/

/-- 1 if this place has the job of call `i`. -/
def owns (i : CallId) (owner : Option CallId) : Nat := if owner = some i then 1 else 0

/-- An empty place owns no job. -/
@[simp] theorem owns_none (i : CallId) : owns i none = 0 := rfl

/-- The head of a history counts as a place does. -/
theorem count_cons_owns (i j : CallId) (l : List CallId) :
    (j :: l).count i = l.count i + owns i (some j) := by
  simp [List.count_cons, owns]

/-- The job is accepted: stored in the holding queue or taken by a node. -/
def SubmitPc.accepted : SubmitPc → Bool
  | .countHeld _ | .countDispatched _ | .register _ | .returned (.ok _) => true
  | _ => false

/-- The call has backed out. -/
def SubmitPc.rejected : SubmitPc → Bool
  | .returned (.error _) => true
  | _ => false

/-- The call has incremented `mSubmittedCount` and neither accepted its job nor backed out. -/
def SubmitPc.pending (pc : SubmitPc) : Bool := !pc.accepted && !pc.rejected

/-- The job whose early completion this registration is finalising. -/
def Register.handles (r : Register) : Option CallId :=
  match r.stage with
  | .finalize f => some f.call
  | _ => none

/-- The job this `submit` call is finalising, after an early completion. -/
def SubmitPc.handles : SubmitPc → Option CallId
  | .countDispatched r | .register r => r.handles
  | _ => none

/-- The held job in the drain thread's hands. -/
def DrainPc.carries : DrainPc → Option CallId
  | .entry e | .select e | .nodeSubmit _ e | .requeue e => some e.onDone.call
  | _ => none

/-- The job the drain thread is dropping, or finalising after an early completion. -/
def DrainPc.handles : DrainPc → Option CallId
  | .dropRelease e => some e.onDone.call
  | .dropping f => some f.call
  | .releaseSlot r | .register r => r.handles
  | _ => none

/-- The job this `cancel` call has taken out and not finalised yet. -/
def CancelPc.handles : CancelPc → Option CallId
  | .releaseSlot entry => some entry.onDone.call
  | .finalize f => some f.call
  | _ => none

/-- The node has the job. -/
def Dispatch.onNode (d : Dispatch) : Option CallId :=
  match d.side with
  | .live | .finished _ _ => some d.call
  | _ => none

/-- The job has left the node: its callback has begun or its cancel has succeeded. -/
def Dispatch.left (d : Dispatch) : Option CallId :=
  match d.side with
  | .live | .finished _ _ => none
  | _ => some d.call

/-- The job the callback is finalising. -/
def Dispatch.handles (d : Dispatch) : Option CallId :=
  match d.side with
  | .calling f => some f.call
  | _ => none

/-- The early-completed job that waits for its registration. -/
def Dispatch.early (d : Dispatch) : Option CallId :=
  if d.regState.earlyCompletedJob.isSome then some d.call else none

/-- 1 if the call at position `i` has had its job accepted. -/
def acceptedAt (calls : List Call) (i : CallId) : Nat :=
  ((calls[i]?).any fun c => c.pc.accepted).toNat

/-- How often the job of call `i` is in the queue. -/
def heldJobs (entries : List HeldEntry) (i : CallId) : Nat :=
  Table.total (fun e => owns i (some e.onDone.call)) entries

/-- The order of the queue does not matter. -/
theorem heldJobs_perm {l l' : List HeldEntry} {e : HeldEntry} (h : l.Perm (e :: l')) (i : CallId) :
    heldJobs l i = heldJobs l' i + owns i (some e.onDone.call) := by
  rw [heldJobs, Table.total_perm h, Table.total_cons, Nat.add_comm, heldJobs]

/-- How often the job of call `i` is on a node. -/
def onNodes (dispatches : List Dispatch) (i : CallId) : Nat :=
  Table.total (fun d => owns i d.onNode) dispatches

/-- How often the job of call `i` has left a node. -/
def leftNodes (dispatches : List Dispatch) (i : CallId) : Nat :=
  Table.total (fun d => owns i d.left) dispatches

/-- How often a callback, or a registration state, has the job of call `i` for finalisation. -/
def nodesHandle (dispatches : List Dispatch) (i : CallId) : Nat :=
  Table.total (fun d => owns i d.handles + owns i d.early) dispatches

/-- How often a `submit` call is finalising the job of call `i`. -/
def callsHandle (calls : List Call) (i : CallId) : Nat :=
  Table.total (fun c => owns i c.pc.handles) calls

/-- How often a `cancel` call has the job of call `i` for finalisation. -/
def cancelsHandle (cancels : List CancelCall) (i : CallId) : Nat :=
  Table.total (fun c => owns i c.pc.handles) cancels

/-- How often the job of call `i` is waiting for its execution. -/
def waiting (s : State F) (i : CallId) : Nat :=
  heldJobs s.m.mHoldingQueue.entries i + owns i s.drain.carries + onNodes s.dispatches i

/-- How often the job of call `i` has left the system: executed, cancelled or dropped. -/
def ended (s : State F) (i : CallId) : Nat :=
  s.dropped.count i + s.removed.count i + leftNodes s.dispatches i

/-- How many threads, or pending registrations, are to finalise the job of call `i`. -/
def handling (s : State F) (i : CallId) : Nat :=
  callsHandle s.calls i + nodesHandle s.dispatches i + cancelsHandle s.allCancels i +
    owns i s.drain.handles

/-- Replacing one call exchanges what it handles. -/
theorem callsHandle_set {calls : List Call} {k : Nat} {c : Call} (hc : calls[k]? = some c)
    (c' : Call) (i : CallId) :
    callsHandle (calls.set k c') i + owns i c.pc.handles =
      callsHandle calls i + owns i c'.pc.handles :=
  Table.total_set hc c'

/-- Replacing one dispatch exchanges what is on its node. -/
theorem onNodes_set {l : List Dispatch} {k : Nat} {d : Dispatch} (hd : l[k]? = some d)
    (d' : Dispatch) (i : CallId) :
    onNodes (l.set k d') i + owns i d.onNode = onNodes l i + owns i d'.onNode :=
  Table.total_set hd d'

/-- Replacing one dispatch exchanges what has left its node. -/
theorem leftNodes_set {l : List Dispatch} {k : Nat} {d : Dispatch} (hd : l[k]? = some d)
    (d' : Dispatch) (i : CallId) :
    leftNodes (l.set k d') i + owns i d.left = leftNodes l i + owns i d'.left :=
  Table.total_set hd d'

/-- Replacing one dispatch exchanges what its callback handles. -/
theorem nodesHandle_set {l : List Dispatch} {k : Nat} {d : Dispatch} (hd : l[k]? = some d)
    (d' : Dispatch) (i : CallId) :
    nodesHandle (l.set k d') i + (owns i d.handles + owns i d.early) =
      nodesHandle l i + (owns i d'.handles + owns i d'.early) :=
  Table.total_set hd d'

/-- The calls that have not backed out. -/
def openCalls (calls : List Call) : Nat := Table.total (fun c => (!c.pc.rejected).toNat) calls

/-- A job waits in the registration state only between its callback and its publication. -/
def Dispatch.Consistent (d : Dispatch) : Prop :=
  d.regState.earlyCompletedJob ≠ none → d.side = .called ∧ d.regState.published = false

theorem Dispatch.Consistent.unreported {d : Dispatch} (h : d.Consistent) (hside : d.side ≠ .called) :
    d.regState.earlyCompletedJob = none :=
  by_contra fun hne => hside (h hne).1

theorem Dispatch.consistent_of_none {d : Dispatch} (h : d.regState.earlyCompletedJob = none) :
    d.Consistent :=
  fun hne => absurd h hne

/-- The balance of the places, job by job, and the counter over all of them. -/
structure AccountingInv (s : State F) : Prop where
  placed : ∀ i, waiting s i + ended s i = acceptedAt s.calls i
  settled : ∀ i, handling s i + finalizedCount s i = ended s i
  consistent : ∀ d ∈ s.dispatches, d.Consistent
  count_lt : s.m.mSubmittedCount < 2 ^ 32
  count_mod : (s.m.mSubmittedCount + s.finalized.length) % 2 ^ 32 = openCalls s.calls % 2 ^ 32

variable {cfg : BalancerConfig F} {inp : Input} {ev : Event}
  {s s' : State F}

/-- A new balancer has no jobs. -/
theorem AccountingInv.create (cfg : BalancerConfig F) : AccountingInv (State.create cfg) where
  placed _ := rfl
  settled _ := rfl
  consistent := by simp [State.create]
  count_lt := Nat.two_pow_pos 32
  count_mod := rfl

/-- Accepted jobs wait or have ended. -/
theorem AccountingInv.balance (h : AccountingInv s)
    (hplaced : ∀ i, waiting s' i + ended s' i + acceptedAt s.calls i =
      waiting s i + ended s i + acceptedAt s'.calls i)
    (hsettled : ∀ i, handling s' i + finalizedCount s' i + ended s i =
      handling s i + finalizedCount s i + ended s' i)
    (hconsistent : ∀ d ∈ s'.dispatches, d.Consistent)
    (hlt : s'.m.mSubmittedCount < 2 ^ 32)
    (hmod : (s'.m.mSubmittedCount + s'.finalized.length + openCalls s.calls) % 2 ^ 32 =
      (s.m.mSubmittedCount + s.finalized.length + openCalls s'.calls) % 2 ^ 32) :
    AccountingInv s' where
  placed i := by
    have := h.placed i
    have := hplaced i
    omega
  settled i := by
    have := h.settled i
    have := hsettled i
    omega
  consistent := hconsistent
  count_lt := hlt
  count_mod := by
    have := h.count_mod
    omega

/-- A step that moves no job. -/
theorem AccountingInv.quiet (h : AccountingInv s) (hwaiting : ∀ i, waiting s' i = waiting s i)
    (hended : ∀ i, ended s' i = ended s i) (hhandling : ∀ i, handling s' i = handling s i)
    (haccepted : ∀ i, acceptedAt s'.calls i = acceptedAt s.calls i)
    (hopen : openCalls s'.calls = openCalls s.calls) (hfinalized : s'.finalized = s.finalized)
    (hcount : s'.m.mSubmittedCount = s.m.mSubmittedCount)
    (hconsistent : ∀ d ∈ s'.dispatches, d.Consistent) :
    AccountingInv s' := by
  refine h.balance (fun i => ?_) (fun i => ?_) hconsistent (hcount ▸ h.count_lt) ?_
  · rw [hwaiting, hended, haccepted]
  · rw [hhandling, hended, finalizedCount, hfinalized, finalizedCount]
  · rw [hcount, hfinalized, hopen]

/-! ## The shared sub-machines

A finalisation ends by adding its job to the history and decrementing the counter; until then it
hands the same job from stage to stage.  A registration hands over nothing before its publication,
where it may take an early-completed job out of the registration state. -/

/-- From `s` to `t` a sub-machine has passed on the job it handles: `o` before, `o'` afterwards. -/
structure Handover (s t : State F) (o o' : Option CallId) : Prop where
  waiting : ∀ i, waiting t i = waiting s i
  ended : ∀ i, ended t i = ended s i
  handling : ∀ i, handling t i + finalizedCount t i + owns i o' =
    handling s i + finalizedCount s i + owns i o
  consistent : ∀ d ∈ t.dispatches, d.Consistent
  count_lt : t.m.mSubmittedCount < 2 ^ 32
  count_mod : (t.m.mSubmittedCount + t.finalized.length) % 2 ^ 32 =
    (s.m.mSubmittedCount + s.finalized.length) % 2 ^ 32

/-- Consistency does not look at the history flags. -/
theorem consistent_core {l l' : List Dispatch}
    (hcore : l'.map Dispatch.core = l.map Dispatch.core) (h : ∀ d ∈ l, d.Consistent) :
    ∀ d ∈ l', d.Consistent := by
  intro d hd
  have hmem : d.core ∈ l.map Dispatch.core := hcore ▸ List.mem_map_of_mem hd
  obtain ⟨d', hd', heq⟩ := List.mem_map.mp hmem
  have hconsistent : d'.core.Consistent := h d' hd'
  rw [heq] at hconsistent
  exact hconsistent

/-- The last step of `finalizeJobLifecycle` is the one that decrements the counter. -/
theorem FinalizeMove.finalized_cases {f : Finalize} {f' : Option Finalize} {t : State F}
    (hm : FinalizeMove s f t f') :
    (t.finalized = s.finalized ∧ t.m.mSubmittedCount = s.m.mSubmittedCount ∧
      f'.map Finalize.call = some f.call) ∨
    (t.finalized = (f.call, s.m.mPolicy) :: s.finalized ∧
      t.m.mSubmittedCount = fetchSub32 s.m.mSubmittedCount ∧ f' = none) := by
  cases hm with
  | learn | skip | count | held => exact .inl ⟨rfl, rfl, rfl⟩
  | untrack => exact .inl ⟨by cases f.dispatch <;> rfl, by cases f.dispatch <;> rfl, rfl⟩
  | unroute handle =>
      refine .inl ⟨by cases f.dispatch <;> rfl, ?_, rfl⟩
      have herase : (eraseRoutingState s.m handle).mSubmittedCount = s.m.mSubmittedCount := by
        unfold eraseRoutingState
        split <;> rfl
      cases f.dispatch <;> exact herase
  | release => exact .inr ⟨rfl, rfl, rfl⟩

/-- The history grows by one job at a time. -/
theorem finalizedCount_cons {j : CallId} {policy : PolicyId}
    (hf : s'.finalized = (j, policy) :: s.finalized) (i : CallId) :
    finalizedCount s' i = finalizedCount s i + owns i (some j) := by
  simp [finalizedCount, hf, List.countP_cons, owns]

/-- Where the jobs are does not depend on what the sub-machines touch besides. -/
theorem places_core {t : State F} (hout : SameOutside s t)
    (hcore : t.dispatches.map Dispatch.core = s.dispatches.map Dispatch.core) (i : CallId) :
    waiting t i = waiting s i ∧ ended t i = ended s i ∧ handling t i = handling s i := by
  have honNodes : onNodes t.dispatches i = onNodes s.dispatches i := total_core (fun _ => rfl) hcore
  have hleft : leftNodes t.dispatches i = leftNodes s.dispatches i :=
    total_core (fun _ => rfl) hcore
  have hhandle : nodesHandle t.dispatches i = nodesHandle s.dispatches i :=
    total_core (fun _ => rfl) hcore
  refine ⟨?_, ?_, ?_⟩
  · rw [waiting, waiting, hout.queue, hout.drain, honNodes]
  · rw [ended, ended, hout.dropped, hout.removed, hleft]
  · rw [handling, handling, hout.calls, hout.drain, State.allCancels, hout.cancels, hout.aging,
      hhandle]
    rfl

/-- Handing over nothing, in a step that moves no job. -/
theorem Handover.quiet (h : AccountingInv s) {t : State F} (hout : SameOutside s t)
    (hcore : t.dispatches.map Dispatch.core = s.dispatches.map Dispatch.core)
    (hfinalized : t.finalized = s.finalized)
    (hcount : t.m.mSubmittedCount = s.m.mSubmittedCount) (o : Option CallId) :
    Handover s t o o where
  waiting i := (places_core hout hcore i).1
  ended i := (places_core hout hcore i).2.1
  handling i := by
    rw [(places_core hout hcore i).2.2, finalizedCount, hfinalized, finalizedCount]
  consistent := consistent_core hcore h.consistent
  count_lt := hcount ▸ h.count_lt
  count_mod := by rw [hcount, hfinalized]

/-- A finalisation keeps its job or adds it to the history. -/
theorem FinalizeMove.handover (h : AccountingInv s) {f : Finalize} {f' : Option Finalize}
    {t : State F} (hm : FinalizeMove s f t f') :
    Handover s t (some f.call) (f'.map Finalize.call) := by
  have hout := hm.sameOutside
  have hcore := hm.dispatches_core
  rcases hm.finalized_cases with ⟨hf, hcount, ho⟩ | ⟨hf, hcount, rfl⟩
  · rw [ho]
    exact .quiet h hout hcore hf hcount _
  · refine ⟨fun i => (places_core hout hcore i).1, fun i => (places_core hout hcore i).2.1,
      fun i => ?_, consistent_core hcore h.consistent, hcount ▸ fetchSub32_lt h.count_lt, ?_⟩
    · rw [(places_core hout hcore i).2.2, finalizedCount_cons hf, Option.map_none, owns_none]
      omega
    · have := fetchSub32_add_one h.count_lt
      rw [hf, hcount, List.length_cons]
      omega

/-- A replaced dispatch has to be consistent, the others are. -/
theorem consistent_set {l : List Dispatch} {k : Nat} {d' : Dispatch}
    (h : ∀ d ∈ l, d.Consistent) (hd' : d'.Consistent) : ∀ d ∈ l.set k d', d.Consistent := by
  intro x hx
  obtain hx | rfl := List.mem_or_eq_of_mem_set hx
  · exact h x hx
  · exact hd'

/-- Publishing takes the early-completed job over from the registration state. -/
theorem publish_handover (h : AccountingInv s) {k : Nat} {d : Dispatch} (handle : JobHandle)
    (hd : s.dispatches[k]? = some d) :
    Handover s { s with dispatches := s.dispatches.set k (d.publish handle) } none d.early := by
  refine ⟨fun i => ?_, fun i => ?_, fun i => ?_, ?_, h.count_lt, rfl⟩
  · have : _ + owns i d.onNode = _ + owns i d.onNode := onNodes_set hd (d.publish handle) i
    simp only [waiting]
    omega
  · have : _ + owns i d.left = _ + owns i d.left := leftNodes_set hd (d.publish handle) i
    simp only [ended]
    omega
  · have : _ + (owns i d.handles + owns i d.early) = _ + (owns i d.handles + 0) :=
      nodesHandle_set hd (d.publish handle) i
    simp only [handling, State.allCancels, finalizedCount, owns_none]
    omega
  · exact consistent_set h.consistent (Dispatch.consistent_of_none rfl)

/-- A registration keeps its job, takes it from the registration state or has it finalised. -/
theorem RegisterMove.handover (h : AccountingInv s) {r : Register} {r' : Option Register}
    {t : State F} (hm : RegisterMove cfg inp s r t r') :
    Handover s t r.handles (r'.bind Register.handles) := by
  have hout := hm.sameOutside
  cases hm with
  | insert hstage | agingOff hstage | track hstage =>
      have : r.handles = none := by rw [Register.handles, hstage]
      rw [this]
      exact .quiet h hout (modifyDispatch_core fun _ => rfl) rfl rfl none
  | agingOn hstage | noDispatch hstage =>
      have : r.handles = none := by rw [Register.handles, hstage]
      rw [this]
      exact .quiet h hout rfl rfl rfl none
  | publish d hstage hd hearly =>
      have hr : r.handles = none := by rw [Register.handles, hstage]
      have hd' : d.early = none := by simp [Dispatch.early, hearly]
      have hh := publish_handover h r.handle hd
      rw [hd'] at hh
      rwa [hr]
  | publishEarly d job hstage hd hearly =>
      have hr : r.handles = none := by rw [Register.handles, hstage]
      have hd' : d.early = some d.call := by simp [Dispatch.early, hearly]
      have hh := publish_handover h r.handle hd
      rw [hd'] at hh
      rwa [hr]
  | @finalize f t f' hstage hf =>
      have : r.handles = some f.call := by rw [Register.handles, hstage]
      rw [this]
      have hh := hf.handover h
      cases f' <;> exact hh

/-- A thread that runs a sub-machine goes on with what the sub-machine has left it. -/
theorem AccountingInv.handover (h : AccountingInv s) {t : State F} {o o' : Option CallId}
    (hh : Handover s t o o') (hcount : s'.m.mSubmittedCount = t.m.mSubmittedCount)
    (hfinalized : s'.finalized = t.finalized)
    (hwaiting : ∀ i, waiting s' i = waiting t i) (hended : ∀ i, ended s' i = ended t i)
    (hhandling : ∀ i, handling s' i + owns i o = handling t i + owns i o')
    (haccepted : ∀ i, acceptedAt s'.calls i = acceptedAt s.calls i)
    (hopen : openCalls s'.calls = openCalls s.calls)
    (hconsistent : ∀ d ∈ s'.dispatches, d.Consistent) :
    AccountingInv s' := by
  refine h.balance (fun i => ?_) (fun i => ?_) hconsistent (hcount ▸ hh.count_lt) ?_
  · rw [hwaiting, hended, haccepted, hh.waiting, hh.ended]
  · have := hh.handling i
    have := hhandling i
    have := hh.ended i
    have := hended i
    have : finalizedCount s' i = finalizedCount t i := by
      rw [finalizedCount, hfinalized, finalizedCount]
    omega
  · have := hh.count_mod
    rw [hcount, hfinalized, hopen]
    omega

/-! ## Submit

A call moves its own job: into the queue, onto a node, or back out with the counter. -/

/-- A call that changes is the only one whose acceptance changes. -/
theorem acceptedAt_set {calls : List Call} {i : CallId} {c : Call} (hc : calls[i]? = some c)
    (c' : Call) (j : CallId) :
    acceptedAt (calls.set i c') j = if j = i then c'.pc.accepted.toNat else acceptedAt calls j := by
  have hlt : i < calls.length := (List.getElem?_eq_some_iff.mp hc).1
  unfold acceptedAt
  by_cases hj : j = i
  · subst hj
    simp [List.getElem?_set_self hlt]
  · simp [List.getElem?_set_ne (Ne.symm hj), hj]

/-- What the call itself says of its job. -/
theorem acceptedAt_self {calls : List Call} {i : CallId} {c : Call} (hc : calls[i]? = some c) :
    acceptedAt calls i = c.pc.accepted.toNat := by
  simp [acceptedAt, hc]

/-- A new call has accepted nothing yet. -/
theorem acceptedAt_append {calls : List Call} {c : Call} (hc : c.pc.accepted = false)
    (i : CallId) : acceptedAt (calls ++ [c]) i = acceptedAt calls i := by
  unfold acceptedAt
  rw [List.getElem?_append]
  split
  · rfl
  · next hi =>
      rw [List.getElem?_eq_none (l := calls) (by omega)]
      cases h : i - calls.length <;> simp [hc]

/-- Replacing one call exchanges its share of the open calls. -/
theorem openCalls_set {calls : List Call} {i : CallId} {c : Call} (hc : calls[i]? = some c)
    (c' : Call) :
    openCalls (calls.set i c') + (!c.pc.rejected).toNat =
      openCalls calls + (!c'.pc.rejected).toNat :=
  Table.total_set hc c'

/-- A `submit` step that neither accepts, nor backs out, nor finalises. -/
theorem AccountingInv.quietCall (h : AccountingInv s) {i : CallId} {c : Call}
    (hc : s.calls[i]? = some c) (c' : Call) (hcalls : s'.calls = s.calls.set i c')
    (haccepted : c'.pc.accepted = c.pc.accepted) (hrejected : c'.pc.rejected = c.pc.rejected)
    (hhandles : c'.pc.handles = c.pc.handles)
    (hq : s'.m.mHoldingQueue = s.m.mHoldingQueue)
    (hcount : s'.m.mSubmittedCount = s.m.mSubmittedCount)
    (hdispatches : s'.dispatches = s.dispatches) (hcancels : s'.allCancels = s.allCancels)
    (hdrain : s'.drain = s.drain) (hfinalized : s'.finalized = s.finalized)
    (hleft : s'.dropped = s.dropped ∧ s'.removed = s.removed) : AccountingInv s' := by
  refine h.quiet (fun j => ?_) (fun j => ?_) (fun j => ?_) (fun j => ?_) ?_ hfinalized hcount ?_
  · rw [waiting, waiting, hq, hdrain, hdispatches]
  · rw [ended, ended, hleft.1, hleft.2, hdispatches]
  · have := callsHandle_set hc c' j
    rw [hhandles] at this
    rw [handling, handling, hcalls, hdispatches, hcancels, hdrain]
    omega
  · rw [hcalls, acceptedAt_set hc, haccepted]
    split
    · next hj => rw [hj, acceptedAt_self hc]
    · rfl
  · have := openCalls_set hc c'
    rw [hrejected] at this
    rw [hcalls]
    omega
  · rw [hdispatches]
    exact h.consistent

/-- A call in the gate is pending and handles nothing. -/
theorem SubmitPc.accounts_of_gated {pc : SubmitPc} (h : pc.gated = true) :
    pc.accepted = false ∧ pc.rejected = false ∧ pc.handles = none := by
  cases pc <;> simp_all [SubmitPc.gated, SubmitPc.accepted, SubmitPc.rejected, SubmitPc.handles]

/-- So is a call that is about to back out. -/
theorem SubmitPc.accounts_of_leaving {pc : SubmitPc} {error : SubmitError}
    (h : pc.leaving = some error) :
    pc.accepted = false ∧ pc.rejected = false ∧ pc.handles = none := by
  cases pc <;> simp_all [SubmitPc.leaving, SubmitPc.accepted, SubmitPc.rejected, SubmitPc.handles]

/-- A step that accepts the job of call `i` puts it into one waiting place. -/
theorem AccountingInv.accept (h : AccountingInv s) {i : CallId} {c : Call}
    (hc : s.calls[i]? = some c) (c' : Call) (hcalls : s'.calls = s.calls.set i c')
    (haccepted : c.pc.accepted = false ∧ c'.pc.accepted = true)
    (hrejected : c'.pc.rejected = c.pc.rejected)
    (hhandles : c'.pc.handles = c.pc.handles)
    (hwaiting : ∀ j, waiting s' j = waiting s j + owns j (some i))
    (hended : ∀ j, ended s' j = ended s j)
    (hdispatches : ∀ j, nodesHandle s'.dispatches j = nodesHandle s.dispatches j)
    (hcancels : s'.allCancels = s.allCancels) (hdrain : s'.drain = s.drain)
    (hcount : s'.m.mSubmittedCount = s.m.mSubmittedCount)
    (hfinalized : s'.finalized = s.finalized)
    (hconsistent : ∀ d ∈ s'.dispatches, d.Consistent) :
    AccountingInv s' := by
  refine h.balance (fun j => ?_) (fun j => ?_) hconsistent (hcount ▸ h.count_lt) ?_
  · rw [hwaiting, hended, hcalls, acceptedAt_set hc, owns]
    by_cases hj : j = i
    · subst hj
      simp only [acceptedAt_self hc, haccepted, Bool.toNat_true, Bool.toNat_false]
      simp
      omega
    · simp [hj, Ne.symm hj]
  · have := callsHandle_set hc c' j
    rw [hhandles] at this
    have : finalizedCount s' j = finalizedCount s j := by
      rw [finalizedCount, hfinalized, finalizedCount]
    simp only [handling, hcalls, hdispatches, hcancels, hdrain, hended]
    omega
  · have := openCalls_set hc c'
    rw [hrejected] at this
    rw [hcount, hfinalized, hcalls]
    omega

/-- The call takes a step of its registration, and returns with it. -/
theorem AccountingInv.registerCall (h : AccountingInv s) {i : CallId} {c : Call}
    (hc : s.calls[i]? = some c) {r : Register} {t : State F} {r' : Option Register}
    (hpc : c.pc = .register r) (hr : RegisterMove cfg inp s r t r') :
    AccountingInv (t.submitAt i c (r'.elim (.returned (.ok r.handle)) .register)) := by
  have hout := hr.sameOutside
  have hh := hr.handover h
  have hc' : t.calls[i]? = some c := by rw [hout.calls]; exact hc
  refine h.handover hh rfl rfl (fun _ => rfl) (fun _ => rfl) (fun j => ?_) (fun j => ?_) ?_
    hh.consistent
  · -- what the registration still handles is what the call handles
    have hset := callsHandle_set hc' { c with pc := r'.elim (.returned (.ok r.handle)) .register } j
    simp only [hpc, SubmitPc.handles] at hset
    simp only [handling, State.submitAt, State.allCancels]
    cases r' <;> simp at hset ⊢ <;> omega
  · rw [State.submitAt, acceptedAt_set hc', hout.calls]
    split
    · next hj =>
        rw [hj, acceptedAt_self hc, hpc]
        cases r' <;> rfl
    · rfl
  · have hset := openCalls_set hc' { c with pc := r'.elim (.returned (.ok r.handle)) .register }
    simp only [hpc, SubmitPc.rejected] at hset
    rw [State.submitAt, ← hout.calls]
    cases r' <;> simp at hset ⊢ <;> omega

/-- The call gives up: it decrements the counter it incremented, and holds no job. -/
theorem AccountingInv.backOutCall (h : AccountingInv s) {i : CallId} {c : Call}
    (hc : s.calls[i]? = some c) {error : SubmitError} (hpc : c.pc.leaving = some error) :
    AccountingInv (State.submitAt { s with m.mSubmittedCount := fetchSub32 s.m.mSubmittedCount } i c
      (.returned (.error error))) := by
  obtain ⟨haccepted, hrejected, hhandles⟩ := SubmitPc.accounts_of_leaving hpc
  have hopen := openCalls_set hc { c with pc := .returned (.error error) }
  rw [hrejected] at hopen
  refine h.balance (fun j => ?_) (fun j => ?_) h.consistent (fetchSub32_lt h.count_lt) ?_
  · have hset := acceptedAt_set hc { c with pc := .returned (.error error) } j
    have hself := acceptedAt_self hc
    rw [haccepted] at hself
    rw [State.submitAt, hset]
    split
    · next hj =>
        subst hj
        rw [hself]
        rfl
    · rfl
  · have hset := callsHandle_set hc { c with pc := .returned (.error error) } j
    rw [hhandles] at hset
    simp only [SubmitPc.handles, owns_none] at hset
    simp only [handling, ended, finalizedCount, State.submitAt, State.allCancels]
    omega
  · -- one decrement for the one open call that closes
    have hcount := fetchSub32_add_one h.count_lt
    simp only [SubmitPc.rejected, Bool.not_false, Bool.toNat_true, Bool.not_true,
      Bool.toNat_false] at hopen
    simp only [State.submitAt]
    omega

/-- One case for each outcome of a step of `submit`. -/
theorem AccountingInv.submit (h : AccountingInv s) {i : CallId} {c : Call}
    (hc : s.calls[i]? = some c) (hm : SubmitMove cfg inp s i c s') : AccountingInv s' := by
  cases hm with
  | shut hpc | opened hpc | reserve hpc | holdId hpc | notEnqueued job error hpc
  | releaseSlot hpc | countHeld handle hpc | unselected error hpc | selected nodeId hpc
  | assignId nodeId hpc | refused nodeId job hpc | countDispatched r hpc =>
      -- the job is where it was
      exact h.quietCall hc _ rfl (by simp [hpc, SubmitPc.accepted])
        (by simp [hpc, SubmitPc.rejected]) (by simp [hpc, SubmitPc.handles]) rfl rfl rfl rfl rfl rfl
        ⟨rfl, rfl⟩
  | reject ac error hpc hac =>
      obtain ⟨haccepted, hrejected, hhandles⟩ := SubmitPc.accounts_of_gated hpc
      exact h.quietCall hc _ rfl haccepted.symm hrejected.symm hhandles.symm rfl rfl rfl rfl rfl
        rfl ⟨rfl, rfl⟩
  | advance ac pc hpc hpc' hac =>
      obtain ⟨haccepted, hrejected, hhandles⟩ := SubmitPc.accounts_of_gated hpc
      have hnext : pc.accepted = false ∧ pc.rejected = false ∧ pc.handles = none := by
        rcases hpc' with hpc' | rfl
        · exact SubmitPc.accounts_of_gated hpc'
        · exact ⟨rfl, rfl, rfl⟩
      exact h.quietCall hc _ rfl (hnext.1.trans haccepted.symm) (hnext.2.1.trans hrejected.symm)
        (hnext.2.2.trans hhandles.symm) rfl rfl rfl rfl rfl rfl ⟨rfl, rfl⟩
  | enqueued job handle queue hpc hq =>
      -- accepted into the queue
      have hperm := (HoldingQueue.enqueue_stored hq).1.entries
      refine h.accept hc _ rfl (by simp [hpc, SubmitPc.accepted]) (by simp [hpc, SubmitPc.rejected])
        (by simp [hpc, SubmitPc.handles]) (fun j => ?_) (fun _ => rfl) (fun _ => rfl) rfl rfl rfl
        rfl h.consistent
      simp only [waiting, State.submitAt, heldJobs_perm hperm, HoldingQueue.newEntry]
      omega
  | accepted nodeId job handle hpc hin hfree =>
      -- accepted onto a node, as the dispatch that is appended
      refine h.accept hc _ rfl (by simp [hpc, SubmitPc.accepted]) (by simp [hpc, SubmitPc.rejected])
        (by simp [hpc, SubmitPc.handles, newRegister, Register.handles]) (fun j => ?_) (fun j => ?_)
        (fun j => ?_) rfl rfl rfl rfl ?_
      · simp only [waiting, State.submitAt, acceptDispatch, onNodes, Table.total_append,
          Table.total_cons, Table.total_nil, Dispatch.onNode]
        omega
      · simp [ended, State.submitAt, acceptDispatch, leftNodes, Dispatch.left]
      · simp [State.submitAt, acceptDispatch, nodesHandle, Dispatch.handles, Dispatch.early]
      · intro d hd
        rcases List.mem_append.mp hd with hd | hd
        · exact h.consistent d hd
        · obtain rfl := List.mem_singleton.mp hd
          exact Dispatch.consistent_of_none rfl
  | register r hpc hr => exact h.registerCall hc hpc hr
  | backOut error hpc => exact h.backOutCall hc hpc

/-! ## The other threads

A node takes its job from live to left, a `cancel` takes a job from the queue or from its node, and
the drain thread takes an entry out, puts it back, drops it or turns it into a dispatch. -/

/-- A step that moves one job on at a node: it leaves the node, or its place there stays. -/
theorem AccountingInv.dispatch (h : AccountingInv s) {k : Nat} {d : Dispatch}
    (hd : s.dispatches[k]? = some d) (d' : Dispatch)
    (hplaced : ∀ i, owns i d'.onNode + owns i d'.left = owns i d.onNode + owns i d.left)
    (hsettled : ∀ i, owns i d'.handles + owns i d'.early + owns i d.left =
      owns i d.handles + owns i d.early + owns i d'.left)
    (hconsistent : d'.Consistent) :
    AccountingInv { s with dispatches := s.dispatches.set k d' } := by
  refine h.balance (fun i => ?_) (fun i => ?_) (consistent_set h.consistent hconsistent) h.count_lt rfl
  · have := onNodes_set hd d' i
    have := leftNodes_set hd d' i
    have := hplaced i
    simp only [waiting, ended]
    omega
  · have := nodesHandle_set hd d' i
    have := leftNodes_set hd d' i
    have := hsettled i
    simp only [handling, ended, finalizedCount, State.allCancels]
    omega

/-- A node's step moves the job of its dispatch out, or hands it to the callback. -/
theorem AccountingInv.node (h : AccountingInv s) {k : Nat} {d : Dispatch}
    (hd : s.dispatches[k]? = some d) (hm : NodeMove inp s k d s') : AccountingInv s' := by
  have hd0 := h.consistent d (List.mem_of_getElem? hd)
  cases hm with
  | finish hside =>
      have hnone := hd0.unreported (by simp [hside])
      refine h.dispatch hd _ (fun i => ?_) (fun i => ?_) (Dispatch.consistent_of_none hnone)
      · simp [Dispatch.onNode, Dispatch.left, hside]
      · simp [Dispatch.handles, Dispatch.early, Dispatch.left, hside]
  | early completed succeeded hside hpublished =>
      have hnone := hd0.unreported (by simp [hside])
      refine h.dispatch hd _ (fun i => ?_) (fun i => ?_) (fun _ => ⟨rfl, hpublished⟩)
      · simp [Dispatch.onNode, Dispatch.left, hside]
      · simp [Dispatch.handles, Dispatch.early, Dispatch.left, hside, hnone]
  | enter completed succeeded hside hpublished =>
      have hnone := hd0.unreported (by simp [hside])
      refine h.dispatch hd _ (fun i => ?_) (fun i => ?_) (Dispatch.consistent_of_none hnone)
      · simp [Dispatch.onNode, Dispatch.left, hside]
      · simp [Dispatch.handles, Dispatch.early, Dispatch.left, hside, hnone]
  | @finalize f t f' hside hf =>
      -- the finalisation may have moved the flags of this dispatch, but not its side
      have hout := hf.sameOutside
      obtain ⟨d', hd', hcore⟩ := getElem?_core hf.dispatches_core hd
      have hcore : d'.core.side = d.core.side := by rw [hcore]
      have hside' : d'.side = .calling f := hcore.trans hside
      have hh := hf.handover h
      refine h.handover hh rfl rfl (fun i => ?_) (fun i => ?_) (fun i => ?_) ?_ ?_ ?_
      all_goals simp only [modifyDispatch, Table.modify_eq_set hd']
      · have := onNodes_set hd' { d' with side := f'.elim .called .calling } i
        simp only [Dispatch.onNode, hside'] at this
        simp only [waiting]
        cases f' <;> simp at this ⊢ <;> omega
      · have := leftNodes_set hd' { d' with side := f'.elim .called .calling } i
        simp only [Dispatch.left, hside'] at this
        simp only [ended]
        cases f' <;> simp at this ⊢ <;> omega
      · have := nodesHandle_set hd' { d' with side := f'.elim .called .calling } i
        simp only [Dispatch.handles, Dispatch.early, hside'] at this
        simp only [handling, State.allCancels]
        cases f' <;> simp at this ⊢ <;> omega
      · intro i
        rw [hout.calls]
      · rw [hout.calls]
      · have hnone := (hh.consistent d' (List.mem_of_getElem? hd')).unreported (by simp [hside'])
        exact consistent_set hh.consistent (Dispatch.consistent_of_none hnone)

/-- A `cancel` call that takes a job out is the one that finalises it. -/
theorem AccountingInv.cancel (h : AccountingInv s) {c c' : CancelCall} {t : State F}
    {cancels : List CancelCall} {aging : AgingPc} (hm : CancelMove cfg inp s c t c')
    (hrep : CancelReplaced s c c' cancels aging) :
    AccountingInv { t with cancels := cancels, aging := aging } := by
  have htotal : ∀ i, cancelsHandle (aging.cancel?.toList ++ cancels) i + owns i c.pc.handles =
    cancelsHandle s.allCancels i + owns i c'.pc.handles := fun i => hrep.total _
  cases hm with
  | notHeld hpc | notRouted hpc | noNode info hpc | ask info hpc | refused info error hpc
  | releaseSlot entry hpc =>
      refine h.quiet (fun _ => rfl) (fun _ => rfl) (fun i => ?_) (fun _ => rfl) rfl rfl rfl
        h.consistent
      have := htotal i
      simp only [hpc, CancelPc.handles, onDoneFailed] at this
      simp only [handling, State.allCancels] at this ⊢
      omega
  | removed entry queue hpc hbit hq =>
      -- from the queue to the cancel call
      have hperm := (HoldingQueue.remove_taken hq).1.entries
      refine h.balance (fun i => ?_) (fun i => ?_) h.consistent h.count_lt rfl
      · have := heldJobs_perm hperm i
        simp only [waiting, ended, count_cons_owns]
        omega
      · have := htotal i
        simp only [hpc, CancelPc.handles, owns_none] at this
        simp only [handling, ended, finalizedCount, State.allCancels, count_cons_owns] at this ⊢
        omega
  | hit info k d hpc hd hnode hhandle hlive =>
      -- from the node to the cancel call
      simp only [modifyDispatch, Table.modify_eq_set hd]
      have honNodes := onNodes_set hd { d with side := .cancelled }
      have hleft := leftNodes_set hd { d with side := .cancelled }
      have hhandle := nodesHandle_set hd { d with side := .cancelled }
      simp only [Dispatch.onNode, Dispatch.left, Dispatch.handles, hlive, owns_none] at honNodes hleft hhandle
      refine h.balance (fun i => ?_) (fun i => ?_) ?_ h.count_lt rfl
      · have := honNodes i
        have := hleft i
        simp only [waiting, ended]
        omega
      · have := hleft i
        have := hhandle i
        have := htotal i
        simp only [hpc, CancelPc.handles, owns_none] at this
        simp only [handling, ended, finalizedCount, State.allCancels, Dispatch.early] at *
        omega
      · have hnone := (h.consistent d (List.mem_of_getElem? hd)).unreported (by simp [hlive])
        exact consistent_set h.consistent (Dispatch.consistent_of_none hnone)
  | @finalize f t f' hpc hf =>
      have hout := hf.sameOutside
      have hh := hf.handover h
      refine h.handover hh rfl rfl (fun _ => rfl) (fun _ => rfl) (fun i => ?_) ?_ ?_ hh.consistent
      · have := htotal i
        simp only [hpc, CancelPc.handles] at this
        simp only [handling, State.allCancels, hout.cancels, hout.aging] at this ⊢
        cases f' <;> simp at this ⊢ <;> omega
      · intro i
        rw [hout.calls]
      · rw [hout.calls]

/-- Lifecycle code that the drain thread runs passes the job on within the thread. -/
theorem AccountingInv.drainHandover (h : AccountingInv s) {t : State F} {o o' : Option CallId}
    {pc : DrainPc} (hh : Handover s t o o') (hout : SameOutside s t)
    (hcarries : pc.carries = s.drain.carries) (hfrom : s.drain.handles = o)
    (hto : pc.handles = o') : AccountingInv { t with drain := pc } := by
  refine h.handover hh rfl rfl (fun i => ?_) (fun _ => rfl) (fun i => ?_) ?_ ?_ hh.consistent
  · simp only [waiting, hout.drain, hcarries]
  · simp only [handling, State.allCancels, hout.drain, hfrom, hto]
    omega
  · intro i
    rw [hout.calls]
  · rw [hout.calls]

/-- The drain thread goes on, and no job changes its place. -/
theorem AccountingInv.quietDrain (h : AccountingInv s) {pc : DrainPc} {m : Members F}
    {selections : List (CallId × PolicyId)} (hcarries : pc.carries = s.drain.carries)
    (hhandles : pc.handles = s.drain.handles) (hq : m.mHoldingQueue = s.m.mHoldingQueue)
    (hcount : m.mSubmittedCount = s.m.mSubmittedCount) :
    AccountingInv { s with m := m, selections := selections, drain := pc } := by
  refine h.quiet (fun i => ?_) (fun _ => rfl) (fun i => ?_) (fun _ => rfl) rfl rfl hcount
    h.consistent
  · simp only [waiting, hcarries, hq]
  · simp only [handling, hhandles]
    rfl

/-- One case for each outcome of a step of the drain thread. -/
theorem AccountingInv.drain (h : AccountingInv s) (hslots : HoldingInv cfg s)
    (hm : DrainMove cfg inp s s') : AccountingInv s' := by
  cases hm with
  | wake hpc | drained hpc | saturated entry hpc | offer entry hpc | dropRelease entry hpc
  | unselected entry hpc | selected entry nodeId hpc | refused nodeId entry hpc
  | releaseSlot r hpc =>
      exact h.quietDrain (by simp [hpc, DrainPc.carries, retryEntry])
        (by simp [hpc, DrainPc.handles, onDoneFailed]) rfl rfl
  | take entry queue hpc hq =>
      -- from the queue to the drain thread
      have hperm := (HoldingQueue.tryDequeue_taken hq).entries
      refine h.balance (fun i => ?_) (fun i => ?_) h.consistent h.count_lt rfl
      · have := heldJobs_perm hperm i
        simp only [waiting, ended, hpc, DrainPc.carries, owns_none]
        omega
      · simp only [handling, ended, finalizedCount, hpc, DrainPc.handles]
        rfl
  | drop entry hpc =>
      refine h.balance (fun i => ?_) (fun i => ?_) h.consistent h.count_lt rfl
      · simp only [waiting, ended, hpc, DrainPc.carries, owns_none, count_cons_owns]
        omega
      · simp only [handling, ended, finalizedCount, hpc, DrainPc.handles, owns_none,
          count_cons_owns, State.allCancels]
        omega
  | @dropping f t f' hpc hf =>
      refine h.drainHandover (hf.handover h) hf.sameOutside ?_ ?_ ?_
      · rw [hpc]
        cases f' <;> rfl
      · rw [hpc]
        rfl
      · cases f' <;> rfl
  | accepted nodeId entry handle hpc hin hfree =>
      -- from the drain thread to a node
      refine h.balance (fun i => ?_) (fun i => ?_) ?_ h.count_lt rfl
      · simp only [waiting, ended, acceptDispatch, onNodes, leftNodes, Table.total_append,
          Table.total_cons, Table.total_nil, Dispatch.onNode, Dispatch.left, hpc, DrainPc.carries,
          owns_none]
        omega
      · simp [handling, ended, finalizedCount, acceptDispatch, nodesHandle, leftNodes, newRegister,
          Dispatch.handles, Dispatch.early, Dispatch.left, hpc, DrainPc.handles, Register.handles,
          State.allCancels]
      · intro d hd
        rcases List.mem_append.mp hd with hd | hd
        · exact h.consistent d hd
        · obtain rfl := List.mem_singleton.mp hd
          exact Dispatch.consistent_of_none rfl
  | requeued entry handle queue hpc hq =>
      have hperm := (HoldingQueue.requeue_stored hq).1.entries
      refine h.balance (fun i => ?_) (fun i => ?_) h.consistent h.count_lt rfl
      · have := heldJobs_perm hperm i
        simp only [waiting, ended, hpc, DrainPc.carries, owns_none]
        omega
      · simp only [handling, ended, finalizedCount, hpc, DrainPc.handles]
        rfl
  | lost entry error hpc hq =>
      -- the drain thread's own slot leaves room
      have hroom := hslots.room (by
        simp only [takenSlots, hpc, DrainPc.holdsEntry, Bool.toNat_true]
        omega)
      simp [HoldingQueue.requeue_ok _ hroom] at hq
  | @register r t r' hpc hr =>
      refine h.drainHandover (hr.handover h) hr.sameOutside ?_ ?_ ?_
      · rw [hpc]
        cases r' <;> rfl
      · rw [hpc]
        rfl
      · cases r' <;> rfl

/-- The calls change nothing about the jobs' places, and the other cancels hold no job. -/
theorem AccountingInv.quietCancels (h : AccountingInv s) {m : Members F}
    {cancels : List CancelCall} {switches : List SwitchPc} {toggles : List TogglePc}
    {aging : AgingPc} (hq : m.mHoldingQueue = s.m.mHoldingQueue)
    (hcount : m.mSubmittedCount = s.m.mSubmittedCount)
    (hcancels : ∀ i, cancelsHandle (aging.cancel?.toList ++ cancels) i =
      cancelsHandle s.allCancels i) :
    AccountingInv
      { s with m := m, cancels := cancels, switches := switches, toggles := toggles,
               aging := aging } := by
  refine h.quiet (fun i => ?_) (fun _ => rfl) (fun i => ?_) (fun _ => rfl) rfl rfl hcount
    h.consistent
  · simp only [waiting, hq]
  · have := hcancels i
    simp only [handling, State.allCancels] at this ⊢
    omega

/-- Every step moves at most one job from one place to the next. -/
theorem AccountingInv.move (h : AccountingInv s) (hslots : HoldingInv cfg s)
    (hm : Move cfg ev s s') : AccountingInv s' := by
  cases hm with
  | submitCall job =>
      refine h.balance (fun i => ?_) (fun i => ?_) h.consistent (fetchAdd32_lt _) ?_
      · dsimp only
        rw [acceptedAt_append rfl]
        rfl
      · simp [handling, callsHandle, ended, finalizedCount, SubmitPc.handles, State.allCancels]
      · simp [openCalls, SubmitPc.rejected, fetchAdd32]
        omega
  | submit i c hc hm => exact h.submit hc hm
  | node k d hd hm => exact h.node hd hm
  | cancelCall handle =>
      exact h.quietCancels rfl rfl fun i => by
        simp [cancelsHandle, State.allCancels, CancelPc.handles]
  | cancel c c' t cancels aging hm hrep => exact h.cancel hm hrep
  | switchCall => exact h.quietCancels rfl rfl fun _ => rfl
  | switch k pc hactor hpc hm => cases hm <;> exact h.quietCancels rfl rfl fun _ => rfl
  | drain hm => exact h.drain hslots hm
  | aging hm =>
      have htotal : ∀ i, cancelsHandle s'.allCancels i = cancelsHandle s.allCancels i := fun i =>
        hm.total_allCancels (fun c hc => by rw [hc]; rfl) (fun c result hc => by rw [hc]; rfl)
      cases hm <;> exact h.quietCancels rfl rfl htotal
  | toggle enabled stop toggles aging haging =>
      refine h.quietCancels rfl rfl fun i => ?_
      rcases haging with rfl | ⟨hpc, rfl⟩ | ⟨hpc, rfl⟩ <;>
        simp [State.allCancels, *, AgingPc.cancel?]
  | setModes shedBulk strict => exact h.quietCancels rfl rfl fun _ => rfl
  | setDegradationEnabled enabled => exact h.quietCancels rfl rfl fun _ => rfl

/-- In every reachable state, under any assumption on the steps. -/
theorem accountingInv_reach {ok : State F → Event → Prop} (hs : (balancer cfg).Reach ok s) :
    AccountingInv s :=
  hs.invariant (.create cfg) fun _ hr h _ hstep => h.move (holdingInv_reach hr) (step_move hstep)

/-! ## The jobs in flight

Summing the balance over all calls gives the value that `mSubmittedCount` stands for. -/

/-- The job of call `i` is accepted. -/
def accepted (s : State F) (i : CallId) : Bool := (s.calls[i]?).any fun c => c.pc.accepted

/-- The number of calls that have incremented `mSubmittedCount` and neither accepted their job nor
backed out. -/
def pendingSubmits (s : State F) : Nat := s.calls.countP fun c => c.pc.pending

/-- The number of accepted jobs that are not finalised yet. -/
def unfinalizedJobs (s : State F) : Nat :=
  (List.range s.calls.length).countP fun i => accepted s i && finalizedCount s i == 0

/-- What `mSubmittedCount` is meant to count. -/
def inFlight (s : State F) : Nat := pendingSubmits s + unfinalizedJobs s

/-- No job is finalised twice. -/
theorem AccountingInv.finalizedCount_le (h : AccountingInv s) (i : CallId) :
    finalizedCount s i ≤ (accepted s i).toNat := by
  have hplaced := h.placed i
  have := h.settled i
  rw [show acceptedAt s.calls i = (accepted s i).toNat from rfl] at hplaced
  omega

/-- Only calls that exist have their job finalised. -/
theorem AccountingInv.finalized_lt (h : AccountingInv s) :
    ∀ e ∈ s.finalized, e.1 < s.calls.length := by
  intro e he
  have hpos : 0 < finalizedCount s e.1 := List.countP_pos_iff.mpr ⟨e, he, by simp⟩
  have hle := h.finalizedCount_le e.1
  by_contra hge
  rw [accepted, List.getElem?_eq_none (Nat.le_of_not_lt hge)] at hle
  exact absurd hle (Nat.not_le_of_gt hpos)

/-- Every open call is pending, or its job is in flight, or its job is finalised. -/
theorem AccountingInv.openCalls_eq (h : AccountingInv s) :
    openCalls s.calls = inFlight s + s.finalized.length := by
  have hopen : openCalls s.calls =
      pendingSubmits s + Table.total (fun c => c.pc.accepted.toNat) s.calls := by
    rw [openCalls, pendingSubmits, ← Table.total_toNat, ← Table.total_add]
    congr 1
    funext c
    cases hpc : c.pc <;> try rfl
    next result => cases result <;> rfl
  have haccepted : Table.total (fun c => c.pc.accepted.toNat) s.calls =
      Table.total (fun i => (accepted s i).toNat) (List.range s.calls.length) := by
    rw [← Table.total_range]
    congr 1
    funext i
    rw [accepted]
    cases s.calls[i]? <;> rfl
  have hsplit : ∀ i, (accepted s i).toNat =
      (accepted s i && finalizedCount s i == 0).toNat + finalizedCount s i := fun i => by
    have hle := h.finalizedCount_le i
    cases ha : accepted s i with
    | false =>
        rw [ha] at hle
        simp at hle
        simp [hle]
    | true =>
        rw [ha, Bool.toNat_true] at hle
        obtain hz | hone : finalizedCount s i = 0 ∨ finalizedCount s i = 1 := by omega
        · simp [hz]
        · simp [hone]
  have hlength : Table.total (finalizedCount s) (List.range s.calls.length) =
      s.finalized.length :=
    Table.total_countP_key Prod.fst s.finalized h.finalized_lt
  rw [hopen, haccepted]
  simp only [hsplit, Table.total_add, Table.total_toNat]
  rw [hlength, inFlight, unfinalizedJobs, Nat.add_assoc]

/-- The counter is the number of jobs in flight in 32-bit arithmetic. -/
theorem AccountingInv.submittedCount_eq (h : AccountingInv s) :
    s.m.mSubmittedCount = inFlight s % 2 ^ 32 := by
  have hlt := h.count_lt
  have hmod := h.count_mod
  rw [h.openCalls_eq] at hmod
  omega

end FatpBalancer
