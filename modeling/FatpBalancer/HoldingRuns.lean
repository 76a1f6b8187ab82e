/-
# The holding queue as a bounded priority queue

Any sequence of calls, beside a history that is computed from the calls and their answers alone: what
has been stored and not been taken out since.  The history answers every call as the queue does,
which makes the two lists, the size and the sequence numbers of the queue one bounded queue of two
priorities.

* `QueueOp` and `QueueAnswer` are the calls and what they answer, `apply` is the queue's own doing.
* `QueueHistory` is the abstract queue: what is held, in the order of its arrival, what is out and
  what has been served, computed from the calls and the answers only.  `QueueHistory.answer` is what
  a bounded queue of two priorities has to answer.
* `Refines` relates the two, and its step lemma goes call by call; `Stores` is the part about the
  two lists and the scans through them.
* `Fifo` says what the abstract queue is for: within a priority entries are served in the order of
  their enqueues, but for those that are requeued.
-/
import FatpBalancer.HoldingQueue
import FatpBalancer.Lib.Machine
import FatpBalancer.Lib.TwoBands

universe u

namespace FatpBalancer

variable {C : Type u}

/-! ## Calls and answers

`cancel` and `size` have no caller in the repository outside its tests; they are here because the
contract of the class covers them. -/

/-- The calls of the class. -/
inductive QueueOp (C : Type u)
  | enqueue (job : Job) (onDone : C)
  | tryDequeue
  | remove (rawHandle : JobHandle)
  | cancel (rawHandle : JobHandle)
  | requeue (entry : Entry C)

/-- What a call answers. -/
inductive QueueAnswer (C : Type u)
  | handle (result : Except SubmitError JobHandle)
  | entry (result : Option (Entry C))
  | removed (result : Bool)

/-- The call reports that it has done nothing. -/
def QueueAnswer.failed : QueueAnswer C → Bool
  | .handle (.error _) | .entry none | .removed false => true
  | .handle (.ok _) | .entry (some _) | .removed true => false

namespace HoldingQueue

/-- The size as the class keeps it. -/
def size (q : HoldingQueue C) : Nat := q.mSize

/-- `cancel`: `remove`, without the entry. -/
def cancel (q : HoldingQueue C) (rawHandle : JobHandle) : Bool × HoldingQueue C :=
  match q.remove rawHandle with
  | none => (false, q)
  | some (_, q') => (true, q')

/-- One call.  Every failing path returns before the first write. -/
def apply (q : HoldingQueue C) : QueueOp C → QueueAnswer C × HoldingQueue C
  | .enqueue job onDone =>
      match q.enqueue job onDone with
      | .ok (handle, q') => (.handle (.ok handle), q')
      | .error error => (.handle (.error error), q)
  | .tryDequeue =>
      match q.tryDequeue with
      | some (e, q') => (.entry (some e), q')
      | none => (.entry none, q)
  | .remove rawHandle =>
      match q.remove rawHandle with
      | some (e, q') => (.entry (some e), q')
      | none => (.entry none, q)
  | .cancel rawHandle =>
      let r := q.cancel rawHandle
      (.removed r.1, r.2)
  | .requeue entry =>
      match q.requeue entry with
      | .ok (handle, q') => (.handle (.ok handle), q')
      | .error error => (.handle (.error error), q)

/-- A call that fails leaves the queue as it was. -/
theorem apply_failed {q : HoldingQueue C} {op : QueueOp C} (h : (q.apply op).1.failed = true) :
    (q.apply op).2 = q := by
  revert h
  cases op with
  | enqueue job onDone | tryDequeue | remove rawHandle | requeue entry =>
      rw [apply]
      split
      · intro h
        cases h
      · intro _
        rfl
  | cancel rawHandle =>
      simp only [apply, cancel]
      split
      · intro _
        rfl
      · intro h
        cases h

end HoldingQueue

/-! ## The history

The history knows nothing of sequence numbers but the number of enqueues; handles are told apart
because an enqueue draws a new one. -/

/-- What the callers of a queue know. -/
structure QueueHistory (C : Type u) where
  /-- returned by `enqueue`, the latest first -/
  handles : List JobHandle := []
  /-- enqueued or requeued and not dequeued or removed since, in the order of arrival -/
  held : List (Entry C) := []
  /-- dequeued and not requeued since -/
  out : List (Entry C) := []
  /-- all that has been dequeued, in order -/
  served : List (Entry C) := []
  requeued : Bool := false

namespace QueueHistory

/-- The entry belongs to the first of the two bands. -/
def isCritical (e : Entry C) : Bool := decide (e.job.priority = .critical)

/-- What a call with this answer adds to the history. -/
def record (h : QueueHistory C) : QueueOp C → QueueAnswer C → QueueHistory C
  | .enqueue job onDone, .handle (.ok handle) =>
      { h with
        handles := handle :: h.handles
        held := h.held ++ [{ job, onDone, holdHandle := handle, seq := h.handles.length + 1 }] }
  | .tryDequeue, .entry (some e) =>
      { h with
        held := TwoBands.without Entry.holdHandle e.holdHandle h.held
        out := e :: h.out
        served := h.served ++ [e] }
  | .remove rawHandle, .entry (some _) | .cancel rawHandle, .removed true =>
      { h with held := TwoBands.without Entry.holdHandle rawHandle h.held }
  | .requeue entry, .handle (.ok _) =>
      { h with
        held := h.held ++ [entry]
        out := TwoBands.without Entry.holdHandle entry.holdHandle h.out
        requeued := true }
  | _, _ => h

/-- What a bounded priority queue with this history answers. -/
def answer (mCapacity : Nat) (h : QueueHistory C) : QueueOp C → QueueAnswer C
  | .enqueue _ _ =>
      .handle (if mCapacity ≤ h.held.length then .error .holdingQueueFull
        else .ok (holdingHandle (h.handles.length + 1)))
  | .tryDequeue => .entry (TwoBands.next isCritical h.held)
  | .remove rawHandle => .entry (TwoBands.lookup Entry.holdHandle rawHandle h.held)
  | .cancel rawHandle => .removed (TwoBands.lookup Entry.holdHandle rawHandle h.held).isSome
  | .requeue entry =>
      .handle (if mCapacity ≤ h.held.length then .error .holdingQueueFull
        else .ok entry.holdHandle)

/-- What the documentation asks of the callers: Critical and High jobs are enqueued, and what is
requeued has been dequeued, and not been requeued since. -/
def Allowed (h : QueueHistory C) : QueueOp C → Prop
  | .enqueue job _ => job.priority.holdable = true
  | .requeue entry => entry ∈ h.out
  | .tryDequeue | .remove _ | .cancel _ => True

instance [DecidableEq C] (h : QueueHistory C) (op : QueueOp C) : Decidable (h.Allowed op) :=
  match op with
  | .enqueue job _ => inferInstanceAs (Decidable (job.priority.holdable = true))
  | .requeue entry => inferInstanceAs (Decidable (entry ∈ h.out))
  | .tryDequeue | .remove _ | .cancel _ => inferInstanceAs (Decidable True)

end QueueHistory

/-- A queue with its history. -/
def holdingQueue (C : Type u) (mCapacity : Nat) :
    Machine (HoldingQueue C × QueueHistory C) (QueueOp C) where
  init := ({ mCapacity }, {})
  step s op :=
    let r := s.1.apply op
    some (r.2, s.2.record op r.1)

/-! ## Handles

A handle is the sequence number with the high bit set, so that numbers below 2⁶³ give handles of
their own. -/

/-- Setting a bit that is not set is adding it. -/
theorem kHoldingHandleBit_or {n : Nat} (h : n < 2 ^ 63) : kHoldingHandleBit ||| n = 2 ^ 63 + n := by
  have hadd := Nat.shiftLeft_add_eq_or_of_lt h 1
  rw [Nat.shiftLeft_eq, Nat.one_mul] at hadd
  exact hadd.symm

/-- The first 2⁶³ sequence numbers have handles of their own. -/
theorem holdingHandle_inj {m n : Nat} (hm : m < 2 ^ 63) (hn : n < 2 ^ 63)
    (h : holdingHandle m = holdingHandle n) : m = n := by
  have hvalue : ∀ k, k < 2 ^ 63 → holdingHandle k = 2 ^ 63 + k := by
    intro k hk
    rw [holdingHandle, Nat.mod_eq_of_lt (by omega), kHoldingHandleBit_or hk]
  rw [hvalue m hm, hvalue n hn] at h
  exact Nat.add_left_cancel h

namespace HoldingQueue

variable {q q' : HoldingQueue C} {e : Entry C} {l : List (Entry C)} {rawHandle : JobHandle}

/-! ## The two lists

`remove` looks through the first list and then through the second; with handles of their own there
is one entry to be found. -/

/-- The scan finds the entry of this handle and leaves the others in their order. -/
theorem extractFrom_eq (rawHandle : JobHandle) (l : List (Entry C)) :
    extractFrom rawHandle l = (TwoBands.lookup Entry.holdHandle rawHandle l).map fun e =>
      (e, TwoBands.without Entry.holdHandle rawHandle l) := by
  induction l with
  | nil => rfl
  | cons a l ih =>
      rw [extractFrom, ih]
      by_cases ha : a.holdHandle = rawHandle
      · simp [TwoBands.lookup, TwoBands.without, ha]
      · simp [TwoBands.lookup, TwoBands.without, ha, Function.comp_def]

/-- The queue without the entry of this handle. -/
def dropHandle (q : HoldingQueue C) (rawHandle : JobHandle) : HoldingQueue C :=
  { q with
    mCritical := TwoBands.without Entry.holdHandle rawHandle q.mCritical
    mHigh := TwoBands.without Entry.holdHandle rawHandle q.mHigh
    mSize := q.mSize - 1 }

/-- The lists of the queue hold these entries, which have handles of their own. -/
structure Stores (q : HoldingQueue C) (l : List (Entry C)) : Prop where
  splits : TwoBands.Splits QueueHistory.isCritical l q.mCritical q.mHigh
  distinct : (l.map Entry.holdHandle).Nodup

/-- `remove` takes out the entry of this handle, wherever it is. -/
theorem Stores.remove_eq (h : q.Stores l) (rawHandle : JobHandle) :
    q.remove rawHandle =
      (TwoBands.lookup Entry.holdHandle rawHandle l).map fun e => (e, q.dropHandle rawHandle) := by
  rw [remove, extractFrom_eq, extractFrom_eq, h.splits.lookup h.distinct rawHandle]
  cases hcrit : TwoBands.lookup Entry.holdHandle rawHandle q.mCritical with
  | some e =>
      obtain ⟨he, rfl⟩ := TwoBands.lookup_some hcrit
      have hhigh := TwoBands.without_of_absent (h.splits.absent_back h.distinct he)
      simp only [Option.map_some, Option.some_or, dropHandle, hhigh]
  | none =>
      have hsame := TwoBands.without_of_absent (TwoBands.lookup_eq_none.mp hcrit)
      rw [Option.none_or]
      cases hhigh : TwoBands.lookup Entry.holdHandle rawHandle q.mHigh with
      | some e => simp only [Option.map_none, Option.map_some, dropHandle, hsame]
      | none => rfl

/-- `tryDequeue` takes the head of the first list, or of the second. -/
theorem Stores.tryDequeue_eq (h : q.Stores l) :
    q.tryDequeue = (TwoBands.next QueueHistory.isCritical l).map fun e =>
      (e, q.dropHandle e.holdHandle) := by
  have hsplits := h.splits
  rw [tryDequeue]
  cases hcrit : q.mCritical with
  | cons e rest =>
      rw [hcrit] at hsplits
      have hhigh := TwoBands.without_of_absent
        (hsplits.absent_back h.distinct (x := e) List.mem_cons_self)
      have hrest : TwoBands.without Entry.holdHandle e.holdHandle (e :: rest) = rest :=
        List.eraseP_cons_of_pos (by simp)
      simp only [hsplits.next_front, Option.map_some, dropHandle, hcrit, hhigh, hrest]
  | nil =>
      rw [hcrit] at hsplits
      rw [hsplits.next_back]
      cases hhigh : q.mHigh with
      | nil => rfl
      | cons e rest =>
          have hrest : TwoBands.without Entry.holdHandle e.holdHandle (e :: rest) = rest :=
            List.eraseP_cons_of_pos (by simp)
          have hnil : TwoBands.without Entry.holdHandle e.holdHandle ([] : List (Entry C)) = [] := rfl
          simp only [List.head?_cons, Option.map_some, dropHandle, hcrit, hhigh, hrest, hnil]

/-- The rest has handles of its own too. -/
theorem Stores.dropHandle (h : q.Stores l) (rawHandle : JobHandle) :
    (q.dropHandle rawHandle).Stores (TwoBands.without Entry.holdHandle rawHandle l) where
  splits := h.splits.without h.distinct rawHandle
  distinct := h.distinct.sublist (TwoBands.without_sublist.map Entry.holdHandle)

/-- A new entry goes to the end of its band. -/
theorem Stores.pushBack (h : q.Stores l) (hfresh : ∀ a ∈ l, a.holdHandle ≠ e.holdHandle) :
    (q.pushBack e).Stores (l ++ [e]) where
  splits := by
    unfold HoldingQueue.pushBack
    split
    · next hcrit => exact h.splits.push_front (by simpa [QueueHistory.isCritical] using hcrit)
    · next hhigh => exact h.splits.push_back (by simpa [QueueHistory.isCritical] using hhigh)
  distinct := by
    rw [List.map_append, List.nodup_append]
    refine ⟨h.distinct, List.nodup_singleton _, ?_⟩
    rintro a ha b hb rfl
    obtain ⟨x, hx, heq⟩ := List.mem_map.mp ha
    exact hfresh x hx (heq.trans (List.mem_singleton.mp hb))

end HoldingQueue

/-! ## The refinement

The handles of the stored entries come from different enqueues, so a new one is fresh and a stored
one is found. -/

/-- The entries come from different enqueues of Critical and High jobs, and bear the handles they got
there. -/
structure Drawn (mNextSeq : Nat) (l : List (Entry C)) : Prop where
  seq : ∀ e ∈ l, e.seq < mNextSeq ∧ e.holdHandle = holdingHandle e.seq
  holdable : ∀ e ∈ l, e.job.priority.holdable = true
  distinct : (l.map Entry.holdHandle).Nodup

namespace Drawn

variable {mNextSeq : Nat} {l l' : List (Entry C)} {e : Entry C}

theorem perm (h : Drawn mNextSeq l) (hperm : l'.Perm l) : Drawn mNextSeq l' where
  seq e he := h.seq e (hperm.mem_iff.mp he)
  holdable e he := h.holdable e (hperm.mem_iff.mp he)
  distinct := (hperm.map Entry.holdHandle).nodup_iff.mpr h.distinct

theorem sublist (h : Drawn mNextSeq l) (hsub : l'.Sublist l) : Drawn mNextSeq l' where
  seq e he := h.seq e (hsub.subset he)
  holdable e he := h.holdable e (hsub.subset he)
  distinct := h.distinct.sublist (hsub.map Entry.holdHandle)

/-- The next sequence number is that of no entry. -/
theorem fresh (h : Drawn mNextSeq l) (hfew : mNextSeq < 2 ^ 63) :
    ∀ a ∈ l, a.holdHandle ≠ holdingHandle mNextSeq := by
  intro a ha heq
  obtain ⟨hlt, hhandle⟩ := h.seq a ha
  rw [hhandle] at heq
  exact absurd (holdingHandle_inj (hlt.trans hfew) hfew heq) hlt.ne

theorem cons (h : Drawn mNextSeq l) (hfew : mNextSeq < 2 ^ 63) (hseq : e.seq = mNextSeq)
    (hhandle : e.holdHandle = holdingHandle mNextSeq) (hholdable : e.job.priority.holdable = true) :
    Drawn (mNextSeq + 1) (e :: l) where
  seq := by
    rw [List.forall_mem_cons]
    refine ⟨⟨by omega, by rw [hseq, hhandle]⟩, fun a ha => ?_⟩
    obtain ⟨hlt, heq⟩ := h.seq a ha
    exact ⟨by omega, heq⟩
  holdable := List.forall_mem_cons.mpr ⟨hholdable, h.holdable⟩
  distinct := by
    rw [List.map_cons, List.nodup_cons, hhandle]
    refine ⟨fun hmem => ?_, h.distinct⟩
    obtain ⟨a, ha, heq⟩ := List.mem_map.mp hmem
    exact h.fresh hfew a ha heq

end Drawn

/-- The queue stores what its history holds. -/
structure Refines (mCapacity : Nat) (q : HoldingQueue C) (h : QueueHistory C) : Prop where
  capacity : q.mCapacity = mCapacity
  splits : TwoBands.Splits QueueHistory.isCritical h.held q.mCritical q.mHigh
  size : q.mSize = h.held.length
  size_le : h.held.length ≤ mCapacity
  nextSeq : q.mNextSeq = h.handles.length + 1
  drawn : Drawn q.mNextSeq (h.held ++ h.out)
  minted : ∀ handle ∈ h.handles, ∃ n < q.mNextSeq, handle = holdingHandle n
  handles : h.handles.Nodup

namespace Refines

variable {mCapacity : Nat} {q : HoldingQueue C} {h : QueueHistory C}

theorem stores (hq : Refines mCapacity q h) : q.Stores h.held where
  splits := hq.splits
  distinct := by
    have hdistinct := hq.drawn.distinct
    rw [List.map_append] at hdistinct
    exact (List.nodup_append.mp hdistinct).1

/-- **The history knows every answer.** -/
theorem answers (hq : Refines mCapacity q h) (op : QueueOp C) :
    (q.apply op).1 = h.answer mCapacity op := by
  cases op with
  | enqueue job onDone =>
      simp only [HoldingQueue.apply, HoldingQueue.enqueue, QueueHistory.answer, hq.capacity, hq.size,
        hq.nextSeq]
      split_ifs <;> rfl
  | tryDequeue =>
      simp only [HoldingQueue.apply, QueueHistory.answer, hq.stores.tryDequeue_eq]
      cases TwoBands.next QueueHistory.isCritical h.held <;> rfl
  | remove rawHandle =>
      simp only [HoldingQueue.apply, QueueHistory.answer, hq.stores.remove_eq]
      cases TwoBands.lookup Entry.holdHandle rawHandle h.held <;> rfl
  | cancel rawHandle =>
      simp only [HoldingQueue.apply, HoldingQueue.cancel, QueueHistory.answer, hq.stores.remove_eq]
      cases TwoBands.lookup Entry.holdHandle rawHandle h.held <;> rfl
  | requeue entry =>
      simp only [HoldingQueue.apply, HoldingQueue.requeue, QueueHistory.answer, hq.capacity, hq.size]
      split_ifs <;> rfl

/-- The entry of a handle is taken out; what is out may gain it. -/
theorem take (hq : Refines mCapacity q h) {e : Entry C} (he : e ∈ h.held) (out served : List (Entry C))
    (hdrawn : Drawn q.mNextSeq
      (TwoBands.without Entry.holdHandle e.holdHandle h.held ++ out)) :
    Refines mCapacity (q.dropHandle e.holdHandle)
      { h with
        held := TwoBands.without Entry.holdHandle e.holdHandle h.held
        out := out
        served := served } := by
  have hperm := TwoBands.perm_without he hq.stores.distinct
  have hlength := hperm.length_eq
  rw [List.length_cons] at hlength
  constructor
  · exact hq.capacity
  · exact (hq.stores.dropHandle e.holdHandle).splits
  · show q.mSize - 1 = _
    rw [hq.size, hlength]
    rfl
  · have hle := hq.size_le
    show (TwoBands.without Entry.holdHandle e.holdHandle h.held).length ≤ mCapacity
    omega
  · exact hq.nextSeq
  · exact hdrawn
  · exact hq.minted
  · exact hq.handles

/-- A new entry is stored under a handle of its own. -/
theorem enqueue (hq : Refines mCapacity q h) {job : Job} {onDone : C} {handle : JobHandle}
    {q' : HoldingQueue C} (hjob : job.priority.holdable = true)
    (hfew : h.handles.length + 1 < 2 ^ 63) (hr : q.enqueue job onDone = .ok (handle, q')) :
    Refines mCapacity q' (h.record (.enqueue job onDone) (.handle (.ok handle))) := by
  rw [HoldingQueue.enqueue] at hr
  split at hr
  · cases hr
  · next hroom =>
      have hnext := hq.nextSeq
      have hfew' : q.mNextSeq < 2 ^ 63 := by omega
      obtain ⟨rfl, rfl⟩ := Prod.mk.inj (Except.ok.inj hr)
      have hfresh := hq.drawn.fresh hfew'
      have hheld : ∀ a ∈ h.held, a.holdHandle ≠ holdingHandle q.mNextSeq := by
        intro a ha
        exact hfresh a (List.mem_append_left _ ha)
      have hnew : ({ q with mNextSeq := q.mNextSeq + 1 } : HoldingQueue C).Stores h.held :=
        ⟨hq.splits, hq.stores.distinct⟩
      have hrecord : h.record (.enqueue job onDone) (.handle (.ok (holdingHandle q.mNextSeq))) =
          { h with
            handles := holdingHandle q.mNextSeq :: h.handles
            held := h.held ++ [q.newEntry job onDone] } := by
        rw [QueueHistory.record, HoldingQueue.newEntry, hnext]
      rw [hrecord]
      constructor
      · rw [HoldingQueue.pushBack_capacity]
        exact hq.capacity
      · exact (hnew.pushBack (e := q.newEntry job onDone) hheld).splits
      · rw [HoldingQueue.pushBack_size]
        show q.mSize + 1 = (h.held ++ [_]).length
        rw [hq.size, List.length_append, List.length_singleton]
      · show (h.held ++ [_]).length ≤ mCapacity
        rw [List.length_append, List.length_singleton]
        have hsize := hq.size
        have hcapacity := hq.capacity
        omega
      · rw [HoldingQueue.pushBack_nextSeq]
        show q.mNextSeq + 1 = (_ :: h.handles).length + 1
        rw [hnext, List.length_cons]
      · rw [HoldingQueue.pushBack_nextSeq]
        show Drawn (q.mNextSeq + 1) (h.held ++ [_] ++ h.out)
        rw [List.append_assoc]
        exact (hq.drawn.cons hfew' rfl rfl hjob).perm List.perm_middle
      · rw [HoldingQueue.pushBack_nextSeq]
        refine List.forall_mem_cons.mpr ⟨⟨q.mNextSeq, Nat.lt_succ_self _, rfl⟩, fun old hold => ?_⟩
        obtain ⟨n, hn, heq⟩ := hq.minted old hold
        exact ⟨n, Nat.lt_succ_of_lt hn, heq⟩
      · refine List.nodup_cons.mpr ⟨fun hold => ?_, hq.handles⟩
        obtain ⟨n, hn, heq⟩ := hq.minted _ hold
        exact absurd (holdingHandle_inj hfew' (hn.trans hfew') heq) hn.ne'

/-- An entry that was out is stored again, under its old handle. -/
theorem requeue (hq : Refines mCapacity q h) {e : Entry C} {handle : JobHandle}
    {q' : HoldingQueue C} (he : e ∈ h.out) (hr : q.requeue e = .ok (handle, q')) :
    Refines mCapacity q' (h.record (.requeue e) (.handle (.ok handle))) := by
  have hout : (h.out.map Entry.holdHandle).Nodup :=
    (hq.drawn.sublist (List.sublist_append_right h.held h.out)).distinct
  have hperm : (h.held ++ [e] ++ TwoBands.without Entry.holdHandle e.holdHandle h.out).Perm
      (h.held ++ h.out) := by
    rw [List.append_assoc]
    exact (TwoBands.perm_without he hout).symm.append_left h.held
  have hheld : ∀ a ∈ h.held, a.holdHandle ≠ e.holdHandle := by
    intro a ha heq
    have hdistinct := hq.drawn.distinct
    rw [List.map_append] at hdistinct
    exact (List.nodup_append.mp hdistinct).2.2 _ (List.mem_map_of_mem ha) _
      (List.mem_map_of_mem he) heq
  rw [HoldingQueue.requeue] at hr
  split at hr
  · cases hr
  · next hroom =>
      obtain ⟨rfl, rfl⟩ := Prod.mk.inj (Except.ok.inj hr)
      constructor
      · rw [HoldingQueue.pushBack_capacity]
        exact hq.capacity
      · exact (hq.stores.pushBack hheld).splits
      · rw [HoldingQueue.pushBack_size]
        show q.mSize + 1 = (h.held ++ [e]).length
        rw [hq.size, List.length_append, List.length_singleton]
      · show (h.held ++ [e]).length ≤ mCapacity
        rw [List.length_append, List.length_singleton]
        have hsize := hq.size
        have hcapacity := hq.capacity
        omega
      · rw [HoldingQueue.pushBack_nextSeq]
        exact hq.nextSeq
      · rw [HoldingQueue.pushBack_nextSeq]
        exact hq.drawn.perm hperm
      · rw [HoldingQueue.pushBack_nextSeq]
        exact hq.minted
      · exact hq.handles

/-- **The step lemma.** -/
theorem step (hq : Refines mCapacity q h) {op : QueueOp C} (hok : h.Allowed op)
    (hfew : (h.record op (q.apply op).1).handles.length < 2 ^ 63) :
    Refines mCapacity (q.apply op).2 (h.record op (q.apply op).1) := by
  cases op with
  | enqueue job onDone =>
      rw [HoldingQueue.apply] at hfew ⊢
      cases hr : q.enqueue job onDone with
      | error error => exact hq
      | ok r =>
          rw [hr] at hfew
          exact hq.enqueue hok hfew hr
  | tryDequeue =>
      rw [HoldingQueue.apply, hq.stores.tryDequeue_eq]
      cases hnext : TwoBands.next QueueHistory.isCritical h.held with
      | none => exact hq
      | some e =>
          have he := TwoBands.mem_of_next hnext
          refine hq.take he (e :: h.out) (h.served ++ [e]) (hq.drawn.perm ?_)
          have hperm := (TwoBands.perm_without he hq.stores.distinct).append_right h.out
          exact List.perm_middle.trans hperm.symm
  | remove rawHandle =>
      rw [HoldingQueue.apply, hq.stores.remove_eq]
      cases hfound : TwoBands.lookup Entry.holdHandle rawHandle h.held with
      | none => exact hq
      | some e =>
          obtain ⟨he, rfl⟩ := TwoBands.lookup_some hfound
          exact hq.take he h.out h.served
            (hq.drawn.sublist (TwoBands.without_sublist.append_right h.out))
  | cancel rawHandle =>
      simp only [HoldingQueue.apply, HoldingQueue.cancel, hq.stores.remove_eq]
      cases hfound : TwoBands.lookup Entry.holdHandle rawHandle h.held with
      | none => exact hq
      | some e =>
          obtain ⟨he, rfl⟩ := TwoBands.lookup_some hfound
          exact hq.take he h.out h.served
            (hq.drawn.sublist (TwoBands.without_sublist.append_right h.out))
  | requeue entry =>
      rw [HoldingQueue.apply]
      cases hr : q.requeue entry with
      | error error => exact hq
      | ok r => exact hq.requeue hok hr

end Refines

/-! ## First in, first out

Order is preserved by every operation but `requeue`, which puts an entry behind those that came
after it. -/

/-- What has been served of a priority came before all that is stored of it, in the order in which it
was enqueued. -/
structure Fifo (q : HoldingQueue C) (h : QueueHistory C) : Prop where
  ordered : q.Ordered
  foremost : ∀ e ∈ h.served, q.Foremost e ∧ e.seq < q.mNextSeq
  served : h.served.Pairwise fun a b => a.job.priority = b.job.priority → a.seq < b.seq

namespace HoldingQueue

variable {q q' : HoldingQueue C} {e : Entry C}

theorem Foremost.sublist (h : q.Foremost e) (hcrit : q'.mCritical.Sublist q.mCritical)
    (hhigh : q'.mHigh.Sublist q.mHigh) : q'.Foremost e := by
  intro a ha
  apply h a
  unfold band at ha ⊢
  split at ha
  · next hp =>
      rw [if_pos hp]
      exact hcrit.subset ha
  · next hp =>
      rw [if_neg hp]
      exact hhigh.subset ha

/-- What is enqueued comes after all that was. -/
theorem Foremost.enqueue (h : q.Foremost e) (hseq : e.seq < q.mNextSeq) {job : Job} {onDone : C}
    {handle : JobHandle} (hr : q.enqueue job onDone = .ok (handle, q')) : q'.Foremost e := by
  rw [HoldingQueue.enqueue] at hr
  split at hr
  · cases hr
  · obtain ⟨-, rfl⟩ := Prod.mk.inj (Except.ok.inj hr)
    intro a ha
    rcases mem_band_pushBack ha with hold | rfl
    · exact h a hold
    · exact hseq

end HoldingQueue

namespace Fifo

variable {q q' : HoldingQueue C} {h : QueueHistory C} {e : Entry C}

theorem enqueue (hf : Fifo q h) {job : Job} {onDone : C} {handle : JobHandle}
    (hr : q.enqueue job onDone = .ok (handle, q')) :
    Fifo q' (h.record (.enqueue job onDone) (.handle (.ok handle))) where
  ordered := hf.ordered.enqueue hr
  foremost a ha := by
    obtain ⟨hforemost, hseq⟩ := hf.foremost a ha
    have hnext := (HoldingQueue.enqueue_stored hr).2.2
    exact ⟨hforemost.enqueue hseq hr, by omega⟩
  served := hf.served

theorem dequeue (hf : Fifo q h) (hr : q.tryDequeue = some (e, q')) :
    Fifo q' (h.record .tryDequeue (.entry (some e))) := by
  obtain ⟨hordered, hforemost, hseq, -⟩ := hf.ordered.tryDequeue hr
  obtain ⟨hcrit, hhigh⟩ := HoldingQueue.tryDequeue_sublist hr
  have htaken := HoldingQueue.tryDequeue_taken hr
  have he : e ∈ q.entries := htaken.entries.mem_iff.mpr List.mem_cons_self
  refine ⟨hordered, ?_, ?_⟩
  · intro a ha
    rcases List.mem_append.mp ha with hold | hnew
    · obtain ⟨hold, hlt⟩ := hf.foremost a hold
      exact ⟨hold.sublist hcrit hhigh, by rw [htaken.nextSeq]; exact hlt⟩
    · obtain rfl := List.mem_singleton.mp hnew
      exact ⟨hforemost, hseq⟩
  · refine List.pairwise_append.mpr ⟨hf.served, List.pairwise_singleton _ _, ?_⟩
    intro a ha b hb hpriority
    obtain rfl := List.mem_singleton.mp hb
    apply (hf.foremost a ha).1
    rw [hpriority]
    exact hf.ordered.mem_band he

/-- Taking an entry out of the middle disturbs no order. -/
theorem remove (hf : Fifo q h) {rawHandle : JobHandle} (hr : q.remove rawHandle = some (e, q'))
    (held : List (Entry C)) : Fifo q' { h with held } := by
  obtain ⟨hcrit, hhigh, hnext⟩ := HoldingQueue.remove_sublist hr
  refine ⟨hf.ordered.sublist hcrit hhigh hnext, fun a ha => ?_, hf.served⟩
  obtain ⟨hforemost, hseq⟩ := hf.foremost a ha
  exact ⟨hforemost.sublist hcrit hhigh, hnext ▸ hseq⟩

/-- A run stays first in, first out until an entry is requeued. -/
theorem step (hf : Fifo q h) {op : QueueOp C}
    (hop : (h.record op (q.apply op).1).requeued = false) :
    Fifo (q.apply op).2 (h.record op (q.apply op).1) := by
  cases op with
  | enqueue job onDone =>
      rw [HoldingQueue.apply]
      cases hr : q.enqueue job onDone with
      | error error => exact hf
      | ok r => exact hf.enqueue hr
  | tryDequeue =>
      rw [HoldingQueue.apply]
      cases hr : q.tryDequeue with
      | none => exact hf
      | some r => exact hf.dequeue hr
  | remove rawHandle =>
      rw [HoldingQueue.apply]
      cases hr : q.remove rawHandle with
      | none => exact hf
      | some r => exact hf.remove hr _
  | cancel rawHandle =>
      simp only [HoldingQueue.apply, HoldingQueue.cancel]
      cases hr : q.remove rawHandle with
      | none => exact hf
      | some r => exact hf.remove hr _
  | requeue entry =>
      rw [HoldingQueue.apply] at hop ⊢
      cases hr : q.requeue entry with
      | error error => exact hf
      | ok r =>
          rw [hr] at hop
          cases hop

theorem init (C : Type u) (mCapacity : Nat) : Fifo (holdingQueue C mCapacity).init.1 {} where
  ordered := ⟨.nil, .nil, List.forall_mem_nil _, List.forall_mem_nil _, List.forall_mem_nil _⟩
  foremost := List.forall_mem_nil _
  served := .nil

end Fifo

/-! ## The contract

The books, the answers and the order, in every state of every run, with the number of enqueues below
the wrap. -/

/-- The queue keeps its books, answers as a bounded priority queue with its history does, leaves
itself alone when it fails, and serves Critical before High, each in the order of the enqueues as long
as nothing is requeued. -/
structure QueueContract (mCapacity : Nat) (q : HoldingQueue C) (h : QueueHistory C) : Prop where
  size_eq : q.size = q.entries.length
  size_le : q.size ≤ mCapacity
  handles : h.handles.Nodup
  holding : ∀ handle ∈ h.handles, isHoldingHandle handle = true
  stored : q.entries.Perm h.held
  answers : ∀ op, (q.apply op).1 = h.answer mCapacity op
  unchanged : ∀ op, (q.apply op).1.failed = true → (q.apply op).2 = q
  criticalFirst : ∀ e q', q.tryDequeue = some (e, q') → e.job.priority = .high →
    ∀ a ∈ q.entries, a.job.priority ≠ .critical
  fifo : h.requeued = false →
    h.served.Pairwise fun a b => a.job.priority = b.job.priority → a.seq < b.seq

/-- What the refinement says of a single state. -/
theorem Refines.contract {mCapacity : Nat} {q : HoldingQueue C} {h : QueueHistory C}
    (hq : Refines mCapacity q h) (hf : h.requeued = false → Fifo q h) :
    QueueContract mCapacity q h where
  size_eq := by
    rw [HoldingQueue.size, hq.size, HoldingQueue.entries]
    exact hq.splits.perm.length_eq.symm
  size_le := hq.size.trans_le hq.size_le
  handles := hq.handles
  holding handle hmem := by
    obtain ⟨n, -, rfl⟩ := hq.minted handle hmem
    exact isHoldingHandle_holdingHandle n
  stored := hq.splits.perm
  answers := hq.answers
  unchanged _ hfailed := HoldingQueue.apply_failed hfailed
  criticalFirst e q' hr hhigh a ha hcrit := by
    have hfirst : (q.apply .tryDequeue).1 = .entry (some e) := by rw [HoldingQueue.apply, hr]
    rw [hq.answers] at hfirst
    have hnext : TwoBands.next QueueHistory.isCritical h.held = some e := QueueAnswer.entry.inj hfirst
    have hmem : a ∈ h.held := hq.splits.perm.mem_iff.mp ha
    -- a critical entry is in the band that is served first
    have hband := TwoBands.band_of_next hnext hmem (by simp [QueueHistory.isCritical, hcrit])
    simp [QueueHistory.isCritical, hhigh] at hband
  fifo hnone := (hf hnone).served

/-- A new queue and an empty history. -/
theorem Refines.init (C : Type u) (mCapacity : Nat) :
    Refines mCapacity (holdingQueue C mCapacity).init.1 {} where
  capacity := rfl
  splits := .nil
  size := rfl
  size_le := Nat.zero_le _
  nextSeq := rfl
  drawn := ⟨List.forall_mem_nil _, List.forall_mem_nil _, List.nodup_nil⟩
  minted := List.forall_mem_nil _
  handles := List.nodup_nil

/-- A call forgets no handle. -/
theorem QueueHistory.handles_le (h : QueueHistory C) (op : QueueOp C) (answer : QueueAnswer C) :
    h.handles.length ≤ (h.record op answer).handles.length := by
  unfold record
  split
  · exact Nat.le_succ _
  all_goals exact le_rfl

/-- A history that has seen a `requeue` has seen it for good. -/
theorem QueueHistory.requeued_record (h : QueueHistory C) (op : QueueOp C) (answer : QueueAnswer C)
    (hrequeued : h.requeued = true) : (h.record op answer).requeued = true := by
  unfold record
  split <;> first | exact hrequeued | rfl

/-- **The holding queue is a bounded priority queue.**  In every run in which Critical and High jobs
are enqueued and dequeued entries requeued, and for the first 2⁶³ − 1 enqueues. -/
theorem queue_contract {mCapacity : Nat} {s : HoldingQueue C × QueueHistory C}
    (hs : (holdingQueue C mCapacity).Reach (fun s op => s.2.Allowed op) s)
    (hfew : s.2.handles.length < 2 ^ 63) : QueueContract mCapacity s.1 s.2 := by
  have hinvariant : s.2.handles.length < 2 ^ 63 → Refines mCapacity s.1 s.2 ∧
      (s.2.requeued = false → Fifo s.1 s.2) := by
    clear hfew
    induction hs with
    | init => exact fun _ => ⟨.init C mCapacity, fun _ => .init C mCapacity⟩
    | @step s s' op _ hok h ih =>
        obtain rfl := Option.some.inj h
        intro hfew
        obtain ⟨hrefines, hfifo⟩ := ih ((s.2.handles_le op _).trans_lt hfew)
        refine ⟨hrefines.step hok hfew, fun hnone => ?_⟩
        have hbefore : s.2.requeued = false := by
          rw [← Bool.not_eq_true]
          intro hrequeued
          have hafter := s.2.requeued_record op (s.1.apply op).1 hrequeued
          cases hafter.symm.trans hnone
        exact (hfifo hbefore).step hnone
  obtain ⟨hrefines, hfifo⟩ := hinvariant hfew
  exact hrefines.contract hfifo

/-- Two slots: a third job is turned away, the Critical one is served first and requeued, and the
High one is cancelled. -/
theorem queue_contract_two : ∃ s : HoldingQueue Nat × QueueHistory Nat,
    QueueContract 2 s.1 s.2 ∧ s.2.handles.length = 2 ∧ s.2.served.length = 1 ∧
      s.2.requeued = true ∧ s.2.held.map Entry.onDone = [20] := by
  let critical : Entry Nat :=
    { job := { priority := .critical }, onDone := 20, holdHandle := holdingHandle 2, seq := 2 }
  obtain ⟨s, hs, hend⟩ := (holdingQueue Nat 2).exists_reach (fun s op => s.2.Allowed op)
    [.enqueue { priority := .high } 10, .enqueue { priority := .critical } 20,
      .enqueue { priority := .high } 30, .tryDequeue, .requeue critical, .cancel (holdingHandle 1)]
    (fun s => s.2.handles.length == 2 && s.2.served.length == 1 && s.2.requeued &&
      s.2.held.map Entry.onDone == [20]) (by decide +kernel)
  simp only [Bool.and_eq_true, beq_iff_eq] at hend
  obtain ⟨⟨⟨hhandles, hserved⟩, hrequeued⟩, hheld⟩ := hend
  exact ⟨s, queue_contract hs (by rw [hhandles]; decide), hhandles, hserved, hrequeued, hheld⟩

end FatpBalancer
