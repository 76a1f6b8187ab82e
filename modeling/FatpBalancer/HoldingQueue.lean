/-
# The holding queue

The bounded store for Critical and High jobs that arrive while the cluster is saturated: two lists,
one per priority, each served from the front.  The queue is generic in the type of the completion
callback it keeps with a job.

`mNextSeq` counts the enqueues without wrapping; the 64-bit counter of the source is its residue,
and an entry keeps the number it drew as `seq`, a history field that no operation reads.

Each operation comes with two kinds of lemma: when it succeeds, and what it then does to the stored
entries.  `Taken` and `Stored` are the two shapes of an effect, and the only thing the balancer's
invariants look at; `Ordered` adds the order within a band, for the statements about fairness.
-/
import FatpBalancer.Job

universe u

namespace FatpBalancer

/-- The bit that marks a raw handle as a holding handle. -/
def kHoldingHandleBit : Nat := 2 ^ 63

/-- The high bit is set. -/
def isHoldingHandle (raw : JobHandle) : Bool := raw &&& kHoldingHandleBit ≠ 0

/-- The raw handle `enqueue` mints from its sequence number. -/
def holdingHandle (seq : Nat) : JobHandle := kHoldingHandleBit ||| (seq % 2 ^ 64)

/-- A minted handle is recognised as one. -/
theorem isHoldingHandle_holdingHandle (seq : Nat) : isHoldingHandle (holdingHandle seq) = true := by
  have hbit : (holdingHandle seq &&& kHoldingHandleBit).testBit 63 = true := by
    have h63 : kHoldingHandleBit.testBit 63 = true := Nat.testBit_two_pow_self
    simp [holdingHandle, Nat.testBit_and, Nat.testBit_or, h63]
  have hne : holdingHandle seq &&& kHoldingHandleBit ≠ 0 := by
    intro h
    rw [h] at hbit
    simp at hbit
  simpa [isHoldingHandle] using hne

/-- `HoldingQueue::Entry`: a held job with its callback and its raw handle. -/
structure Entry (C : Type u) where
  job : Job
  onDone : C
  holdHandle : JobHandle
  /-- history: the enqueue this entry came from -/
  seq : Nat
  deriving DecidableEq

/-- The two lists, the size the class keeps beside them, its capacity and its counter. -/
structure HoldingQueue (C : Type u) where
  mCapacity : Nat
  mSize : Nat := 0
  mCritical : List (Entry C) := []
  mHigh : List (Entry C) := []
  mNextSeq : Nat := 1

namespace HoldingQueue

variable {C : Type u}

/-- Put an entry at the back of the list of its priority. -/
def pushBack (q : HoldingQueue C) (entry : Entry C) : HoldingQueue C :=
  if entry.job.priority = .critical then
    { q with mCritical := q.mCritical ++ [entry], mSize := q.mSize + 1 }
  else { q with mHigh := q.mHigh ++ [entry], mSize := q.mSize + 1 }

/-- `enqueue`: draws a sequence number, mints the handle and stores the job. -/
def enqueue (q : HoldingQueue C) (job : Job) (onDone : C) :
    Except SubmitError (JobHandle × HoldingQueue C) :=
  if q.mCapacity ≤ q.mSize then .error .holdingQueueFull
  else
    let rawHandle := holdingHandle q.mNextSeq
    let entry : Entry C := { job, onDone, holdHandle := rawHandle, seq := q.mNextSeq }
    .ok (rawHandle, { q with mNextSeq := q.mNextSeq + 1 }.pushBack entry)

/-- `tryDequeue`: the front of the critical list, else the front of the high list. -/
def tryDequeue (q : HoldingQueue C) : Option (Entry C × HoldingQueue C) :=
  match q.mCritical with
  | e :: rest => some (e, { q with mCritical := rest, mSize := q.mSize - 1 })
  | [] =>
    match q.mHigh with
    | e :: rest => some (e, { q with mHigh := rest, mSize := q.mSize - 1 })
    | [] => none

/-- `extractFrom`: take out the first entry with this handle. -/
def extractFrom (rawHandle : JobHandle) : List (Entry C) → Option (Entry C × List (Entry C))
  | [] => none
  | e :: rest =>
      if e.holdHandle = rawHandle then some (e, rest)
      else (extractFrom rawHandle rest).map fun r => (r.1, e :: r.2)

/-- `remove`: by handle, the critical list first. -/
def remove (q : HoldingQueue C) (rawHandle : JobHandle) : Option (Entry C × HoldingQueue C) :=
  match extractFrom rawHandle q.mCritical with
  | some (e, rest) => some (e, { q with mCritical := rest, mSize := q.mSize - 1 })
  | none =>
    match extractFrom rawHandle q.mHigh with
    | some (e, rest) => some (e, { q with mHigh := rest, mSize := q.mSize - 1 })
    | none => none

/-- `requeue`: put back an entry that was dequeued, under its old handle. -/
def requeue (q : HoldingQueue C) (entry : Entry C) :
    Except SubmitError (JobHandle × HoldingQueue C) :=
  if q.mCapacity ≤ q.mSize then .error .holdingQueueFull
  else .ok (entry.holdHandle, q.pushBack entry)

/-! ## The stored entries

The two lists read as one, in the order in which they are served. -/

/-- All stored entries, in the order `tryDequeue` would serve them. -/
def entries (q : HoldingQueue C) : List (Entry C) := q.mCritical ++ q.mHigh

/-- The list an entry of this priority is stored in. -/
def band (q : HoldingQueue C) (priority : Priority) : List (Entry C) :=
  if priority = .critical then q.mCritical else q.mHigh

/-- The size counter is the number of stored entries. -/
def Sized (q : HoldingQueue C) : Prop := q.mSize = q.entries.length

/-- Putting an entry in adds it, somewhere. -/
theorem entries_pushBack_perm (q : HoldingQueue C) (entry : Entry C) :
    (q.pushBack entry).entries.Perm (entry :: q.entries) := by
  unfold pushBack entries
  split
  · rw [List.append_assoc]
    exact List.perm_middle
  · rw [← List.append_assoc]
    exact List.perm_append_singleton entry _

/-- Taking an entry out leaves the others. -/
theorem extractFrom_perm {rawHandle : JobHandle} {l rest : List (Entry C)} {e : Entry C}
    (h : extractFrom rawHandle l = some (e, rest)) :
    l.Perm (e :: rest) ∧ e.holdHandle = rawHandle := by
  induction l generalizing e rest with
  | nil => cases h
  | cons a l ih =>
      rw [extractFrom] at h
      split at h
      · next heq =>
          cases h
          exact ⟨.refl _, heq⟩
      · obtain ⟨⟨e', rest'⟩, h', hpair⟩ := Option.map_eq_some_iff.mp h
        obtain ⟨rfl, rfl⟩ := Prod.mk.inj hpair
        obtain ⟨hperm, hhandle⟩ := ih h'
        exact ⟨(hperm.cons a).trans (.swap _ _ _), hhandle⟩

/-- No entry has the handle. -/
theorem extractFrom_eq_none {rawHandle : JobHandle} {l : List (Entry C)} :
    extractFrom rawHandle l = none ↔ ∀ e ∈ l, e.holdHandle ≠ rawHandle := by
  induction l with
  | nil => simp [extractFrom]
  | cons a l ih =>
      rw [extractFrom]
      split
      · next heq => simp [heq]
      · next hne => simp [ih, hne]

/-! ## What each operation does to the stored entries

The size counter moves with the number of entries, since every operation that changes one changes
the other. -/

/-- A queue that lost exactly one entry. -/
structure Taken (q : HoldingQueue C) (e : Entry C) (q' : HoldingQueue C) : Prop where
  entries : q.entries.Perm (e :: q'.entries)
  size : q'.mSize = q.mSize - 1
  capacity : q'.mCapacity = q.mCapacity
  nextSeq : q'.mNextSeq = q.mNextSeq

/-- The counter follows. -/
theorem Taken.sized {q q' : HoldingQueue C} {e : Entry C} (h : Taken q e q') (hq : q.Sized) :
    q'.Sized := by
  have hlen := h.entries.length_eq
  rw [Sized, h.size, hq, hlen]
  rfl

/-- `tryDequeue` takes an entry out. -/
theorem tryDequeue_taken {q q' : HoldingQueue C} {e : Entry C}
    (h : q.tryDequeue = some (e, q')) : Taken q e q' := by
  unfold tryDequeue at h
  split at h
  · next hcrit =>
      cases h
      exact ⟨by simp [HoldingQueue.entries, hcrit], rfl, rfl, rfl⟩
  · next hcrit =>
      split at h
      · next hhigh =>
          cases h
          exact ⟨by simp [HoldingQueue.entries, hcrit, hhigh], rfl, rfl, rfl⟩
      · cases h

/-- `tryDequeue` serves the first of the entries. -/
theorem tryDequeue_entries {q q' : HoldingQueue C} {e : Entry C}
    (h : q.tryDequeue = some (e, q')) : q.entries = e :: q'.entries := by
  unfold tryDequeue at h
  unfold entries
  split at h
  · next hcrit =>
      cases h
      rw [hcrit]
      rfl
  · next hcrit =>
      split at h
      · next hhigh =>
          cases h
          rw [hcrit, hhigh]
          rfl
      · cases h

/-- Unless there is none. -/
theorem tryDequeue_eq_none {q : HoldingQueue C} : q.tryDequeue = none ↔ q.entries = [] := by
  unfold tryDequeue entries
  cases q.mCritical with
  | cons e rest => simp
  | nil => cases q.mHigh <;> simp

/-- `remove` takes the entry of its handle out. -/
theorem remove_taken {q q' : HoldingQueue C} {e : Entry C} {rawHandle : JobHandle}
    (h : q.remove rawHandle = some (e, q')) : Taken q e q' ∧ e.holdHandle = rawHandle := by
  unfold remove at h
  split at h
  · next hcrit =>
      cases h
      obtain ⟨hperm, hhandle⟩ := extractFrom_perm hcrit
      exact ⟨⟨hperm.append_right _, rfl, rfl, rfl⟩, hhandle⟩
  · split at h
    · next hhigh =>
        cases h
        obtain ⟨hperm, hhandle⟩ := extractFrom_perm hhigh
        exact ⟨⟨(hperm.append_left _).trans List.perm_middle, rfl, rfl, rfl⟩, hhandle⟩
    · cases h

/-- Unless there is none. -/
theorem remove_eq_none {q : HoldingQueue C} {rawHandle : JobHandle} :
    q.remove rawHandle = none ↔ ∀ e ∈ q.entries, e.holdHandle ≠ rawHandle := by
  unfold remove entries
  simp only [List.forall_mem_append, ← extractFrom_eq_none]
  split
  · next h => simp [h]
  · next h =>
      split
      · next h' => simp [h']
      · next h' => simp [h, h']

/-- A queue that gained exactly one entry, at the back of its priority. -/
structure Stored (q : HoldingQueue C) (e : Entry C) (q' : HoldingQueue C) : Prop where
  entries : q'.entries.Perm (e :: q.entries)
  size : q'.mSize = q.mSize + 1
  capacity : q'.mCapacity = q.mCapacity
  room : q.mSize < q.mCapacity

/-- The counter follows. -/
theorem Stored.sized {q q' : HoldingQueue C} {e : Entry C} (h : Stored q e q') (hq : q.Sized) :
    q'.Sized := by
  rw [Sized, h.size, hq, h.entries.length_eq]
  rfl

/-- Putting an entry in makes the queue larger by one. -/
theorem pushBack_size (q : HoldingQueue C) (e : Entry C) : (q.pushBack e).mSize = q.mSize + 1 := by
  unfold pushBack
  split <;> rfl

theorem pushBack_capacity (q : HoldingQueue C) (e : Entry C) :
    (q.pushBack e).mCapacity = q.mCapacity := by
  unfold pushBack
  split <;> rfl

theorem pushBack_nextSeq (q : HoldingQueue C) (e : Entry C) :
    (q.pushBack e).mNextSeq = q.mNextSeq := by
  unfold pushBack
  split <;> rfl

/-- `requeue` puts its entry in. -/
theorem requeue_stored {q q' : HoldingQueue C} {e : Entry C} {handle : JobHandle}
    (h : q.requeue e = .ok (handle, q')) : Stored q e q' ∧ handle = e.holdHandle := by
  unfold requeue at h
  split at h
  · cases h
  · cases h
    exact ⟨⟨entries_pushBack_perm q e, pushBack_size q e, pushBack_capacity q e, by omega⟩, rfl⟩

/-- When there is room for it. -/
theorem requeue_ok {q : HoldingQueue C} (e : Entry C) (h : q.mSize < q.mCapacity) :
    q.requeue e = .ok (e.holdHandle, q.pushBack e) :=
  if_neg (Nat.not_le.mpr h)

/-- The entry a successful `enqueue` stores. -/
def newEntry (q : HoldingQueue C) (job : Job) (onDone : C) : Entry C where
  job := job
  onDone := onDone
  holdHandle := holdingHandle q.mNextSeq
  seq := q.mNextSeq

/-- `enqueue` succeeds when there is room. -/
theorem enqueue_ok {q : HoldingQueue C} (job : Job) (onDone : C) (h : q.mSize < q.mCapacity) :
    q.enqueue job onDone = .ok (holdingHandle q.mNextSeq,
      { q with mNextSeq := q.mNextSeq + 1 }.pushBack (q.newEntry job onDone)) :=
  if_neg (Nat.not_le.mpr h)

/-- And puts a new entry in. -/
theorem enqueue_stored {q q' : HoldingQueue C} {job : Job} {onDone : C} {handle : JobHandle}
    (h : q.enqueue job onDone = .ok (handle, q')) :
    Stored q (q.newEntry job onDone) q' ∧ handle = holdingHandle q.mNextSeq ∧
      q'.mNextSeq = q.mNextSeq + 1 := by
  unfold enqueue at h
  split at h
  · cases h
  · cases h
    refine ⟨⟨?_, ?_, ?_, by omega⟩, rfl, ?_⟩
    · exact entries_pushBack_perm _ _
    · exact pushBack_size _ _
    · exact pushBack_capacity _ _
    · exact pushBack_nextSeq _ _

/-! ## The order of the entries

Sequence numbers grow along each list, and only `requeue` can disturb that. -/

/-- Each list holds the entries of its own priority, in the order of their enqueues. -/
structure Ordered (q : HoldingQueue C) : Prop where
  critical : q.mCritical.Pairwise fun a b => a.seq < b.seq
  high : q.mHigh.Pairwise fun a b => a.seq < b.seq
  criticalBand : ∀ e ∈ q.mCritical, e.job.priority = .critical
  highBand : ∀ e ∈ q.mHigh, e.job.priority ≠ .critical
  issued : ∀ e ∈ q.entries, e.seq < q.mNextSeq

/-- This entry was enqueued before all stored entries of its priority. -/
def Foremost (q : HoldingQueue C) (e : Entry C) : Prop :=
  ∀ a ∈ q.band e.job.priority, e.seq < a.seq

/-- What is in a band is in the queue. -/
theorem mem_entries_of_mem_band {q : HoldingQueue C} {p : Priority} {e : Entry C}
    (h : e ∈ q.band p) : e ∈ q.entries := by
  unfold band at h
  split at h
  · exact List.mem_append_left _ h
  · exact List.mem_append_right _ h

/-- In an ordered queue an entry is stored in the list of its priority. -/
theorem Ordered.mem_band {q : HoldingQueue C} (h : q.Ordered) {e : Entry C} (he : e ∈ q.entries) :
    e ∈ q.band e.job.priority := by
  unfold band
  rcases List.mem_append.mp he with he | he
  · rwa [if_pos (h.criticalBand e he)]
  · rwa [if_neg (h.highBand e he)]

/-- An entry is put into the band of its priority. -/
theorem mem_band_pushBack {q : HoldingQueue C} {p : Priority} {e a : Entry C}
    (h : a ∈ (q.pushBack e).band p) : a ∈ q.band p ∨ a = e := by
  unfold band pushBack at h
  unfold band
  split at h <;> split at h <;> simp_all

/-- A later entry may go to the end. -/
theorem Ordered.pushBack {q : HoldingQueue C} (h : q.Ordered) {e : Entry C}
    (hlast : ∀ a ∈ q.band e.job.priority, a.seq < e.seq) (hissued : e.seq < q.mNextSeq) :
    (q.pushBack e).Ordered := by
  have hentries : ∀ a ∈ (q.pushBack e).entries, a.seq < (q.pushBack e).mNextSeq := by
    intro a ha
    rw [pushBack_nextSeq]
    rcases List.mem_cons.mp ((entries_pushBack_perm q e).mem_iff.mp ha) with rfl | ha
    · exact hissued
    · exact h.issued a ha
  unfold HoldingQueue.pushBack at hentries ⊢
  unfold band at hlast
  -- the entry goes to the end of one band; the other one stays as it is
  split at hlast
  · next hcrit =>
      rw [if_pos hcrit] at hentries ⊢
      refine ⟨List.pairwise_append.mpr ⟨h.critical, List.pairwise_singleton _ _, ?_⟩, h.high, ?_,
        h.highBand, hentries⟩
      · simpa using hlast
      · simpa [or_imp, forall_and, hcrit] using h.criticalBand
  · next hcrit =>
      rw [if_neg hcrit] at hentries ⊢
      refine ⟨h.critical, List.pairwise_append.mpr ⟨h.high, List.pairwise_singleton _ _, ?_⟩,
        h.criticalBand, ?_, hentries⟩
      · simpa using hlast
      · simpa [or_imp, forall_and, hcrit] using h.highBand

/-- A new entry is later than all others. -/
theorem Ordered.enqueue {q q' : HoldingQueue C} (h : q.Ordered) {job : Job} {onDone : C}
    {handle : JobHandle} (hq : q.enqueue job onDone = .ok (handle, q')) : q'.Ordered := by
  unfold HoldingQueue.enqueue at hq
  split at hq
  · cases hq
  · cases hq
    have hnext : ({ q with mNextSeq := q.mNextSeq + 1 } : HoldingQueue C).Ordered :=
      ⟨h.critical, h.high, h.criticalBand, h.highBand,
        fun e he => Nat.lt_succ_of_lt (h.issued e he)⟩
    exact hnext.pushBack (fun a ha => h.issued a (mem_entries_of_mem_band ha)) (Nat.lt_succ_self _)

/-- Putting an entry back keeps the order when no entry of its priority is stored. -/
theorem Ordered.requeue {q q' : HoldingQueue C} (h : q.Ordered) {e : Entry C}
    (hempty : q.band e.job.priority = []) (hissued : e.seq < q.mNextSeq) {handle : JobHandle}
    (hq : q.requeue e = .ok (handle, q')) : q'.Ordered := by
  unfold HoldingQueue.requeue at hq
  split at hq
  · cases hq
  · cases hq
    exact h.pushBack (by simp [hempty]) hissued

/-- Taking an entry out keeps the order of the rest. -/
theorem extractFrom_sublist {rawHandle : JobHandle} {l rest : List (Entry C)} {e : Entry C}
    (h : extractFrom rawHandle l = some (e, rest)) : rest.Sublist l := by
  induction l generalizing e rest with
  | nil => cases h
  | cons a l ih =>
      rw [extractFrom] at h
      split at h
      · cases h
        exact List.sublist_cons_self _ _
      · obtain ⟨⟨e', rest'⟩, h', hpair⟩ := Option.map_eq_some_iff.mp h
        obtain ⟨rfl, rfl⟩ := Prod.mk.inj hpair
        exact (ih h').cons_cons a

/-- Losing entries keeps the order. -/
theorem Ordered.sublist {q q' : HoldingQueue C} (h : q.Ordered)
    (hcrit : q'.mCritical.Sublist q.mCritical) (hhigh : q'.mHigh.Sublist q.mHigh)
    (hnext : q'.mNextSeq = q.mNextSeq) : q'.Ordered where
  critical := h.critical.sublist hcrit
  high := h.high.sublist hhigh
  criticalBand e he := h.criticalBand e (hcrit.subset he)
  highBand e he := h.highBand e (hhigh.subset he)
  issued e he := by
    rw [hnext]
    exact h.issued e ((hcrit.append hhigh).subset he)

/-- So does `remove`. -/
theorem remove_sublist {q q' : HoldingQueue C} {rawHandle : JobHandle} {e : Entry C}
    (h : q.remove rawHandle = some (e, q')) :
    q'.mCritical.Sublist q.mCritical ∧ q'.mHigh.Sublist q.mHigh ∧ q'.mNextSeq = q.mNextSeq := by
  unfold remove at h
  split at h
  · next hcrit =>
      cases h
      exact ⟨extractFrom_sublist hcrit, .refl _, rfl⟩
  · split at h
    · next hhigh =>
        cases h
        exact ⟨.refl _, extractFrom_sublist hhigh, rfl⟩
    · cases h

/-- And so does `tryDequeue`. -/
theorem tryDequeue_sublist {q q' : HoldingQueue C} {e : Entry C}
    (h : q.tryDequeue = some (e, q')) :
    q'.mCritical.Sublist q.mCritical ∧ q'.mHigh.Sublist q.mHigh := by
  unfold tryDequeue at h
  split at h
  · next hcrit =>
      cases h
      exact ⟨by simp [hcrit], .refl _⟩
  · split at h
    · next hhigh =>
        cases h
        exact ⟨.refl _, by simp [hhigh]⟩
    · cases h

/-- What is dequeued is the foremost of its priority, and a high entry only when no critical one is
stored. -/
theorem Ordered.tryDequeue {q q' : HoldingQueue C} (h : q.Ordered) {e : Entry C}
    (hq : q.tryDequeue = some (e, q')) :
    q'.Ordered ∧ q'.Foremost e ∧ e.seq < q'.mNextSeq ∧
      (e.job.priority ≠ .critical → q.band .critical = []) := by
  have hissued : e.seq < q.mNextSeq :=
    h.issued e ((tryDequeue_taken hq).entries.mem_iff.mpr List.mem_cons_self)
  unfold HoldingQueue.tryDequeue at hq
  split at hq
  -- the front of the critical band, or of the high one when there is no critical job
  · next rest hcrit =>
      cases hq
      have hp : e.job.priority = .critical := h.criticalBand e (by simp [hcrit])
      refine ⟨h.sublist (by simp [hcrit]) (.refl _) rfl, fun a ha => ?_, hissued,
        fun hne => absurd hp hne⟩
      rw [band, if_pos hp] at ha
      have hsorted := h.critical
      rw [hcrit] at hsorted
      exact (List.pairwise_cons.mp hsorted).1 a ha
  · next hcrit =>
      split at hq
      · next rest hhigh =>
          cases hq
          have hp : e.job.priority ≠ .critical := h.highBand e (by simp [hhigh])
          refine ⟨h.sublist (.refl _) (by simp [hhigh]) rfl, fun a ha => ?_, hissued,
            fun _ => by simp [band, hcrit]⟩
          rw [band, if_neg hp] at ha
          have hsorted := h.high
          rw [hhigh] at hsorted
          exact (List.pairwise_cons.mp hsorted).1 a ha
      · cases hq

end HoldingQueue

end FatpBalancer
