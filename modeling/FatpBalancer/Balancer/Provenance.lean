/-
# Where the job values come from

A job is copied from its `submit` call into the holding queue, into the drain thread's hands, into
the closure of its completion callback and into the finalisation.  Each copy is the submitter's job
with its id, its submission time and its retries filled in; what a finalisation has learned from the
node is what the node reported.

`CopiesInv` is the invariant: every copy in the state, wherever it is, comes from the job of the
call it names, and the ids are those of the counter, in the order in which the calls have drawn
them.  `NumberMove` and `CallsMove` say what a step does to the calls and their numbers; all other
copies are passed on by steps that change no field a reader of the job looks at.

`HeldInv` and `Dispatch.Reported` are the two ends of a job's way: an entry of the queue belongs to
the call that returned its handle, and a dispatch passes on what its node has said and nothing else.
-/
import FatpBalancer.Balancer.Accounting
import FatpBalancer.Balancer.Running

universe u

namespace FatpBalancer

open Machine

variable {F : Type u} [FloatOps F] {cfg : BalancerConfig F} {inp : Input} {ev : Event}
  {s s' : State F}

/-! ## Copies of the submitted job

The id and the submission time are filled in once, by the call itself; the retries are counted by
the drain thread in its own copy of the entry. -/

/-- The call has not drawn its job id yet. -/
def SubmitPc.unnumbered : SubmitPc → Bool
  | .entered | .holdId | .select | .assignId _ => true
  | pc => pc.gated

/-- The numbered job a call is about to store or to offer to a node. -/
def SubmitPc.job? : SubmitPc → Option Job
  | .enqueue job | .nodeSubmit _ job => some job
  | _ => none

/-- The id drawn as the `n`-th. -/
def jobIdOf (n : Nat) : JobId := (n + 1) % 2 ^ 32

/-- `job` is a copy of the job submitted by this call. -/
def IsCopy (calls : List Call) (call : CallId) (job : Job) : Prop :=
  ∃ c n, calls[call]? = some c ∧ c.ordinal = some n ∧
    job = { c.job with
      id := jobIdOf n
      submitted := job.submitted
      holdRetries := job.holdRetries }

theorem IsCopy.redated {calls : List Call} {call : CallId} {job : Job} (h : IsCopy calls call job)
    (submitted : TimePoint) (holdRetries : Nat) :
    IsCopy calls call { job with submitted := submitted, holdRetries := holdRetries } := by
  obtain ⟨c, n, hc, hn, hjob⟩ := h
  exact ⟨c, n, hc, hn, by rw [hjob]⟩

theorem SameEntry.isCopy {calls : List Call} {e e' : HeldEntry} (h : SameEntry e e')
    (he : IsCopy calls e.onDone.call e.job) : IsCopy calls e'.onDone.call e'.job := by
  obtain ⟨submitted, holdRetries, hjob⟩ := h.job
  rw [h.onDone, hjob]
  exact he.redated submitted holdRetries

/-- How one step of a call numbers its job. -/
inductive NumberMove (s : State F) (c c' : Call) (s' : State F) : Prop
  | same (hordinal : c'.ordinal = c.ordinal) (hissued : s'.issued = s.issued)
      (hnext : s'.m.mNextJobId = s.m.mNextJobId)
      (hpc : c'.pc.unnumbered = true → c.pc.unnumbered = true) (hjob : c'.pc.job? = none)
  | number (now : TimePoint) (hordinal : c'.ordinal = some s.issued)
      (hissued : s'.issued = s.issued + 1) (hnext : s'.m.mNextJobId = fetchAdd32 s.m.mNextJobId)
      (hpc : c.pc.unnumbered = true) (hpc' : c'.pc.unnumbered = false)
      (hjob : c'.pc.job? = some { c.job with submitted := now, id := s.m.mNextJobId })

/-- A `submit` step draws a number, or leaves the number of its job alone. -/
theorem SubmitMove.numbering {i : CallId} {c : Call} (h : SubmitMove cfg inp s i c s') :
    ∃ c', s'.calls = s.calls.set i c' ∧ c'.job = c.job ∧ NumberMove s c c' s' := by
  cases h with
  | holdId hpc | assignId nodeId hpc =>
      exact ⟨_, rfl, rfl, .number inp.now rfl rfl rfl (by rw [hpc]; rfl) rfl rfl⟩
  | opened hpc hdrain => exact ⟨_, rfl, rfl, .same rfl rfl rfl (fun _ => by rw [hpc]; rfl) rfl⟩
  | advance ac pc hpc hpc' =>
      have hun : c.pc.unnumbered = true := by
        cases hc : c.pc <;> simp_all [SubmitPc.unnumbered, SubmitPc.gated]
      refine ⟨_, rfl, rfl, .same rfl rfl rfl (fun _ => hun) ?_⟩
      rcases hpc' with hpc' | rfl
      · cases pc <;> first | rfl | cases hpc'
      · rfl
  | reserve hpc | selected nodeId hpc =>
      exact ⟨_, rfl, rfl, .same rfl rfl rfl (fun _ => by rw [hpc]; rfl) rfl⟩
  | @register r t r' hpc hr =>
      have hout := hr.sameOutside
      refine ⟨{ c with pc := r'.elim (.returned (.ok r.handle)) .register }, ?_, rfl,
        .same rfl hout.issued hout.nextJobId (fun h => ?_) ?_⟩
      · rw [State.submitAt, hout.calls]
      · cases r' <;> cases h
      · cases r' <;> rfl
  | _ => exact ⟨_, rfl, rfl, .same rfl rfl rfl (fun h => by cases h) rfl⟩

/-- Every copy is one, and ids are drawn in order, one for each call. -/
structure CopiesInv (s : State F) : Prop where
  nextJobId : s.m.mNextJobId = jobIdOf s.issued
  ordinal_lt : ∀ {i : CallId} {c : Call} {n : Nat}, s.calls[i]? = some c → c.ordinal = some n →
    n < s.issued
  ordinal_inj : ∀ {i j : CallId} {c c' : Call} {n : Nat}, s.calls[i]? = some c →
    s.calls[j]? = some c' → c.ordinal = some n → c'.ordinal = some n → i = j
  unnumbered : ∀ {i : CallId} {c : Call}, s.calls[i]? = some c → c.pc.unnumbered = true →
    c.ordinal = none
  calls : ∀ {i : CallId} {c : Call} {job : Job}, s.calls[i]? = some c → c.pc.job? = some job →
    IsCopy s.calls i job
  entries : ∀ e ∈ s.m.mHoldingQueue.entries, IsCopy s.calls e.onDone.call e.job
  drain : ∀ {e : HeldEntry}, s.drain.entry? = some e → IsCopy s.calls e.onDone.call e.job
  dispatches : ∀ {k : Nat} {d : Dispatch}, s.dispatches[k]? = some d →
    IsCopy s.calls d.call d.capturedJob

/-- A new balancer holds no copies. -/
theorem CopiesInv.create (cfg : BalancerConfig F) : CopiesInv (State.create cfg) where
  nextJobId := rfl
  ordinal_lt hc := by cases hc
  ordinal_inj hc := by cases hc
  unnumbered hc := by cases hc
  calls hc := by cases hc
  entries := by simp [State.create, Members.create, HoldingQueue.entries]
  drain he := by cases he
  dispatches hd := by cases hd

/-- What one step does to the calls and their numbers. -/
inductive CallsMove (s s' : State F) : Prop
  | same (hcalls : s'.calls = s.calls) (hissued : s'.issued = s.issued)
      (hnext : s'.m.mNextJobId = s.m.mNextJobId)
  | begin (job : Job) (hcalls : s'.calls = s.calls ++ [{ job := job }])
      (hissued : s'.issued = s.issued) (hnext : s'.m.mNextJobId = s.m.mNextJobId)
  | goOn (i : CallId) (c c' : Call) (hc : s.calls[i]? = some c)
      (hcalls : s'.calls = s.calls.set i c') (hjob : c'.job = c.job) (hm : NumberMove s c c' s')

/-- Only `submit` calls draw numbers. -/
theorem Move.numbering (h : Move cfg ev s s') : CallsMove s s' := by
  cases h with
  | submitCall job => exact .begin job rfl rfl rfl
  | submit i c hc hm =>
      obtain ⟨c', hcalls, hjob, hnum⟩ := hm.numbering
      exact .goOn i c c' hc hcalls hjob hnum
  | node k d hd hm =>
      cases hm with
      | finalize f hside hf =>
          exact .same hf.sameOutside.calls hf.sameOutside.issued hf.sameOutside.nextJobId
      | _ => exact .same rfl rfl rfl
  | cancel c c' t cancels aging hm hrep =>
      cases hm with
      | finalize f hpc hf =>
          exact .same hf.sameOutside.calls hf.sameOutside.issued hf.sameOutside.nextJobId
      | _ => exact .same rfl rfl rfl
  | drain hm =>
      cases hm with
      | dropping f hpc hf =>
          exact .same hf.sameOutside.calls hf.sameOutside.issued hf.sameOutside.nextJobId
      | register r hpc hr =>
          exact .same hr.sameOutside.calls hr.sameOutside.issued hr.sameOutside.nextJobId
      | _ => exact .same rfl rfl rfl
  | aging hm => cases hm <;> exact .same rfl rfl rfl
  | switch k pc hactor hpc hm => cases hm <;> exact .same rfl rfl rfl
  | _ => exact .same rfl rfl rfl

/-- Incrementing the counter gives the next id, its wrap included. -/
theorem jobIdOf_succ (n : Nat) : fetchAdd32 (jobIdOf n) = jobIdOf (n + 1) := by
  unfold fetchAdd32 jobIdOf
  omega

/-- A numbered call keeps its job and its number. -/
theorem CopiesInv.call_next (h : CopiesInv s) (hm : CallsMove s s') {i : CallId} {c : Call}
    {n : Nat} (hc : s.calls[i]? = some c) (hn : c.ordinal = some n) :
    ∃ c', s'.calls[i]? = some c' ∧ c'.job = c.job ∧ c'.ordinal = some n := by
  have hi : i < s.calls.length := (List.getElem?_eq_some_iff.mp hc).1
  cases hm with
  | same hcalls => exact ⟨c, hcalls ▸ hc, rfl, hn⟩
  | begin job hcalls => exact ⟨c, by rw [hcalls, List.getElem?_append_left hi, hc], rfl, hn⟩
  | goOn j b b' hb hcalls hjob hnum =>
      by_cases hij : i = j
      · subst hij
        obtain rfl := Option.some.inj (hb.symm.trans hc)
        refine ⟨b', by rw [hcalls]; exact List.getElem?_set_self hi, hjob, ?_⟩
        cases hnum with
        | same hordinal => rw [hordinal, hn]
        | number now hordinal hissued hnext hpc =>
            rw [h.unnumbered hb hpc] at hn
            cases hn
      · exact ⟨c, by rw [hcalls, List.getElem?_set_ne (Ne.symm hij), hc], rfl, hn⟩

/-- A copy stays one when calls go on, since the job of a call is not touched after it is numbered.
-/
theorem CopiesInv.isCopy_next (h : CopiesInv s) (hm : CallsMove s s') {call : CallId} {job : Job}
    (hcopy : IsCopy s.calls call job) : IsCopy s'.calls call job := by
  obtain ⟨c, n, hc, hn, hjob⟩ := hcopy
  obtain ⟨c', hc', hsame, hn'⟩ := h.call_next hm hc hn
  exact ⟨c', n, hc', hn', by rw [hsame]; exact hjob⟩

/-- A number in use after a step was in use before, or has just been drawn by this call. -/
theorem CallsMove.ordinal_cases (hm : CallsMove s s') {i : CallId} {c' : Call} {n : Nat}
    (hc' : s'.calls[i]? = some c') (hn : c'.ordinal = some n) :
    (∃ c, s.calls[i]? = some c ∧ c.ordinal = some n) ∧ s.issued ≤ s'.issued ∨
      n = s.issued ∧ s'.issued = s.issued + 1 ∧
        ∀ j b, j ≠ i → s'.calls[j]? = some b → s.calls[j]? = some b := by
  cases hm with
  | same hcalls hissued =>
      rw [hcalls] at hc'
      exact .inl ⟨⟨c', hc', hn⟩, hissued.ge⟩
  | begin job hcalls hissued =>
      rw [hcalls] at hc'
      rcases Table.getElem?_append_cases hc' with hc | rfl
      · exact .inl ⟨⟨c', hc, hn⟩, hissued.ge⟩
      · cases hn
  | goOn j b b' hb hcalls hjob hnum =>
      rw [hcalls] at hc'
      rcases Table.getElem?_set_cases hc' with ⟨rfl, rfl⟩ | ⟨-, hc⟩
      · cases hnum with
        | same hordinal hissued => exact .inl ⟨⟨b, hb, hordinal ▸ hn⟩, hissued.ge⟩
        | number now hordinal hissued =>
            obtain rfl := Option.some.inj (hordinal.symm.trans hn)
            refine .inr ⟨rfl, hissued, fun j x hj hx => ?_⟩
            rwa [hcalls, List.getElem?_set_ne (Ne.symm hj)] at hx
      · refine .inl ⟨⟨c', hc, hn⟩, ?_⟩
        cases hnum with
        | same hordinal hissued => exact hissued.ge
        | number now hordinal hissued => exact hissued ▸ Nat.le_succ _

/-- Each new copy is made from an old one, or from the call that has just been numbered. -/
theorem CopiesInv.next (h : CopiesInv s) (hm : Move cfg ev s s') : CopiesInv s' := by
  have hcalls := hm.numbering
  have hcopy : ∀ {call job}, IsCopy s.calls call job → IsCopy s'.calls call job :=
    h.isCopy_next hcalls
  have hcopies : ∀ {i c' job}, s'.calls[i]? = some c' → c'.pc.job? = some job →
      IsCopy s'.calls i job := by
    intro i c' job hc' hjob
    cases hcalls with
    | same heq => exact hcopy (h.calls (heq ▸ hc') hjob)
    | begin job heq =>
        rw [heq] at hc'
        rcases Table.getElem?_append_cases hc' with hc | rfl
        · exact hcopy (h.calls hc hjob)
        · cases hjob
    | goOn j b b' hb heq hsame hnum =>
        have hc := hc'
        rw [heq] at hc
        rcases Table.getElem?_set_cases hc with ⟨rfl, rfl⟩ | ⟨-, hc⟩
        · cases hnum with
          | same _ _ _ _ hnone =>
              rw [hnone] at hjob
              cases hjob
          -- the job has just got the next number
          | number now hordinal _ _ _ _ hsome =>
              obtain rfl := Option.some.inj (hsome.symm.trans hjob)
              exact ⟨c', s.issued, hc', hordinal, by rw [hsame, h.nextJobId]⟩
        · exact hcopy (h.calls hc hjob)
  refine ⟨?_, ?_, ?_, ?_, hcopies, ?_, ?_, ?_⟩
  · cases hcalls with
    | same _ hissued hnext | begin _ _ hissued hnext => rw [hnext, hissued, h.nextJobId]
    | goOn i c c' hc _ _ hnum =>
        cases hnum with
        | same _ hissued hnext => rw [hnext, hissued, h.nextJobId]
        | number now _ hissued hnext => rw [hnext, hissued, h.nextJobId, jobIdOf_succ]
  · intro i c' n hc' hn
    rcases hcalls.ordinal_cases hc' hn with ⟨⟨c, hc, hn⟩, hle⟩ | ⟨rfl, hissued, -⟩
    · exact (h.ordinal_lt hc hn).trans_le hle
    · omega
  · intro i j c c' n hc hc' hn hn'
    rcases hcalls.ordinal_cases hc hn with ⟨⟨b, hb, hbn⟩, -⟩ | ⟨rfl, -, hother⟩
    · rcases hcalls.ordinal_cases hc' hn' with ⟨⟨b', hb', hbn'⟩, -⟩ | ⟨rfl, -, -⟩
      · exact h.ordinal_inj hb hb' hbn hbn'
      · exact absurd (h.ordinal_lt hb hbn) (Nat.lt_irrefl _)
    -- one call a step gets a number, above all the old ones
    · by_contra hne
      have := h.ordinal_lt (hother j c' (Ne.symm hne) hc') hn'
      omega
  · intro i c' hc' hun
    cases hcalls with
    | same heq => exact h.unnumbered (heq ▸ hc') hun
    | begin job heq =>
        rw [heq] at hc'
        rcases Table.getElem?_append_cases hc' with hc | rfl
        · exact h.unnumbered hc hun
        · rfl
    | goOn j b b' hb heq hjob hnum =>
        rw [heq] at hc'
        rcases Table.getElem?_set_cases hc' with ⟨rfl, rfl⟩ | ⟨-, hc⟩
        · cases hnum with
          | same hordinal _ _ hpc => rw [hordinal, h.unnumbered hb (hpc hun)]
          | number now _ _ _ _ hpc' =>
              rw [hpc'] at hun
              cases hun
        · exact h.unnumbered hc hun
  · intro e he
    rcases hm.entries_cases he with he | ⟨i, c, job, hc, hpc, rfl, -⟩ | hpc
    · exact hcopy (h.entries e he)
    · exact hcopy (h.calls hc (by rw [hpc]; rfl))
    · exact hcopy (h.drain (by rw [hpc]; rfl))
  · intro e he
    rcases hm.drain_entry he with ⟨e₀, he₀, hsame⟩ | ⟨-, he⟩
    · exact hcopy (hsame.isCopy (h.drain he₀))
    · exact hcopy (h.entries e he)
  · intro k d' hd'
    rcases hm.dispatches.1 k d' hd' with ⟨d, hd, hmove⟩ | ⟨hnone, -⟩
    · obtain ⟨hcall, hjob, -⟩ := hmove.same
      rw [hcall, hjob]
      exact hcopy (h.dispatches hd)
    · obtain ⟨-, ⟨i, c, job, hc, hpc, hacc⟩ | ⟨entry, hpc, hacc⟩⟩ := hm.fresh hnone hd'
      · rw [hacc.call, hacc.capturedJob]
        exact hcopy (h.calls hc (by rw [hpc]; rfl))
      · rw [hacc.call, hacc.capturedJob]
        exact hcopy (h.drain (by rw [hpc]; rfl))

/-- In every reachable state, under any assumption on the steps. -/
theorem copiesInv_reach {ok : State F → Event → Prop} (hs : (balancer cfg).Reach ok s) :
    CopiesInv s :=
  hs.invariant (.create cfg) fun _ _ h _ hstep => h.next (step_move hstep)

/-! ## Held entries and their calls

The handle of a held job is minted by the queue and returned by the call that stored it, so that the
submitter can name the entry for as long as it is there. -/

/-- The call of this entry holds its job under the entry's handle. -/
def HeldAs (calls : List Call) (e : HeldEntry) : Prop :=
  ∃ c, calls[e.onDone.call]? = some c ∧ c.pc.heldHandle? = some e.holdHandle

/-- A call that has stored its job keeps the handle it returns. -/
theorem HeldAs.next (hm : Move cfg ev s s') {e : HeldEntry} (h : HeldAs s.calls e) :
    HeldAs s'.calls e := by
  obtain ⟨c, hc, hheld⟩ := h
  obtain ⟨c', hc', -, hkeep⟩ := hm.call_next hc
  exact ⟨c', hc', hkeep _ hheld⟩

/-- Every entry belongs to the call that stored it: in the queue, and in the drain thread's hands.
-/
structure HeldInv (s : State F) : Prop where
  entries : ∀ e ∈ s.m.mHoldingQueue.entries, HeldAs s.calls e
  drain : ∀ {e : HeldEntry}, s.drain.entry? = some e → HeldAs s.calls e

/-- Entries are made by `submit`, and moved by everyone else. -/
theorem HeldInv.next (h : HeldInv s) (hm : Move cfg ev s s') : HeldInv s' where
  entries e he := by
    rcases hm.entries_cases he with he | ⟨i, c, job, -, -, rfl, hc'⟩ | hpc
    · exact (h.entries e he).next hm
    · exact ⟨_, hc', rfl⟩
    · exact (h.drain (by rw [hpc]; rfl)).next hm
  drain {e} he := by
    rcases hm.drain_entry he with ⟨e₀, he₀, hsame⟩ | ⟨-, he⟩
    · obtain ⟨c, hc, hheld⟩ := (h.drain he₀).next hm
      exact ⟨c, hsame.onDone ▸ hc, hsame.holdHandle ▸ hheld⟩
    · exact (h.entries e he).next hm

/-- In every reachable state, under any assumption on the steps. -/
theorem heldInv_reach {ok : State F → Event → Prop} (hs : (balancer cfg).Reach ok s) :
    HeldInv s :=
  hs.invariant ⟨by simp [balancer, State.create, Members.create, HoldingQueue.entries],
    fun he => by cases he⟩ fun _ _ h _ hstep => h.next (step_move hstep)

/-! ## What a dispatch has heard from its node

The callback's job and result are the report of the task; what waits in the registration state is
the same job, with the same result. -/

/-- The reports a dispatch passes on are the ones its node has made. -/
structure Dispatch.Reported (d : Dispatch) : Prop where
  live : d.side = .live → d.report = none
  cancelled : d.side = .cancelled → d.report = none
  finished : ∀ completed succeeded, d.side = .finished completed succeeded →
    d.report = some (completed, succeeded)
  early : ∀ job, d.regState.earlyCompletedJob = some job →
    ∃ completed, d.report = some (completed, d.regState.earlySucceeded) ∧
      job = mergeCompleted d.capturedJob completed

/-- In every reachable state, of every dispatch. -/
theorem dispatch_reported {ok : State F → Event → Prop} (hs : (balancer cfg).Reach ok s) {k : Nat}
    {d : Dispatch} (hd : s.dispatches[k]? = some d) : d.Reported := by
  refine dispatch_invariant (P := fun _ d => d.Reported) ?_ ?_ hs hd
  · intro k d h
    refine ⟨fun _ => h.report, fun _ => h.report, fun _ _ hside => ?_, fun job hjob => ?_⟩
    · rw [h.side] at hside
      cases hside
    · rw [h.regState] at hjob
      cases hjob
  · intro k d d' hm h
    cases hm with
    | flags d' hcore =>
        have hsame := Dispatch.sameCore hcore
        refine ⟨fun hl => ?_, fun hc => ?_, fun c b hf => ?_, fun job hj => ?_⟩
        · rw [hsame.report, h.live (hsame.side ▸ hl)]
        · rw [hsame.report, h.cancelled (hsame.side ▸ hc)]
        · rw [hsame.report, h.finished c b (hsame.side ▸ hf)]
        · rw [hsame.report, hsame.regState, hsame.capturedJob]
          exact h.early job (hsame.regState ▸ hj)
    | finish completed succeeded hside =>
        refine ⟨nofun, nofun, fun c b hf => by cases hf; rfl, fun job hj => ?_⟩
        obtain ⟨c, hc, -⟩ := h.early job hj
        rw [h.live hside] at hc
        cases hc
    -- what waits in the registration state is the report of the node
    | early completed succeeded hside hpublished =>
        refine ⟨nofun, nofun, nofun, fun job hj => ?_⟩
        cases hj
        exact ⟨completed, h.finished completed succeeded hside, rfl⟩
    | enter completed succeeded hside hpublished => exact ⟨nofun, nofun, nofun, h.early⟩
    | finalize f f' d' hside hcore =>
        have hsame := Dispatch.sameCore hcore
        refine ⟨fun hl => ?_, fun hc => ?_, fun c b hf => ?_, fun job hj => ?_⟩
        · cases f' <;> cases hl
        · cases f' <;> cases hc
        · cases f' <;> cases hf
        · have := h.early job (hsame.regState ▸ hj)
          rwa [← hsame.report, ← hsame.regState, ← hsame.capturedJob] at this
    | cancel hside => exact ⟨nofun, fun _ => h.live hside, nofun, h.early⟩
    | publish handle => exact ⟨h.live, h.cancelled, h.finished, nofun⟩

end FatpBalancer
