/-
# The rates of the admission gate

A gate that is asked at non-decreasing times, its modes toggled and its holding slots given back in
between, lets at most one capacity of jobs through plus what the window refills.  The four buckets
are consulted in turn, so that a token may be spent on a call that a later layer rejects: `Consults`
is all that the argument needs to know of a call, bucket by bucket.

`Paid` is the invariant of one bucket and one window: what has passed through it in the window, less
what the bucket held at the window's beginning, was refilled since.  `Consults` abstracts a call
from the layers it went through: it leaves the bucket alone, or takes a token and is perhaps let
through.  `evaluate_consults` shows that each of the four buckets sees every call in this way,
whichever layer rejects it.

The clock is read twice in a call, once under the lock of the global bucket and once for the
priority layer, so a call has two readings and a bucket sees one of them.
-/
import FatpBalancer.AdmissionControl
import FatpBalancer.Lib.Allowance
import FatpBalancer.Lib.Machine

namespace FatpBalancer

namespace AdmissionControl

/-! ## The four rate limits -/

inductive RateLimit
  | global
  | normal
  | low
  | bulk
  deriving DecidableEq, Repr

/-- The jobs that pass through the limit's bucket. -/
def RateLimit.covers : RateLimit → Priority → Bool
  | .global, _ => true
  | .normal, p => p = .normal
  | .low, p => p = .low
  | .bulk, p => p = .bulk

/-- The configured rate, in jobs a second. -/
def RateLimit.jps (config : AdmissionConfig) : RateLimit → Nat
  | .global => config.globalRateLimitJps
  | .normal => config.normalRateLimitJps
  | .low => config.lowRateLimitJps
  | .bulk => config.bulkRateLimitJps

/-- Which of the two clock readings of an `evaluate` call the bucket sees. -/
def RateLimit.reading (now later : TimePoint) : RateLimit → TimePoint
  | .global => now
  | .normal | .low | .bulk => later

def bucket (ac : AdmissionControl) : RateLimit → TokenBucket
  | .global => ac.mGlobalBucket
  | .normal => ac.mNormalBucket
  | .low => ac.mLowBucket
  | .bulk => ac.mBulkBucket

/-! ## The gate as a machine

The events are the calls of `evaluate` and what other threads do to the gate between them.  A run is
a list of them, at times that do not go back. -/

/-- A finished `evaluate` call. -/
structure Evaluation where
  now : TimePoint
  later : TimePoint
  priority : Priority
  /-- the modes the call met -/
  strict : Bool
  shedBulk : Bool
  verdict : Option SubmitError

inductive GateEvent
  | evaluate (now later : TimePoint) (priority : Priority) (clusterSaturated : Bool)
  | setShedBulk (enabled : Bool)
  | setAdmissionStrict (enabled : Bool)
  | releaseFromHoldingQueue

structure Gate where
  ac : AdmissionControl
  /-- the last reading of the clock -/
  clock : TimePoint
  /-- history: the calls so far -/
  evaluations : List Evaluation := []

def Gate.step (g : Gate) : GateEvent → Option Gate
  | .evaluate now later priority clusterSaturated =>
      if g.clock ≤ now ∧ now ≤ later then
        let r := g.ac.evaluate now later priority clusterSaturated
        let evaluation : Evaluation :=
          { now, later, priority
            strict := g.ac.mAdmissionStrict
            shedBulk := g.ac.mShedBulk
            verdict := r.1 }
        some { ac := r.2, clock := later, evaluations := evaluation :: g.evaluations }
      else none
  | .setShedBulk enabled => some { g with ac.mShedBulk := enabled }
  | .setAdmissionStrict enabled => some { g with ac.mAdmissionStrict := enabled }
  | .releaseFromHoldingQueue => some { g with ac := g.ac.releaseFromHoldingQueue }

/-- The gate from its construction on. -/
def gate (config : AdmissionConfig) (start : TimePoint) : Machine Gate GateEvent where
  init := { ac := .create config start, clock := start }
  step := Gate.step

/-- A time in seconds. -/
def seconds (t : TimePoint) : Rat := (t : Rat) / 1000000000

/-- The call lies inside the window of `length` seconds that begins at `start`. -/
def Evaluation.Within (e : Evaluation) (start : TimePoint) (length : Rat) : Prop :=
  start ≤ e.now ∧ seconds e.later - seconds start ≤ length

instance (e : Evaluation) (start : TimePoint) (length : Rat) :
    Decidable (e.Within start length) :=
  inferInstanceAs (Decidable (_ ∧ _))

/-- How many jobs the limit has let through in the window. -/
def Gate.passed (g : Gate) (l : RateLimit) (start : TimePoint) (length : Rat) : Nat :=
  g.evaluations.countP fun e =>
    decide (e.verdict = none) && l.covers e.priority && decide (e.Within start length)

end AdmissionControl

/-! ## What one call does to a bucket

A bucket is refilled by the time that has passed since its last refill, up to its capacity, and
gives a token when it holds one. -/

namespace TokenBucket

/-- The bucket as created and later on: its content fits, and its last refill is in the past. -/
structure Sound (b : TokenBucket) (rate : Nat) (clock : TimePoint) : Prop where
  rate_eq : b.mRate = rate
  capacity_eq : b.mCapacity = rate
  tokens_nonneg : 0 ≤ b.mTokens
  tokens_le : b.mTokens ≤ rate
  refill_le : b.mLastRefill ≤ clock

/-- A call that reads the clock at `now` leaves the bucket alone or asks it for a token; a call that
is `served` has been given one. -/
inductive Consults (b : TokenBucket) (now : TimePoint) (served : Prop) : TokenBucket → Prop
  | idle (h : ¬served) : Consults b now served b
  | consume (h : served → (b.tryConsume now).1 = true) :
      Consults b now served (b.tryConsume now).2

theorem Consults.imp {b b' : TokenBucket} {now : TimePoint} {served served' : Prop}
    (h : b.Consults now served b') (himp : served' → served) : b.Consults now served' b' := by
  cases h with
  | idle h => exact .idle fun hs => h (himp hs)
  | consume h => exact .consume fun hs => h (himp hs)

/-- The three outcomes of `tryConsume`. -/
theorem tryConsume_cases (b : TokenBucket) (now : TimePoint) :
    b.mRate = 0 ∧ b.tryConsume now = (true, b) ∨
    b.mRate ≠ 0 ∧ 1 ≤ (b.refill now).mTokens ∧ b.tryConsume now =
      (true, { b.refill now with mTokens := (b.refill now).mTokens - 1 }) ∨
    b.mRate ≠ 0 ∧ (b.refill now).mTokens < 1 ∧ b.tryConsume now = (false, b.refill now) := by
  unfold tryConsume
  by_cases hrate : b.mRate = 0
  · exact Or.inl ⟨hrate, if_pos hrate⟩
  · refine Or.inr ?_
    rw [if_neg hrate]
    by_cases hone : 1 ≤ (b.refill now).mTokens
    · exact Or.inl ⟨hrate, hone, if_pos hone⟩
    · exact Or.inr ⟨hrate, not_le.mp hone, if_neg hone⟩

/-- A bucket stays sound as time goes on. -/
theorem Sound.mono {b : TokenBucket} {rate : Nat} {clock clock' : TimePoint}
    (h : b.Sound rate clock) (hclock : clock ≤ clock') : b.Sound rate clock' :=
  { h with refill_le := h.refill_le.trans hclock }

/-- A new bucket is full, and was refilled just now. -/
theorem sound_create (rate : Nat) (now : TimePoint) : (TokenBucket.create rate now).Sound rate now where
  rate_eq := rfl
  capacity_eq := rfl
  tokens_nonneg := Nat.cast_nonneg rate
  tokens_le := le_refl _
  refill_le := le_refl _

/-- Refilling keeps the content within the capacity. -/
theorem Sound.refill {b : TokenBucket} {rate : Nat} {clock now : TimePoint}
    (h : b.Sound rate clock) (hnow : clock ≤ now) : (b.refill now).Sound rate now where
  rate_eq := h.rate_eq
  capacity_eq := h.capacity_eq
  tokens_nonneg := by
    -- the clock has not gone back, so nothing is taken away
    have helapsed : (0 : Rat) ≤ ((now - b.mLastRefill : Int) : Rat) / 1000000000 := by
      have hle : 0 ≤ now - b.mLastRefill := sub_nonneg.mpr (h.refill_le.trans hnow)
      exact div_nonneg (Int.cast_nonneg hle) (by norm_num)
    apply le_min (Nat.cast_nonneg _)
    exact add_nonneg h.tokens_nonneg (mul_nonneg helapsed (Nat.cast_nonneg _))
  tokens_le := by
    rw [← h.capacity_eq]
    exact min_le_left _ _
  refill_le := le_refl _

/-- Spending a token leaves a content that is not negative. -/
theorem Sound.spend {b : TokenBucket} {rate : Nat} {clock : TimePoint} (h : b.Sound rate clock)
    (hone : 1 ≤ b.mTokens) : { b with mTokens := b.mTokens - 1 }.Sound rate clock :=
  { h with
    tokens_nonneg := sub_nonneg.mpr hone
    tokens_le := (sub_le_self _ zero_le_one).trans h.tokens_le }

/-- A call keeps the content between 0 and the capacity. -/
theorem Sound.consults {b b' : TokenBucket} {rate : Nat} {clock now : TimePoint} {served : Prop}
    (h : b.Sound rate clock) (hnow : clock ≤ now) (hb : b.Consults now served b') :
    b'.Sound rate now := by
  cases hb with
  | idle => exact h.mono hnow
  | consume =>
      rcases b.tryConsume_cases now with ⟨_, heq⟩ | ⟨_, hone, heq⟩ | ⟨_, _, heq⟩ <;> rw [heq]
      · exact h.mono hnow
      · exact (h.refill hnow).spend hone
      · exact h.refill hnow

end TokenBucket

namespace AdmissionControl

open TokenBucket

/-- The bucket has paid for what passed through it in the window. -/
def Paid (b : TokenBucket) (start : TimePoint) (length : Rat) (n : Nat) : Prop :=
  Allowance.Covers (b.mRate : Rat) b.mCapacity (seconds start) length n b.mTokens
    (seconds b.mLastRefill)

/-- Refilling pays for the time that has passed. -/
theorem Paid.refill {b : TokenBucket} {start now : TimePoint} {length : Rat} {n : Nat}
    (h : Paid b start length n) (hnow : b.mLastRefill ≤ now) :
    Paid (b.refill now) start length n := by
  have hseconds : seconds b.mLastRefill ≤ seconds now :=
    div_le_div_of_nonneg_right (Int.cast_le.mpr hnow) (by norm_num)
  have helapsed : ((now - b.mLastRefill : Int) : Rat) / 1000000000 =
      seconds now - seconds b.mLastRefill := by
    unfold seconds
    rw [Int.cast_sub, sub_div]
  have hrefill := Allowance.Covers.refill h hseconds
  rw [← helapsed] at hrefill
  exact hrefill

/-- One call.  It counts only if it was served and its reading of the clock is in the window. -/
theorem Paid.consults {b b' : TokenBucket} {start now : TimePoint} {length : Rat} {n : Nat}
    {served : Prop} [Decidable served] (h : Paid b start length n) (hrate : b.mRate ≠ 0)
    (hnow : b.mLastRefill ≤ now) (hb : b.Consults now served b')
    (hwindow : served → start ≤ now ∧ seconds now - seconds start ≤ length) :
    Paid b' start length (n + if served then 1 else 0) := by
  cases hb with
  | idle hserved =>
      rw [if_neg hserved]
      exact h
  | consume hserved =>
      have hrefilled := h.refill hnow
      rcases b.tryConsume_cases now with ⟨hzero, _⟩ | ⟨_, hone, heq⟩ | ⟨_, _, heq⟩
      · exact absurd hzero hrate
      · rw [heq]
        by_cases hs : served
        · obtain ⟨hstart, hlength⟩ := hwindow hs
          rw [if_pos hs]
          have hseconds : seconds start ≤ seconds now :=
            div_le_div_of_nonneg_right (Int.cast_le.mpr hstart) (by norm_num)
          have hspent := Allowance.Covers.spend hrefilled (Nat.cast_nonneg _) hone hseconds hlength
          unfold Paid
          rw [Nat.cast_add, Nat.cast_one]
          exact hspent
        · rw [if_neg hs]
          exact Allowance.Covers.waste hrefilled
      · -- refused: the call was not served
        have hs : ¬served := fun hs => by
          have htrue := hserved hs
          rw [heq] at htrue
          exact Bool.false_ne_true htrue
        rw [heq, if_neg hs]
        exact hrefilled

/-! ## What one call does to the gate

The layers come one after the other, and each of them touches its own bucket. -/

/-- The outcomes of `evaluate`: the layer that rejects the call, or none of them. -/
inductive EvaluateMove (ac : AdmissionControl) (now later : TimePoint) (priority : Priority) :
    Option SubmitError × AdmissionControl → Prop
  | globalRate {e : SubmitError} {ac₁ : AdmissionControl}
      (h₁ : ac.checkGlobalRate now = (some e, ac₁)) :
      EvaluateMove ac now later priority (some e, ac₁)
  | modes {e : SubmitError} {ac₁ ac₂ : AdmissionControl}
      (h₁ : ac.checkGlobalRate now = (none, ac₁))
      (h₂ : ac₁.checkModes priority = (some e, ac₂)) :
      EvaluateMove ac now later priority (some e, ac₂)
  | priorityRate {e : SubmitError} {ac₁ ac₂ ac₃ : AdmissionControl}
      (h₁ : ac.checkGlobalRate now = (none, ac₁))
      (h₂ : ac₁.checkModes priority = (none, ac₂))
      (h₃ : ac₂.checkPriorityRate later priority = (some e, ac₃)) :
      EvaluateMove ac now later priority (some e, ac₃)
  /-- the last layer touches the holding depth and the rejection counts only -/
  | capacity {verdict : Option SubmitError} {ac₁ ac₂ ac₃ ac₄ : AdmissionControl}
      (h₁ : ac.checkGlobalRate now = (none, ac₁))
      (h₂ : ac₁.checkModes priority = (none, ac₂))
      (h₃ : ac₂.checkPriorityRate later priority = (none, ac₃))
      (h₄ : ∀ l, ac₄.bucket l = ac₃.bucket l) :
      EvaluateMove ac now later priority (verdict, ac₄)

/-- Counting a rejection takes no token. -/
theorem countRejection_bucket (ac : AdmissionControl) (e : SubmitError) (l : RateLimit) :
    (ac.countRejection e).bucket l = ac.bucket l := by
  cases l <;> rfl

/-- Nor does reserving a slot. -/
theorem tryReserveHoldingSlot_bucket (ac : AdmissionControl) (l : RateLimit) :
    ac.tryReserveHoldingSlot.2.bucket l = ac.bucket l := by
  unfold tryReserveHoldingSlot
  split
  · exact countRejection_bucket ac _ l
  · cases l <;> rfl

/-- `evaluate` ends in one of the layers, or gets through them all. -/
theorem evaluate_move (ac : AdmissionControl) (now later : TimePoint) (priority : Priority)
    (clusterSaturated : Bool) :
    EvaluateMove ac now later priority (ac.evaluate now later priority clusterSaturated) := by
  unfold evaluate
  split
  · next h₁ => exact .globalRate h₁
  · next ac₁ h₁ =>
      split
      · next h₂ => exact .modes h₁ h₂
      · next ac₂ h₂ =>
          split
          · next h₃ => exact .priorityRate h₁ h₂ h₃
          · next ac₃ h₃ =>
              split
              · exact .capacity h₁ h₂ h₃ fun _ => rfl
              · exact .capacity h₁ h₂ h₃ (tryReserveHoldingSlot_bucket ac₃)
              · exact .capacity h₁ h₂ h₃ (countRejection_bucket ac₃ _)

/-- Layer 1 asks the global bucket and no other. -/
theorem checkGlobalRate_spec {ac ac' : AdmissionControl} {now : TimePoint}
    {verdict : Option SubmitError} (h : ac.checkGlobalRate now = (verdict, ac')) :
    ac.mGlobalBucket.Consults now (verdict = none) ac'.mGlobalBucket ∧
      (∀ l, l ≠ .global → ac'.bucket l = ac.bucket l) ∧
      ac'.mAdmissionStrict = ac.mAdmissionStrict ∧ ac'.mShedBulk = ac.mShedBulk := by
  unfold checkGlobalRate at h
  dsimp only at h
  split at h <;> obtain ⟨rfl, rfl⟩ := Prod.mk.inj h
  · next hpass =>
      refine ⟨.consume fun _ => hpass, ?_, rfl, rfl⟩
      rintro (_ | _ | _ | _) hl <;> first | rfl | exact absurd rfl hl
  · refine ⟨.consume (by rintro ⟨⟩), ?_, rfl, rfl⟩
    rintro (_ | _ | _ | _) hl <;> first | rfl | exact absurd rfl hl

/-- The modes touch no bucket, and a call that passes them meets no mode that sheds it. -/
theorem checkModes_spec {ac ac' : AdmissionControl} {priority : Priority}
    {verdict : Option SubmitError} (h : ac.checkModes priority = (verdict, ac')) :
    (∀ l, ac'.bucket l = ac.bucket l) ∧
      (verdict = none → (ac.mAdmissionStrict = true → priority.holdable = true) ∧
        (ac.mShedBulk = true → priority ≠ .bulk)) := by
  unfold checkModes at h
  split at h <;> obtain ⟨rfl, rfl⟩ := Prod.mk.inj h
  · exact ⟨countRejection_bucket ac _, by rintro ⟨⟩⟩
  · next hpass =>
      refine ⟨fun _ => rfl, fun _ => ⟨fun hstrict => ?_, ?_⟩⟩
      · by_contra hholdable
        simp [hstrict, hholdable] at hpass
      · rintro hshed rfl
        simp [hshed, Priority.holdable] at hpass

/-- Layer 2 asks the bucket of the priority, when it has one. -/
theorem checkPriorityRate_spec {ac ac' : AdmissionControl} {now : TimePoint}
    {priority : Priority} {verdict : Option SubmitError}
    (h : ac.checkPriorityRate now priority = (verdict, ac')) :
    ac'.mGlobalBucket = ac.mGlobalBucket ∧
      ∀ l, l ≠ .global → (ac.bucket l).Consults now (verdict = none ∧ l.covers priority = true)
        (ac'.bucket l) := by
  cases priority <;> simp only [checkPriorityRate] at h
  -- no bucket is asked for them
  case critical | high =>
    obtain ⟨rfl, rfl⟩ := Prod.mk.inj h
    refine ⟨rfl, ?_⟩
    rintro (_ | _ | _ | _) hl
    · exact absurd rfl hl
    all_goals exact .idle (by simp [RateLimit.covers])
  all_goals
    split at h <;> obtain ⟨rfl, rfl⟩ := Prod.mk.inj h
    all_goals
      refine ⟨rfl, ?_⟩
      rintro (_ | _ | _ | _) hl
      -- the bucket asked belongs to the only limit that covers the priority
      all_goals first
        | exact absurd rfl hl
        | exact .idle (by simp [RateLimit.covers])
        | exact .consume fun _ => by assumption
        | exact .consume (by rintro ⟨⟨⟩, -⟩)

/-- What a call that returns success has passed, and what any call leaves of the modes. -/
theorem evaluate_modes {ac : AdmissionControl} {now later : TimePoint} {priority : Priority}
    {clusterSaturated : Bool}
    (h : (ac.evaluate now later priority clusterSaturated).1 = none) :
    (ac.mAdmissionStrict = true → priority.holdable = true) ∧
      (ac.mShedBulk = true → priority ≠ .bulk) := by
  have hmove := ac.evaluate_move now later priority clusterSaturated
  generalize ac.evaluate now later priority clusterSaturated = r at h hmove
  cases hmove with
  | globalRate | modes | priorityRate => cases h
  | capacity h₁ h₂ =>
      obtain ⟨-, -, hstrict, hshed⟩ := checkGlobalRate_spec h₁
      rw [← hstrict, ← hshed]
      exact (checkModes_spec h₂).2 rfl

/-- The global bucket is asked once by every call, before the other layers. -/
theorem EvaluateMove.consults_global {ac : AdmissionControl} {now later : TimePoint}
    {priority : Priority} {r : Option SubmitError × AdmissionControl}
    (h : EvaluateMove ac now later priority r) :
    ac.mGlobalBucket.Consults now (r.1 = none) r.2.mGlobalBucket := by
  cases h with
  | globalRate h₁ => exact (checkGlobalRate_spec h₁).1
  | modes h₁ h₂ =>
      have hmodes := (checkModes_spec h₂).1 .global
      simp only [bucket] at hmodes
      rw [hmodes]
      exact (checkGlobalRate_spec h₁).1.imp fun _ => rfl
  | priorityRate h₁ h₂ h₃ =>
      have hmodes := (checkModes_spec h₂).1 .global
      simp only [bucket] at hmodes
      rw [(checkPriorityRate_spec h₃).1, hmodes]
      exact (checkGlobalRate_spec h₁).1.imp fun _ => rfl
  | capacity h₁ h₂ h₃ h₄ =>
      have hmodes := (checkModes_spec h₂).1 .global
      have hcapacity := h₄ .global
      simp only [bucket] at hmodes hcapacity
      rw [hcapacity, (checkPriorityRate_spec h₃).1, hmodes]
      exact (checkGlobalRate_spec h₁).1.imp fun _ => rfl

/-- Any other bucket is left alone, or asked once by layer 2. -/
theorem EvaluateMove.consults_priority {ac : AdmissionControl} {now later : TimePoint}
    {priority : Priority} {r : Option SubmitError × AdmissionControl}
    (h : EvaluateMove ac now later priority r) {l : RateLimit} (hl : l ≠ .global) :
    (ac.bucket l).Consults later (r.1 = none ∧ l.covers priority = true) (r.2.bucket l) := by
  cases h with
  | globalRate h₁ =>
      rw [(checkGlobalRate_spec h₁).2.1 l hl]
      exact .idle (by rintro ⟨⟨⟩, -⟩)
  | modes h₁ h₂ =>
      rw [(checkModes_spec h₂).1 l, (checkGlobalRate_spec h₁).2.1 l hl]
      exact .idle (by rintro ⟨⟨⟩, -⟩)
  | priorityRate h₁ h₂ h₃ =>
      have hasked := (checkPriorityRate_spec h₃).2 l hl
      rw [(checkModes_spec h₂).1 l, (checkGlobalRate_spec h₁).2.1 l hl] at hasked
      exact hasked
  | capacity h₁ h₂ h₃ h₄ =>
      have hasked := (checkPriorityRate_spec h₃).2 l hl
      rw [(checkModes_spec h₂).1 l, (checkGlobalRate_spec h₁).2.1 l hl] at hasked
      rw [h₄ l]
      exact hasked.imp fun hs => ⟨rfl, hs.2⟩

/-- Every bucket is consulted at most once by a call, and has given a token for each job that it
covers and that passed. -/
theorem evaluate_consults (ac : AdmissionControl) (now later : TimePoint) (priority : Priority)
    (clusterSaturated : Bool) (l : RateLimit) :
    (ac.bucket l).Consults (l.reading now later)
      ((ac.evaluate now later priority clusterSaturated).1 = none ∧ l.covers priority = true)
      ((ac.evaluate now later priority clusterSaturated).2.bucket l) := by
  have hmove := ac.evaluate_move now later priority clusterSaturated
  cases l with
  | global => exact hmove.consults_global.imp And.left
  | normal | low | bulk => exact hmove.consults_priority (by rintro ⟨⟩)

/-! ## What holds of the gate in every run

The bound for one window is the invariant for that window, so it is proved for all of them at once.
-/

/-- The content of every bucket, and what each has let through in one window. -/
structure GateInv (config : AdmissionConfig) (start : TimePoint) (length : Rat) (g : Gate) :
    Prop where
  sound : ∀ l, (g.ac.bucket l).Sound (l.jps config) g.clock
  paid : ∀ l, l.jps config ≠ 0 → Paid (g.ac.bucket l) start length (g.passed l start length)
  modes : ∀ e ∈ g.evaluations, e.verdict = none →
    (e.strict = true → e.priority.holdable = true) ∧ (e.shedBulk = true → e.priority ≠ .bulk)

/-- No call has been made. -/
theorem gateInv_init (config : AdmissionConfig) (now start : TimePoint) {length : Rat}
    (hlength : 0 ≤ length) : GateInv config start length (gate config now).init := by
  have hsound : ∀ l : RateLimit,
      (bucket (.create config now) l).Sound (l.jps config) now := by
    intro l
    cases l <;> exact sound_create _ now
  refine ⟨hsound, fun l _ => ?_, by rintro e ⟨⟩⟩
  -- nothing has passed yet, and the bucket is full
  have hfull : (bucket (.create config now) l).mTokens ≤
      ((bucket (.create config now) l).mCapacity : Rat) := by
    rw [(hsound l).capacity_eq]
    exact (hsound l).tokens_le
  show Allowance.Covers _ _ _ _ ((0 : Nat) : Rat) _ _
  rw [Nat.cast_zero]
  exact Allowance.Covers.init (Nat.cast_nonneg _) (Nat.cast_nonneg _) hlength hfull

/-- A finished call is counted by the limit exactly when the bucket has served it in the window. -/
theorem passed_cons (e : Evaluation) (g : Gate) (l : RateLimit) (start : TimePoint)
    (length : Rat) (ac : AdmissionControl) (clock : TimePoint) :
    Gate.passed { ac, clock, evaluations := e :: g.evaluations } l start length =
      g.passed l start length +
        if (e.verdict = none ∧ l.covers e.priority = true) ∧ e.Within start length then 1 else 0 := by
  unfold Gate.passed
  rw [List.countP_cons]
  congr 1
  simp only [Bool.and_eq_true, decide_eq_true_eq]

/-- A call advances every bucket by one consultation. -/
theorem GateInv.evaluate {config : AdmissionConfig} {start : TimePoint} {length : Rat}
    {g : Gate} (h : GateInv config start length g) {now later : TimePoint}
    (hclock : g.clock ≤ now) (hlater : now ≤ later) (priority : Priority)
    (clusterSaturated : Bool) :
    GateInv config start length
      { ac := (g.ac.evaluate now later priority clusterSaturated).2
        clock := later
        evaluations :=
          { now, later, priority
            strict := g.ac.mAdmissionStrict
            shedBulk := g.ac.mShedBulk
            verdict := (g.ac.evaluate now later priority clusterSaturated).1 } ::
            g.evaluations } where
  sound := by
    intro l
    -- the global bucket reads the clock first, the bucket of the priority after it
    have hreading : g.clock ≤ l.reading now later ∧ l.reading now later ≤ later := by
      cases l
      · exact ⟨hclock, hlater⟩
      all_goals exact ⟨hclock.trans hlater, le_refl _⟩
    have hconsults := g.ac.evaluate_consults now later priority clusterSaturated l
    exact ((h.sound l).consults hreading.1 hconsults).mono hreading.2
  paid := by
    intro l hl
    rw [passed_cons]
    have hreading : (g.ac.bucket l).mLastRefill ≤ l.reading now later := by
      apply (h.sound l).refill_le.trans
      cases l
      · exact hclock
      all_goals exact hclock.trans hlater
    have hrate : (g.ac.bucket l).mRate ≠ 0 := by
      rw [(h.sound l).rate_eq]
      exact hl
    have hconsults := g.ac.evaluate_consults now later priority clusterSaturated l
    apply (h.paid l hl).consults hrate hreading (hconsults.imp And.left)
    -- a reading of a call inside the window is inside the window
    rintro ⟨-, hstart, hlength⟩
    have hle : seconds now ≤ seconds later :=
      div_le_div_of_nonneg_right (Int.cast_le.mpr hlater) (by norm_num)
    cases l
    · exact ⟨hstart, (sub_le_sub_right hle _).trans hlength⟩
    all_goals exact ⟨hstart.trans hlater, hlength⟩
  modes := by
    intro e he hpass
    rcases List.mem_cons.mp he with rfl | he
    · exact evaluate_modes hpass
    · exact h.modes e he hpass

/-- Whatever leaves the buckets alone keeps the invariant. -/
theorem GateInv.same {config : AdmissionConfig} {start : TimePoint} {length : Rat} {g : Gate}
    (h : GateInv config start length g) {ac : AdmissionControl}
    (hsame : ∀ l, ac.bucket l = g.ac.bucket l) :
    GateInv config start length { g with ac } where
  sound := by
    intro l
    rw [hsame l]
    exact h.sound l
  paid := by
    intro l hl
    rw [hsame l]
    exact h.paid l hl
  modes := h.modes

/-- In every reachable state. -/
theorem gateInv_reach (config : AdmissionConfig) (now start : TimePoint) {length : Rat}
    (hlength : 0 ≤ length) {g : Gate} (hg : (gate config now).Reach Machine.anyEvent g) :
    GateInv config start length g := by
  apply hg.invariant (gateInv_init config now start hlength)
  intro g g' e _ hinv _ hstep
  cases e with
  | evaluate now later priority clusterSaturated =>
      simp only [gate, Gate.step] at hstep
      split at hstep
      · next hclock =>
          obtain rfl := Option.some.inj hstep
          exact hinv.evaluate hclock.1 hclock.2 priority clusterSaturated
      · cases hstep
  | setShedBulk | setAdmissionStrict | releaseFromHoldingQueue =>
      obtain rfl := Option.some.inj hstep
      apply hinv.same
      intro l
      cases l <;> rfl

/-- **The gate keeps its rates.**  In every run of the gate, whatever the priorities, the saturation
flags and the modes: in a window of `length` seconds a limit with a positive rate lets at most
`rate * (1 + length)` of the jobs that it covers through; every bucket holds between 0 and its
capacity, which is the rate; and no call has passed a mode that sheds its priority. -/
theorem gate_keeps_rates (config : AdmissionConfig) (now : TimePoint) {g : Gate}
    (hg : (gate config now).Reach Machine.anyEvent g) :
    (∀ (l : RateLimit) (start : TimePoint) (length : Rat), 0 ≤ length → 0 < l.jps config →
      (g.passed l start length : Rat) ≤ l.jps config * (1 + length)) ∧
    (∀ l, (g.ac.bucket l).mCapacity = l.jps config ∧ 0 ≤ (g.ac.bucket l).mTokens ∧
      (g.ac.bucket l).mTokens ≤ (g.ac.bucket l).mCapacity) ∧
    ∀ e ∈ g.evaluations, e.verdict = none →
      (e.strict = true → e.priority = .critical ∨ e.priority = .high) ∧
        (e.shedBulk = true → e.priority ≠ .bulk) := by
  have hinv := gateInv_reach config now now (le_refl (0 : Rat)) hg
  refine ⟨?_, ?_, ?_⟩
  · intro l start length hlength hrate
    -- a bucket of capacity `R` covers `R` calls at the start of the window, and `R` a second after
    have hpaid := (gateInv_reach config now start hlength hg).paid l hrate.ne'
    have hspent := Allowance.Covers.spent_le hpaid
    rw [(hinv.sound l).rate_eq, (hinv.sound l).capacity_eq] at hspent
    linarith
  · intro l
    have hsound := hinv.sound l
    refine ⟨hsound.capacity_eq, hsound.tokens_nonneg, ?_⟩
    rw [hsound.capacity_eq]
    exact hsound.tokens_le
  · intro e he hpass
    refine ⟨fun hstrict => ?_, (hinv.modes e he hpass).2⟩
    have hholdable := (hinv.modes e he hpass).1 hstrict
    cases hp : e.priority <;> simp [hp, Priority.holdable] at hholdable ⊢

/-- A gate of one job a second that is asked three times: full, empty, and a second later. -/
theorem gate_keeps_rates_one :
    ∃ g, (gate { globalRateLimitJps := 1, capacity_lt := AdmissionConfig.default_lt } 0).Reach
        Machine.anyEvent g ∧ g.passed .global 0 1 = 2 ∧
      (g.passed .global 0 1 : Rat) ≤ (1 : Nat) * (1 + 1) := by
  obtain ⟨g, hg, hpassed⟩ := Machine.exists_reach
    (gate { globalRateLimitJps := 1, capacity_lt := AdmissionConfig.default_lt } 0)
    Machine.anyEvent
    [.evaluate 0 0 .normal false, .setShedBulk true, .evaluate 1 2 .normal false,
      .evaluate 1000000000 1000000000 .normal false]
    (fun g => g.passed .global 0 1 = 2) (by decide +kernel)
  exact ⟨g, hg, of_decide_eq_true hpassed,
    (gate_keeps_rates _ 0 hg).1 .global 0 1 zero_le_one Nat.zero_lt_one⟩

end AdmissionControl

end FatpBalancer
