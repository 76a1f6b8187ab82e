/-
# The feature supervisor

One object turns alerts into settings of the balancer.  It owns a feature manager whose graph it
builds, and a batch observer that repeats every committed change on the balancer; nothing else keeps
the two sides in step.

A setting that agrees with the manager therefore goes on agreeing, and one that has been reported as
changed agrees from then on.  The degradation correction is on in a new balancer and its feature off
in a new manager, so that those two agree exactly from the first time the feature is switched.

`Steers` is the invariant, for one thread of calls: all toggles are in step but for the degradation
correction, which is so once its feature has been switched, and the policy is in step when a policy
feature is enabled.  `observe_eq` and `write_comm` say what a change writes and that changes of
different settings commute, which `Supervisor.SupervisorThreads` uses for calls that overlap.
-/
import FatpBalancer.Balancer.State
import FatpBalancer.Lib.Machine
import FatpBalancer.Lib.Writes
import FatpBalancer.Supervisor.FeatureManager
import FatpBalancer.Supervisor.PolicyFactory

universe u v

namespace FatpBalancer

open Writes

variable {F : Type u} [FloatOps F]

/-! ## The balancer it governs

The members that a feature can set, with the balancer's own setters. -/

/-- A balancer and the policy objects handed to it: the constructor's, then the argument of each
`switchPolicy`, so that `mPolicy` is the position of the installed one. -/
structure GovernedBalancer (F : Type u) [FloatOps F] where
  members : Members F
  policies : List SchedulingPolicy
  /-- `config().composite` -/
  composite : CompositePolicyConfig := {}

namespace GovernedBalancer

/-- A balancer fresh from its constructor. -/
def create (cfg : BalancerConfig F) (policy : SchedulingPolicy)
    (composite : CompositePolicyConfig := {}) : GovernedBalancer F where
  members := .create cfg
  policies := [policy]
  composite := composite

def isAgingEnabled (b : GovernedBalancer F) : Bool := b.members.mAgingEnabled

def isDegradationEnabled (b : GovernedBalancer F) : Bool := b.members.mCostModel.mDegradationEnabled

def isShedBulk (b : GovernedBalancer F) : Bool := b.members.mAdmission.mShedBulk

def isAdmissionStrict (b : GovernedBalancer F) : Bool := b.members.mAdmission.mAdmissionStrict

/-- What `mPolicy` points to. -/
def installedPolicy (b : GovernedBalancer F) : Option SchedulingPolicy :=
  b.policies[b.members.mPolicy]?

def setAgingEnabled (b : GovernedBalancer F) (enabled : Bool) : GovernedBalancer F :=
  { b with members.mAgingEnabled := enabled }

def setDegradationEnabled (b : GovernedBalancer F) (enabled : Bool) : GovernedBalancer F :=
  { b with members.mCostModel := b.members.mCostModel.setDegradationEnabled enabled }

def setShedBulk (b : GovernedBalancer F) (enabled : Bool) : GovernedBalancer F :=
  { b with members.mAdmission.mShedBulk := enabled }

def setAdmissionStrict (b : GovernedBalancer F) (enabled : Bool) : GovernedBalancer F :=
  { b with members.mAdmission.mAdmissionStrict := enabled }

def switchPolicy (b : GovernedBalancer F) (policy : SchedulingPolicy) : GovernedBalancer F :=
  { b with
    members.mPolicy := b.policies.length
    policies := b.policies ++ [policy] }

/-- `makePolicyFromFeatureName`: the cost model is the balancer's own, so never null. -/
def makePolicyFromFeatureName (b : GovernedBalancer F) (policyName : String) : SchedulingPolicy :=
  makePolicy policyName true b.composite

@[simp] theorem installedPolicy_switchPolicy (b : GovernedBalancer F) (policy : SchedulingPolicy) :
    (b.switchPolicy policy).installedPolicy = some policy := by
  simp [switchPolicy, installedPolicy]

/-! ## The batch observer

The manager calls it with the changes of one committed operation, in their order. -/

/-- One change, carried over to the balancer. -/
def observe (b : GovernedBalancer F) (ch : FeatureChange) : GovernedBalancer F :=
  if ch.name = kFeatureAging then b.setAgingEnabled ch.newState
  else if ch.name = kFeatureDegradationCurve then b.setDegradationEnabled ch.newState
  else if ch.name = kAdmissionBulkShed then b.setShedBulk ch.newState
  else if ch.name = kAdmissionStrict then b.setAdmissionStrict ch.newState
  else if isPolicyFeature ch.name && ch.newState then
    -- the outgoing policy's disable is ignored, and so is the unsupported composite
    if ch.name ≠ kPolicyComposite then b.switchPolicy (b.makePolicyFromFeatureName ch.name) else b
  else b

/-- The observer `registerObserver` registers. -/
def onBatch (b : GovernedBalancer F) (call : ObserverCall) : GovernedBalancer F :=
  if !call.committed then b else call.changes.foldl observe b

/-- The observer calls of an operation carry over its committed changes, in order. -/
theorem foldl_onBatch {M : Type v} (o : Outcome M) (b : GovernedBalancer F) :
    o.observed.foldl onBatch b = settle observe o.committed b := by
  rw [Outcome.committed]
  generalize o.observed = calls
  induction calls generalizing b with
  | nil => rfl
  | cons call calls ih =>
      rw [List.foldl_cons, ih]
      cases hc : call.committed with
      | false => simp [onBatch, hc]
      | true => simp [onBatch, hc, settle, List.foldl_append]

end GovernedBalancer

/-! ## The supervisor

`applyChanges` switches to an alert, `setFeatureEnabled` switches one feature; both go through the
manager and nowhere else. -/

variable {M : Type v}

structure FeatureSupervisor (M : Type v) (F : Type u) [FloatOps F] where
  mBalancer : GovernedBalancer F
  /-- the pointer is not null -/
  mAffinityMatrix : Bool
  mManager : M
  mActiveAlert : String
  /-- history: the features that the manager has reported as changed -/
  switched : List String

namespace FeatureSupervisor

def kAllFeatures : List String :=
  [kPolicyRoundRobin, kPolicyLeastLoaded, kPolicyAffinity, kPolicyWorkStealing, kPolicyComposite,
    kFeatureAffinityMatrix, kFeatureAffinityMatrixWarm, kFeatureAging, kFeatureDegradationCurve,
    kAdmissionBulkShed, kAdmissionStrict, kAlertNone, kAlertOverload, kAlertLatency, kAlertNodeFault]

/-- The Entails edges, from each alert to its consequences. -/
def kEntails : List (String × String) :=
  [(kAlertNone, kPolicyRoundRobin),
    (kAlertOverload, kPolicyWorkStealing), (kAlertOverload, kAdmissionBulkShed),
    (kAlertLatency, kPolicyRoundRobin), (kAlertLatency, kAdmissionBulkShed),
    (kAlertLatency, kFeatureAging),
    (kAlertNodeFault, kPolicyRoundRobin), (kAlertNodeFault, kAdmissionStrict)]

def buildGraph (fm : FeatureManager M) : M :=
  let m := kAllFeatures.foldl fm.addFeature fm.empty
  let m := fm.addMutuallyExclusiveGroup m "alert_group" alertGroup
  let m := fm.addMutuallyExclusiveGroup m "policy_group" policyGroup
  kEntails.foldl (fun m edge => fm.addRelationship m edge.1 .entails edge.2) m

/-- An operation of the manager returns, its observer calls made. -/
def operate (s : FeatureSupervisor M F) (o : Outcome M) : FeatureSupervisor M F :=
  { s with
    mManager := o.manager
    mBalancer := o.observed.foldl GovernedBalancer.onBatch s.mBalancer
    switched := s.switched ++ o.committed.map (·.name) }

def create (fm : FeatureManager M) (balancer : GovernedBalancer F) (affinityMatrix : Bool) :
    FeatureSupervisor M F :=
  let s : FeatureSupervisor M F :=
    { mBalancer := balancer
      mAffinityMatrix := affinityMatrix
      mManager := buildGraph fm
      mActiveAlert := ""
      switched := [] }
  s.operate (fm.enable s.mManager kAlertNone)

/-- The alert `mActiveAlert` stands for: it is empty in the idle state. -/
def currentAlert (mActiveAlert : String) : String :=
  if mActiveAlert = "" then kAlertNone else mActiveAlert

/-- What `applyChanges` stores for its target: the idle state is normalised to `""`. -/
def normalised (target : String) : String := if target = kAlertNone then "" else target

def applyChanges (fm : FeatureManager M) (s : FeatureSupervisor M F) (alertName : String) :
    Except String Unit × FeatureSupervisor M F :=
  let target := currentAlert alertName
  let current := currentAlert s.mActiveAlert
  if current = target then (.ok (), s)
  else
    let o := fm.replace s.mManager current target
    let s := s.operate o
    match o.result with
    | .error e => (.error e, s)
    | .ok () => (.ok (), { s with mActiveAlert := normalised target })

def refusal : String :=
  "setFeatureEnabled() is only for behavioral features; " ++
    "use applyChanges() for alerts and switchPolicy() for manual policy selection"

def setFeatureEnabled (fm : FeatureManager M) (s : FeatureSupervisor M F) (feature : String)
    (enabled : Bool) : Except String Unit × FeatureSupervisor M F :=
  if isPolicyFeature feature || isAlertFeature feature then (.error refusal, s)
  else
    let o := if enabled then fm.enable s.mManager feature else fm.disable s.mManager feature
    (o.result, s.operate o)

/-- `warm` is the answer of `isMatrixWarm(fraction)`. -/
def updateAffinityWarm (fm : FeatureManager M) (s : FeatureSupervisor M F) (warm : Bool) :
    FeatureSupervisor M F :=
  if !s.mAffinityMatrix then s
  else
    let current := fm.isEnabled s.mManager kFeatureAffinityMatrixWarm
    if warm && !current then s.operate (fm.enable s.mManager kFeatureAffinityMatrixWarm)
    else if !warm && current then s.operate (fm.disable s.mManager kFeatureAffinityMatrixWarm)
    else s

end FeatureSupervisor

inductive SupervisorCall
  | applyChanges (alertName : String)
  | setFeatureEnabled (feature : String) (enabled : Bool)
  | updateAffinityWarm (warm : Bool)

/-- One call after another, by one thread. -/
def FeatureSupervisor.perform (fm : FeatureManager M) (s : FeatureSupervisor M F) :
    SupervisorCall → FeatureSupervisor M F
  | .applyChanges alertName => (s.applyChanges fm alertName).2
  | .setFeatureEnabled feature enabled => (s.setFeatureEnabled fm feature enabled).2
  | .updateAffinityWarm warm => s.updateAffinityWarm fm warm

/-- A supervisor constructed on a fresh balancer, and then called. -/
def supervisor (fm : FeatureManager M) (balancer : GovernedBalancer F) (affinityMatrix : Bool) :
    Machine (FeatureSupervisor M F) SupervisorCall where
  init := .create fm balancer affinityMatrix
  step s call := some (s.perform fm call)

/-! ## Settings

What a change can set, and the order in which changes matter: two of them to one setting, and no
others. -/

/-- The settings that are on or off. -/
inductive Toggle
  | aging
  | degradation
  | bulkShed
  | strict
  deriving DecidableEq

/-- The feature that controls it. -/
def Toggle.feature : Toggle → String
  | .aging => kFeatureAging
  | .degradation => kFeatureDegradationCurve
  | .bulkShed => kAdmissionBulkShed
  | .strict => kAdmissionStrict

/-- What a change can set. -/
inductive Setting
  | toggle (x : Toggle)
  | policy
  deriving DecidableEq

/-- The setting the observer writes for a change, if it writes any. -/
def FeatureChange.setting? (ch : FeatureChange) : Option Setting :=
  if ch.name = kFeatureAging then some (.toggle .aging)
  else if ch.name = kFeatureDegradationCurve then some (.toggle .degradation)
  else if ch.name = kAdmissionBulkShed then some (.toggle .bulkShed)
  else if ch.name = kAdmissionStrict then some (.toggle .strict)
  else if isPolicyFeature ch.name && ch.newState && ch.name != kPolicyComposite then some .policy
  else none

theorem FeatureChange.setting?_toggle (ch : FeatureChange) (x : Toggle) :
    ch.setting? = some (.toggle x) ↔ ch.name = x.feature := by
  constructor
  · intro h
    rw [setting?] at h
    split_ifs at h <;> cases h <;> assumption
  · intro h
    rw [setting?, h]
    cases x <;> rfl

theorem FeatureChange.setting?_policy (ch : FeatureChange) :
    ch.setting? = some .policy ↔
      isPolicyFeature ch.name = true ∧ ch.newState = true ∧ ch.name ≠ kPolicyComposite := by
  constructor
  · intro h
    rw [setting?] at h
    split_ifs at h <;> cases h
    next hpolicy => simpa [and_assoc] using hpolicy
  · rintro ⟨hpolicy, hnew, hne⟩
    -- a policy's name is none of the four toggles'
    have hother : ∀ x : Toggle, ch.name ≠ x.feature := by
      rintro x hx
      rw [hx] at hpolicy
      cases x <;> exact absurd hpolicy (by decide)
    have haging : ch.name ≠ kFeatureAging := hother .aging
    have hdegradation : ch.name ≠ kFeatureDegradationCurve := hother .degradation
    have hbulk : ch.name ≠ kAdmissionBulkShed := hother .bulkShed
    have hstrict : ch.name ≠ kAdmissionStrict := hother .strict
    simp [setting?, haging, hdegradation, hbulk, hstrict, hpolicy, hnew, hne]

namespace GovernedBalancer

def isOn (b : GovernedBalancer F) : Toggle → Bool
  | .aging => b.isAgingEnabled
  | .degradation => b.isDegradationEnabled
  | .bulkShed => b.isShedBulk
  | .strict => b.isAdmissionStrict

/-- Write a change into a setting. -/
def write (b : GovernedBalancer F) (ch : FeatureChange) : Setting → GovernedBalancer F
  | .toggle .aging => b.setAgingEnabled ch.newState
  | .toggle .degradation => b.setDegradationEnabled ch.newState
  | .toggle .bulkShed => b.setShedBulk ch.newState
  | .toggle .strict => b.setAdmissionStrict ch.newState
  | .policy => b.switchPolicy (b.makePolicyFromFeatureName ch.name)

/-- The observer writes one setting or none. -/
theorem observe_eq (b : GovernedBalancer F) (ch : FeatureChange) :
    b.observe ch = ch.setting?.elim b (b.write ch) := by
  rw [observe, FeatureChange.setting?]
  -- both sides branch on the name in the same order
  split_ifs <;> first | rfl | simp_all

/-- Writes to different settings commute. -/
theorem write_comm (b : GovernedBalancer F) {x y : Setting} (h : x ≠ y) (c d : FeatureChange) :
    (b.write c x).write d y = (b.write d y).write c x := by
  rcases x with (x | _) <;> rcases y with (y | _)
  · cases x <;> cases y <;> first | rfl | exact absurd rfl h
  · cases x <;> rfl
  · cases y <;> rfl
  · exact absurd rfl h

theorem isOn_observe (b : GovernedBalancer F) (ch : FeatureChange) (x : Toggle) :
    (b.observe ch).isOn x = if ch.name = x.feature then ch.newState else b.isOn x := by
  rw [observe_eq]
  simp only [← FeatureChange.setting?_toggle]
  rcases ch.setting? with - | (y | -)
  · rfl
  · cases x <;> cases y <;> rfl
  · cases x <;> rfl

theorem composite_observe (b : GovernedBalancer F) (ch : FeatureChange) :
    (b.observe ch).composite = b.composite := by
  rw [observe_eq]
  rcases ch.setting? with - | (y | -)
  · rfl
  · cases y <;> rfl
  · rfl

theorem installedPolicy_observe (b : GovernedBalancer F) (ch : FeatureChange) :
    (b.observe ch).installedPolicy =
      if ch.setting? = some .policy then some (b.makePolicyFromFeatureName ch.name)
      else b.installedPolicy := by
  rw [observe_eq]
  rcases ch.setting? with - | (y | -)
  · rfl
  · cases y <;> rfl
  · exact installedPolicy_switchPolicy ..

end GovernedBalancer

/-! ## In step with the manager

Of each setting apart, so that each can be followed on its own. -/

/-- The toggle is on just when its feature is enabled. -/
def InStep (fm : FeatureManager M) (m : M) (b : GovernedBalancer F) (x : Toggle) : Prop :=
  b.isOn x = fm.isEnabled m x.feature

/-- The installed policy is the one an enabled policy feature names, the unsupported composite
apart. -/
def PolicyInStep (fm : FeatureManager M) (m : M) (b : GovernedBalancer F) : Prop :=
  ∀ p, isPolicyFeature p = true → p ≠ kPolicyComposite → fm.isEnabled m p = true →
    b.installedPolicy = some (b.makePolicyFromFeatureName p)

section Operation

variable {fm : FeatureManager M} {m : M} {o : Outcome M} {b : GovernedBalancer F}

/-- Carrying an operation's changes over brings a toggle in step, if it was in step before or is
among the changes. -/
theorem InStep.settle (ho : fm.Reports m o) {x : Toggle}
    (h : InStep fm m b x ∨ ∃ ch ∈ o.committed, ch.name = x.feature) :
    InStep fm o.manager (settle GovernedBalancer.observe o.committed b) x := by
  have hstep : ∀ ch ∈ o.committed, ∀ c : GovernedBalancer F,
      InStep fm o.manager c x → InStep fm o.manager (c.observe ch) x := by
    intro ch hch c hc
    rw [InStep, GovernedBalancer.isOn_observe]
    split
    · next hname => rw [← hname, ho.newState hch]
    · exact hc
  by_cases hreported : ∃ ch ∈ o.committed, ch.name = x.feature
  · obtain ⟨ch, hch, hname⟩ := hreported
    apply settle_written hch _ hstep
    intro c
    rw [InStep, GovernedBalancer.isOn_observe, if_pos hname, ← hname, ho.newState hch]
  · apply settle_holds hstep
    have hsame := ho.unchanged (f := x.feature) fun ch hch hname => hreported ⟨ch, hch, hname⟩
    rw [InStep, hsame]
    exact h.resolve_right hreported

/-- Carrying an operation's changes over keeps the installed policy in step. -/
theorem PolicyInStep.settle (ho : fm.Reports m o) (hex : fm.MutuallyExclusive o.manager policyGroup)
    (h : PolicyInStep fm m b) :
    PolicyInStep fm o.manager (settle GovernedBalancer.observe o.committed b) := by
  intro p hpolicy hne hon
  -- a reported policy is enabled now, and no other member of the group can be
  have hsole : ∀ ch ∈ o.committed, ch.setting? = some .policy → ch.name = p := by
    intro ch hch hset
    obtain ⟨hmem, hnew, _⟩ := ch.setting?_policy.mp hset
    apply hex _ ((isPolicyFeature_iff _).mp hmem) _ ((isPolicyFeature_iff _).mp hpolicy) _ hon
    rw [← ho.newState hch, hnew]
  have hwrite : ∀ ch ∈ o.committed, ∀ c : GovernedBalancer F, ch.setting? = some .policy →
      (c.observe ch).installedPolicy = some ((c.observe ch).makePolicyFromFeatureName p) := by
    intro ch hch c hset
    rw [GovernedBalancer.installedPolicy_observe, if_pos hset, hsole ch hch hset,
      GovernedBalancer.makePolicyFromFeatureName, GovernedBalancer.makePolicyFromFeatureName,
      GovernedBalancer.composite_observe]
  have hstep : ∀ ch ∈ o.committed, ∀ c : GovernedBalancer F,
      c.installedPolicy = some (c.makePolicyFromFeatureName p) →
        (c.observe ch).installedPolicy = some ((c.observe ch).makePolicyFromFeatureName p) := by
    intro ch hch c hc
    by_cases hset : ch.setting? = some .policy
    · exact hwrite ch hch c hset
    · rw [GovernedBalancer.installedPolicy_observe, if_neg hset, hc,
        GovernedBalancer.makePolicyFromFeatureName, GovernedBalancer.makePolicyFromFeatureName,
        GovernedBalancer.composite_observe]
  -- reported in this operation, or enabled before and not replaced since
  by_cases hreported : ∃ ch ∈ o.committed, ch.name = p
  · obtain ⟨ch, hch, rfl⟩ := hreported
    have hset : ch.setting? = some .policy := by
      rw [FeatureChange.setting?_policy, ho.newState hch]
      exact ⟨hpolicy, hon, hne⟩
    exact settle_written (P := fun c : GovernedBalancer F =>
      c.installedPolicy = some (c.makePolicyFromFeatureName ch.name)) hch
      (fun c => hwrite ch hch c hset) hstep b
  · have hsame := ho.unchanged (f := p) fun ch hch hname => hreported ⟨ch, hch, hname⟩
    exact settle_holds (P := fun c : GovernedBalancer F =>
      c.installedPolicy = some (c.makePolicyFromFeatureName p)) hstep
      (h p hpolicy hne (hsame ▸ hon))

end Operation

/-! ## What every call keeps

The manager reports every change it makes, in the order it makes them. -/

/-- The groups that `buildGraph` registers. -/
def supervisorGroups : List (List String) := [alertGroup, policyGroup]

namespace FeatureSupervisor

variable {fm : FeatureManager M} {s : FeatureSupervisor M F}

theorem operate_mBalancer (s : FeatureSupervisor M F) (o : Outcome M) :
    (s.operate o).mBalancer = settle GovernedBalancer.observe o.committed s.mBalancer :=
  GovernedBalancer.foldl_onBatch ..

/-- What keeps the two sides in step, the degradation correction from its first switch on. -/
structure Steers (fm : FeatureManager M) (s : FeatureSupervisor M F) : Prop where
  operated : fm.Operated (buildGraph fm) s.mManager
  switched : ∀ x, x.feature ∈ s.switched → InStep fm s.mManager s.mBalancer x
  others : ∀ x, x ≠ .degradation → InStep fm s.mManager s.mBalancer x
  /-- until then the correction is on and the feature off -/
  unswitched : kFeatureDegradationCurve ∉ s.switched →
    s.mBalancer.isOn .degradation = true ∧ fm.isEnabled s.mManager kFeatureDegradationCurve = false
  policy : PolicyInStep fm s.mManager s.mBalancer

/-- An operation keeps the two sides in step. -/
theorem Steers.operate (hfm : fm.Contract (buildGraph fm) supervisorGroups) (hs : s.Steers fm)
    {o : Outcome M} (ho : fm.Reports s.mManager o) (hop : fm.Operated (buildGraph fm) o.manager) :
    (s.operate o).Steers fm where
  operated := hop
  switched x hswitched := by
    show InStep fm o.manager (s.operate o).mBalancer x
    rw [operate_mBalancer]
    apply InStep.settle ho
    rcases List.mem_append.mp hswitched with hbefore | hnow
    · exact .inl (hs.switched x hbefore)
    · exact .inr (List.mem_map.mp hnow)
  others x hx := by
    show InStep fm o.manager (s.operate o).mBalancer x
    rw [operate_mBalancer]
    exact InStep.settle ho (.inl (hs.others x hx))
  unswitched hno := by
    have hno' : kFeatureDegradationCurve ∉ s.switched ∧
        kFeatureDegradationCurve ∉ o.committed.map (·.name) := by
      simpa [FeatureSupervisor.operate, not_or] using hno
    have hfree : ∀ ch ∈ o.committed, ch.name ≠ Toggle.degradation.feature := by
      intro ch hch hname
      exact hno'.2 (List.mem_map.mpr ⟨ch, hch, hname⟩)
    obtain ⟨hon, hoff⟩ := hs.unswitched hno'.1
    constructor
    · rw [operate_mBalancer]
      apply settle_holds (P := fun b : GovernedBalancer F => b.isOn .degradation = true) _ hon
      intro ch hch b hb
      rw [GovernedBalancer.isOn_observe, if_neg (hfree ch hch)]
      exact hb
    · exact (ho.unchanged hfree).trans hoff
  policy := by
    show PolicyInStep fm o.manager (s.operate o).mBalancer
    rw [operate_mBalancer]
    exact hs.policy.settle ho (hfm.exclusive _ hop _ (by simp [supervisorGroups]))

/-- Nothing here depends on `mActiveAlert`. -/
theorem Steers.activeAlert (hs : s.Steers fm) (alert : String) :
    ({ s with mActiveAlert := alert } : FeatureSupervisor M F).Steers fm :=
  ⟨hs.operated, hs.switched, hs.others, hs.unswitched, hs.policy⟩

theorem Steers.perform (hfm : fm.Contract (buildGraph fm) supervisorGroups) (hs : s.Steers fm)
    (call : SupervisorCall) : (s.perform fm call).Steers fm := by
  have henable : ∀ f, (s.operate (fm.enable s.mManager f)).Steers fm := fun f =>
    hs.operate hfm (hfm.enable_reports ..) (.enable f hs.operated)
  have hdisable : ∀ f, (s.operate (fm.disable s.mManager f)).Steers fm := fun f =>
    hs.operate hfm (hfm.disable_reports ..) (.disable f hs.operated)
  cases call with
  | applyChanges alertName =>
      show (s.applyChanges fm alertName).2.Steers fm
      rw [applyChanges]
      have hreplace : ∀ f g, (s.operate (fm.replace s.mManager f g)).Steers fm := fun f g =>
        hs.operate hfm (hfm.replace_reports ..) (.replace f g hs.operated)
      dsimp only
      -- the alert is active already, the replacement fails, or it succeeds and is stored
      split
      · exact hs
      · split
        · exact hreplace ..
        · exact (hreplace ..).activeAlert _
  | setFeatureEnabled feature enabled =>
      show (s.setFeatureEnabled fm feature enabled).2.Steers fm
      rw [setFeatureEnabled]
      split
      · exact hs
      · cases enabled with
        | false => exact hdisable feature
        | true => exact henable feature
  | updateAffinityWarm warm =>
      show (s.updateAffinityWarm fm warm).Steers fm
      rw [updateAffinityWarm]
      dsimp only
      split_ifs
      · exact hs
      · exact henable _
      · exact hdisable _
      · exact hs

theorem Steers.create (hfm : fm.Contract (buildGraph fm) supervisorGroups) (cfg : BalancerConfig F)
    (policy : SchedulingPolicy) (composite : CompositePolicyConfig) (affinityMatrix : Bool) :
    (FeatureSupervisor.create fm (.create cfg policy composite) affinityMatrix).Steers fm := by
  rw [FeatureSupervisor.create]
  dsimp only
  apply Steers.operate hfm _ (hfm.enable_reports ..) (.enable _ .graph)
  refine ⟨.graph, ?_, fun x hx => ?_, fun _ => ⟨rfl, hfm.graph_disabled _⟩, ?_⟩
  · rintro x ⟨⟩
  · rw [InStep, hfm.graph_disabled]
    cases x with
    | degradation => exact absurd rfl hx
    | aging | bulkShed | strict => rfl
  · intro p _ _ hon
    rw [hfm.graph_disabled] at hon
    cases hon

end FeatureSupervisor

/-- The live settings of the balancer equal the manager's enabled set. -/
structure Agrees (fm : FeatureManager M) (m : M) (b : GovernedBalancer F) : Prop where
  aging : b.isAgingEnabled = fm.isEnabled m kFeatureAging
  degradation : b.isDegradationEnabled = fm.isEnabled m kFeatureDegradationCurve
  bulkShed : b.isShedBulk = fm.isEnabled m kAdmissionBulkShed
  strict : b.isAdmissionStrict = fm.isEnabled m kAdmissionStrict
  policy : PolicyInStep fm m b

/-- **Settings and features agree exactly once the degradation curve has been switched.** -/
theorem settings_agree_iff_switched {fm : FeatureManager M}
    (hfm : fm.Contract (FeatureSupervisor.buildGraph fm) supervisorGroups) (cfg : BalancerConfig F)
    (policy : SchedulingPolicy) (composite : CompositePolicyConfig) (affinityMatrix : Bool)
    {s : FeatureSupervisor M F}
    (hs : (supervisor fm (.create cfg policy composite) affinityMatrix).Reach Machine.anyEvent s) :
    Agrees fm s.mManager s.mBalancer ↔ kFeatureDegradationCurve ∈ s.switched := by
  have hsteers : s.Steers fm := by
    apply Machine.Reach.invariant (I := FeatureSupervisor.Steers fm) _ _ hs
    · exact .create hfm cfg policy composite affinityMatrix
    · rintro s _ call - hs - ⟨⟩
      exact hs.perform hfm call
  constructor
  · intro hagrees
    by_contra hno
    obtain ⟨hon, hoff⟩ := hsteers.unswitched hno
    have hsame : s.mBalancer.isOn .degradation = false := hagrees.degradation.trans hoff
    exact Bool.noConfusion (hon.symm.trans hsame)
  · intro hswitched
    exact ⟨hsteers.others .aging (by decide), hsteers.switched .degradation hswitched,
      hsteers.others .bulkShed (by decide), hsteers.others .strict (by decide), hsteers.policy⟩

/-- The graph of the supervisor, as `FeatureGraph` keeps it. -/
theorem supervisorGraph_contract :
    FeatureGraph.manager.Contract (FeatureSupervisor.buildGraph FeatureGraph.manager)
      supervisorGroups :=
  FeatureGraph.contract (g := FeatureSupervisor.buildGraph FeatureGraph.manager) rfl

/-- A balancer without nodes. -/
def emptyBalancer : GovernedBalancer Rat :=
  .create { nodes := [], admission := { capacity_lt := AdmissionConfig.default_lt } } .roundRobin

/-- One explicit enable brings everything in step. -/
theorem settings_agree_iff_switched_enabled :
    ∃ s, (supervisor FeatureGraph.manager emptyBalancer false).Reach Machine.anyEvent s ∧
      Agrees FeatureGraph.manager s.mManager s.mBalancer := by
  let machine := supervisor FeatureGraph.manager emptyBalancer false
  have hreach : machine.Reach Machine.anyEvent (machine.init.perform FeatureGraph.manager
      (.setFeatureEnabled kFeatureDegradationCurve true)) := .step _ .init trivial rfl
  refine ⟨_, hreach, ?_⟩
  rw [settings_agree_iff_switched supervisorGraph_contract _ _ _ _ hreach]
  decide

/-- A fresh supervisor refuses nothing when the degradation curve is disabled, and the balancer goes
on applying it: the feature was off already, so that no change is reported. -/
theorem degradation_stays_on :
    let init := (supervisor FeatureGraph.manager emptyBalancer false).init
    let call := init.setFeatureEnabled FeatureGraph.manager kFeatureDegradationCurve false
    FeatureGraph.manager.Contract (FeatureSupervisor.buildGraph FeatureGraph.manager)
        supervisorGroups ∧
      call.1 = .ok () ∧ call.2.mBalancer.isDegradationEnabled = true ∧
      FeatureGraph.manager.isEnabled call.2.mManager kFeatureDegradationCurve = false ∧
      ¬ ∀ s, (supervisor FeatureGraph.manager emptyBalancer false).Reach Machine.anyEvent s →
        Agrees FeatureGraph.manager s.mManager s.mBalancer := by
  refine ⟨supervisorGraph_contract, by decide, by decide, by decide, fun h => ?_⟩
  have hagrees := (h _ .init).degradation
  revert hagrees
  decide

end FatpBalancer
