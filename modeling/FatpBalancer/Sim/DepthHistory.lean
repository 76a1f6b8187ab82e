/-
# The simulated node: its state and the depths so far

Every lock region that changes the depth ends in `updateStateUnlocked`, which looks at the depth and
at the state it has left there before.  Between two thresholds the state is therefore a latch over
all the depths there have been.

`Overfull` says it of a list of depths: the node is overloaded after them when some depth reached
the high threshold and no later one fell to the low one.  `FollowsDepths` relates the state to this,
and holds in every run without a crash, since every change of the depth is followed by a look at it
under the same lock.
-/
import FatpBalancer.Lib.Hysteresis
import FatpBalancer.Sim.NodeTasks

namespace FatpBalancer

open Hysteresis

namespace SimulatedNode

variable {n n' : SimulatedNode} {past : List Nat}

/-- The queue depths, the latest first, make the node overloaded. -/
def Overfull (n : SimulatedNode) (depths : List Nat) : Prop :=
  Latched n.mConfig.recoverThreshold n.mConfig.overloadThreshold depths

/-- The state that the depths so far, the latest first, call for. -/
structure FollowsDepths (n : SimulatedNode) (past : List Nat) : Prop where
  overloaded : n.mState = .overloaded ↔ n.Overfull (n.mQueueDepth :: past)
  idle : n.mState = .idle ↔ n.mQueueDepth = 0
  busy : n.mState = .busy ↔ n.mQueueDepth ≠ 0 ∧ ¬n.Overfull (n.mQueueDepth :: past)

theorem resolvedState_eq_overloaded {config : SimulatedNodeConfig} {state : NodeState}
    {depth : Nat} : resolvedState config state depth = .overloaded ↔
      config.overloadThreshold ≤ depth ∨ config.recoverThreshold < depth ∧ state = .overloaded := by
  rw [resolvedState]
  split_ifs with hover hpos hlatch
  · simp [hover]
  · simp [hlatch]
  · simp [hover, hlatch, and_comm]
  · have hlow : ¬config.recoverThreshold < depth := by omega
    simp [hover, hlow]

theorem resolvedState_eq_idle {config : SimulatedNodeConfig} {state : NodeState} {depth : Nat}
    (hover : 0 < config.overloadThreshold) :
    resolvedState config state depth = .idle ↔ depth = 0 := by
  rw [resolvedState]
  split_ifs <;> simp <;> omega

theorem resolvedState_eq_busy {config : SimulatedNodeConfig} {state : NodeState} {depth : Nat} :
    resolvedState config state depth = .busy ↔
      resolvedState config state depth ≠ .idle ∧
        resolvedState config state depth ≠ .overloaded := by
  rw [resolvedState]
  split_ifs <;> simp

theorem FollowsDepths.not_failed (h : n.FollowsDepths past) : n.mState ≠ .failed := by
  intro hfailed
  have hidle : n.mQueueDepth ≠ 0 := by
    intro hzero
    cases hfailed.symm.trans (h.idle.mpr hzero)
  have hover : ¬n.Overfull (n.mQueueDepth :: past) := by
    intro hover
    cases hfailed.symm.trans (h.overloaded.mpr hover)
  cases hfailed.symm.trans (h.busy.mpr ⟨hidle, hover⟩)

/-- The depth and the state stay as they are. -/
theorem FollowsDepths.keep (h : n.FollowsDepths past)
    (hmarks : n.mConfig.recoverThreshold < n.mConfig.overloadThreshold)
    (hconfig : n'.mConfig = n.mConfig) (hstate : n'.mState = n.mState)
    (hdepth : n'.mQueueDepth = n.mQueueDepth) : n'.FollowsDepths (n.mQueueDepth :: past) := by
  have hover : n'.Overfull (n'.mQueueDepth :: n.mQueueDepth :: past) ↔
      n.Overfull (n.mQueueDepth :: past) := by
    rw [Overfull, hconfig, hdepth]
    exact latched_again hmarks
  constructor
  · rw [hstate, h.overloaded, hover]
  · rw [hstate, h.idle, hdepth]
  · rw [hstate, h.busy, hover, hdepth]

/-- The state is resolved by a new depth. -/
theorem FollowsDepths.resolve (h : n.FollowsDepths past)
    (hmarks : n.mConfig.recoverThreshold < n.mConfig.overloadThreshold)
    (hconfig : n'.mConfig = n.mConfig)
    (hstate : n'.mState = resolvedState n.mConfig n.mState n'.mQueueDepth) :
    n'.FollowsDepths (n.mQueueDepth :: past) := by
  have hidle : n'.mState = .idle ↔ n'.mQueueDepth = 0 := by
    rw [hstate]
    exact resolvedState_eq_idle (Nat.zero_lt_of_lt hmarks)
  have hover : n'.mState = .overloaded ↔ n'.Overfull (n'.mQueueDepth :: n.mQueueDepth :: past) := by
    rw [Overfull, latched_cons, hconfig, hstate, resolvedState_eq_overloaded]
    exact or_congr_right (and_congr_right fun _ => h.overloaded)
  constructor
  · exact hover
  · exact hidle
  · have hpos : n'.mQueueDepth ≠ 0 ↔ n'.mState ≠ .idle := hidle.symm.not
    rw [← hover, hpos, hstate]
    exact resolvedState_eq_busy

theorem FollowsDepths.follows (h : n.FollowsDepths past)
    (hmarks : n.mConfig.recoverThreshold < n.mConfig.overloadThreshold) (hfault : n.mFault ≠ .crash)
    (hn : n.Follows n') : n'.FollowsDepths (n.mQueueDepth :: past) := by
  rcases hn.state with ⟨hstate, hdepth⟩ | hresolved
  · exact h.keep hmarks hn.config hstate hdepth
  · rw [if_neg (not_or.mpr ⟨hfault, h.not_failed⟩)] at hresolved
    exact h.resolve hmarks hn.config hresolved

end SimulatedNode

/-! ## Runs

Depths are noted by the events that find them, beside the machine of the node. -/

namespace NodeTasks

/-- The node does not crash; the other faults leave its state alone. -/
def Uncrashed (_ : NodeTasks) : NodeEvent → Prop
  | .injectFault .crash _ => False
  | _ => True

instance (s : NodeTasks) (e : NodeEvent) : Decidable (s.Uncrashed e) :=
  match e with
  | .injectFault .crash _ => inferInstanceAs (Decidable False)
  | .injectFault .none _ | .injectFault .slowdown _ | .injectFault .partition _ =>
      inferInstanceAs (Decidable True)
  | .submit _ _ | .cancel _ | .reprioritise _ _ | .task _ _ => inferInstanceAs (Decidable True)

/-- What holds of a node that does not crash, beside the depths it has been through. -/
structure Latching (mConfig : SimulatedNodeConfig) (s : NodeTasks) (past : List Nat) : Prop where
  config : s.node.mConfig = mConfig
  fault : s.node.mFault ≠ .crash
  depths : s.node.FollowsDepths past

variable {mConfig : SimulatedNodeConfig} {s s' : NodeTasks} {past : List Nat}

/-- **The step lemma.** -/
theorem Latching.step (hmarks : mConfig.recoverThreshold < mConfig.overloadThreshold)
    (hs : s.Latching mConfig past) {e : NodeEvent} (hok : s.Uncrashed e) (h : s.step e = some s') :
    s'.Latching mConfig (s.node.mQueueDepth :: past) := by
  have hmarks' : s.node.mConfig.recoverThreshold < s.node.mConfig.overloadThreshold := by
    rwa [hs.config]
  by_cases hfault : ∃ fault config, e = .injectFault fault config
  · obtain ⟨fault, config, rfl⟩ := hfault
    obtain rfl := Option.some.inj h
    have hcrash : fault ≠ .crash := by
      rintro rfl
      exact hok
    have hnode := SimulatedNode.injectFault_keepsState hcrash (fun _ => hs.depths.not_failed) config
    have hdepths : (s.node.injectFault fault config).FollowsDepths (s.node.mQueueDepth :: past) :=
      hs.depths.keep hmarks' (by rw [hnode]) (by rw [hnode]) (by rw [hnode])
    constructor
    · show (s.node.injectFault fault config).mConfig = _
      rw [hnode]
      exact hs.config
    · show (s.node.injectFault fault config).mFault ≠ _
      rw [hnode]
      exact hcrash
    · exact hdepths
  · have hfollows := step_follows h fun fault config he => hfault ⟨fault, config, he⟩
    constructor
    · rw [hfollows.config]
      exact hs.config
    · rw [hfollows.fault]
      exact hs.fault
    · exact hs.depths.follows hmarks' hs.fault hfollows

theorem Latching.init (hmarks : mConfig.recoverThreshold < mConfig.overloadThreshold)
    (mId : NodeId) : (simulatedNode mId mConfig).init.Latching mConfig [] := by
  have hclear : ¬Latched mConfig.recoverThreshold mConfig.overloadThreshold [0] :=
    not_latched_singleton (Nat.zero_lt_of_lt hmarks)
  constructor
  · rfl
  · intro hcrash
    cases hcrash
  · constructor
    · exact iff_of_false (by rintro ⟨⟩) hclear
    · exact iff_of_true rfl rfl
    · exact iff_of_false (by rintro ⟨⟩) fun h => h.1 rfl

/-- The depth a step finds is noted. -/
def noteDepth (s : NodeTasks) (_ : NodeEvent) (past : List Nat) : List Nat :=
  s.node.mQueueDepth :: past

/-- The step takes the node into Overloaded. -/
structure Enters (s s' : NodeTasks) : Prop where
  before : s.node.mState ≠ .overloaded
  after : s'.node.mState = .overloaded

/-- The step takes the node out of Overloaded. -/
structure Leaves (s s' : NodeTasks) : Prop where
  before : s.node.mState = .overloaded
  after : s'.node.mState ≠ .overloaded

theorem Latching.high_le (hs : s.Latching mConfig past)
    (hs' : s'.Latching mConfig (s.node.mQueueDepth :: past)) (h : Enters s s') :
    mConfig.overloadThreshold ≤ s'.node.mQueueDepth := by
  have hclear := hs.depths.overloaded.not.mp h.before
  have hset := hs'.depths.overloaded.mp h.after
  rw [SimulatedNode.Overfull, hs.config] at hclear
  rw [SimulatedNode.Overfull, hs'.config] at hset
  exact high_le_of_set hclear hset

theorem Latching.le_low (hs : s.Latching mConfig past)
    (hs' : s'.Latching mConfig (s.node.mQueueDepth :: past)) (h : Leaves s s') :
    s'.node.mQueueDepth ≤ mConfig.recoverThreshold := by
  have hset := hs.depths.overloaded.mp h.before
  have hclear := hs'.depths.overloaded.not.mp h.after
  rw [SimulatedNode.Overfull, hs.config] at hset
  rw [SimulatedNode.Overfull, hs'.config] at hclear
  exact le_low_of_cleared hset hclear

end NodeTasks

section Runs

variable {mId : NodeId} {mConfig : SimulatedNodeConfig}

theorem latching_of_observed (hmarks : mConfig.recoverThreshold < mConfig.overloadThreshold)
    {s : NodeTasks × List Nat}
    (hs : ((simulatedNode mId mConfig).observe [] NodeTasks.noteDepth).Reach
      (fun s e => s.1.Uncrashed e) s) : s.1.Latching mConfig s.2 :=
  hs.observed (.init hmarks mId) fun _ _ _ hs hok h => hs.step hmarks hok h

theorem latching_of_uncrashed (hmarks : mConfig.recoverThreshold < mConfig.overloadThreshold)
    {s : NodeTasks} (hs : (simulatedNode mId mConfig).Reach NodeTasks.Uncrashed s) :
    ∃ past, s.Latching mConfig past := by
  obtain ⟨past, hobserved⟩ : ∃ past, ((simulatedNode mId mConfig).observe []
      NodeTasks.noteDepth).Reach (fun s e => s.1.Uncrashed e) (s, past) := hs.exists_observed
  exact ⟨past, latching_of_observed hmarks hobserved⟩

/-- **The state of a node that does not crash is a latch over its depths.**  Between two
thresholds it is Overloaded exactly when the depth has reached the upper one since it was last at or
below the lower one, Idle exactly when the depth is 0, and Busy otherwise.  To become Overloaded
again the depth has to rise by the difference of the thresholds, which is so many more jobs
outstanding as long as these can be counted. -/
theorem state_follows_depths (mId : NodeId) (mConfig : SimulatedNodeConfig)
    (hmarks : mConfig.recoverThreshold < mConfig.overloadThreshold) :
    (∀ s past, ((simulatedNode mId mConfig).observe [] NodeTasks.noteDepth).Reach
        (fun s e => s.1.Uncrashed e) (s, past) → s.node.FollowsDepths past) ∧
      ∀ s₀ s₁ s₂ s₃ e₁ e₂ es, (simulatedNode mId mConfig).Reach NodeTasks.Uncrashed s₀ →
        s₀.Uncrashed e₁ → s₀.step e₁ = some s₁ → s₀.Leaves s₁ →
        (simulatedNode mId mConfig).runIf NodeTasks.Uncrashed s₁ es = some s₂ →
        s₂.Uncrashed e₂ → s₂.step e₂ = some s₃ → s₂.Enters s₃ →
        s₁.node.mQueueDepth + (mConfig.overloadThreshold - mConfig.recoverThreshold) ≤
            s₃.node.mQueueDepth ∧
          ((simulatedNode mId mConfig).Reach NodeTasks.Fits s₁ →
            (simulatedNode mId mConfig).Reach NodeTasks.Fits s₃ →
            s₁.outstanding + (mConfig.overloadThreshold - mConfig.recoverThreshold) ≤
              s₃.outstanding) := by
  constructor
  · intro s past hs
    exact (latching_of_observed hmarks hs).depths
  · intro s₀ s₁ s₂ s₃ e₁ e₂ es hs₀ hok₁ h₁ hleaves hrun hok₂ h₂ henters
    have hs₂ : (simulatedNode mId mConfig).Reach NodeTasks.Uncrashed s₂ :=
      (hs₀.step e₁ hok₁ h₁).runIf hrun
    obtain ⟨past₀, hlatch₀⟩ := latching_of_uncrashed hmarks hs₀
    obtain ⟨past₂, hlatch₂⟩ := latching_of_uncrashed hmarks hs₂
    have hlow := hlatch₀.le_low (hlatch₀.step hmarks hok₁ h₁) hleaves
    have hhigh := hlatch₂.high_le (hlatch₂.step hmarks hok₂ h₂) henters
    have hrise : s₁.node.mQueueDepth + (mConfig.overloadThreshold - mConfig.recoverThreshold) ≤
        s₃.node.mQueueDepth := by omega
    refine ⟨hrise, fun hfits₁ hfits₃ => ?_⟩
    rwa [depth_of_fits hfits₁, depth_of_fits hfits₃] at hrise

end Runs

/-- A node that is Overloaded with two jobs, is Busy with one after they have finished, and becomes
Overloaded again with the next one. -/
theorem state_follows_depths_again : ∃ s₀ s₁ s₂ s₃ : NodeTasks, s₀.Leaves s₁ ∧ s₂.Enters s₃ ∧
    s₁.node.mQueueDepth + 1 ≤ s₃.node.mQueueDepth ∧
      ∃ past, s₀.node.FollowsDepths past ∧ past ≠ [] := by
  let config : SimulatedNodeConfig := { overloadThreshold := 2, recoverThreshold := 1 }
  have hmarks : config.recoverThreshold < config.overloadThreshold := by decide
  obtain ⟨⟨s₀, past⟩, hs₀, hp⟩ := ((simulatedNode 1 config).observe [] NodeTasks.noteDepth).exists_reach
    (fun s e => s.1.Uncrashed e)
    [.submit {} ⟨0, 1⟩, .task 0 .submitPriority, .submit { priority := .high } ⟨1, 1⟩,
      .task 0 .beginJob, .task 0 (.payload true 5)]
    (fun s => s.1.node.mState == .overloaded && !s.2.isEmpty &&
      (s.1.step (.task 0 .completeJob)).any fun s₁ => s₁.node.mState != .overloaded &&
        (s₁.step (.submit { priority := .high } ⟨2, 1⟩)).any fun s₃ => s₃.node.mState == .overloaded)
    (by decide +kernel)
  simp only [Bool.and_eq_true, beq_iff_eq, Option.any_eq_true, bne_iff_ne] at hp
  obtain ⟨⟨hover, hpast⟩, s₁, h₁, hbusy, s₃, h₃, hagain⟩ := hp
  have hresult := state_follows_depths 1 config hmarks
  refine ⟨s₀, s₁, s₁, s₃, ⟨hover, hbusy⟩, ⟨hbusy, hagain⟩, ?_, past, hresult.1 s₀ past hs₀, ?_⟩
  · exact (hresult.2 s₀ s₁ s₁ s₃ (.task 0 .completeJob) (.submit { priority := .high } ⟨2, 1⟩) []
      hs₀.unobserved trivial h₁ ⟨hover, hbusy⟩ rfl trivial h₃ ⟨hbusy, hagain⟩).1
  · rintro rfl
    cases hpast

end FatpBalancer
