/-
# The simulated node: recovering from a crash

Clearing a fault of a failed node sets Recovering and resolves the state by the queue depth in the
same lock region.  `updateStateUnlocked` knows no Recovering: whatever the depth, the node leaves the
region Idle, Busy or Overloaded.
-/
import FatpBalancer.Sim.NodeStates

namespace FatpBalancer

namespace NodeLife

variable {s s' : NodeLife}

/-! ## What a cleared crash asks for -/

/-- The event clears the crash of a node that is started and has jobs in its queue. -/
def Clears (s : NodeLife) : LifeEvent → Prop
  | .serve (.injectFault .none _) =>
      s.node.mState = .failed ∧ s.node.mShutdown = false ∧ s.node.mThreadPool = true ∧
        0 < s.node.mQueueDepth
  | _ => False

/-- The event is neither a new fault nor a stop. -/
def Calm : LifeEvent → Bool
  | .serve (.injectFault .none _) => true
  | .serve (.injectFault _ _) | .stopBegin => false
  | _ => true

/-- The queue is not empty and has not reached the overload threshold. -/
def Unreleased (s : NodeLife) : Prop :=
  0 < s.node.mQueueDepth ∧ s.node.mQueueDepth < s.node.mConfig.overloadThreshold

instance (s : NodeLife) : Decidable s.Unreleased := inferInstanceAs (Decidable (_ ∧ _))

instance (s : NodeLife) (e : LifeEvent) : Decidable (s.Clears e) :=
  match e with
  | .serve (.injectFault .none _) => inferInstanceAs (Decidable (_ ∧ _))
  | .serve (.injectFault .crash _) | .serve (.injectFault .slowdown _)
  | .serve (.injectFault .partition _) => inferInstanceAs (Decidable False)
  | .startBegin | .startPool | .startEnd | .stopBegin | .stopPool | .stopEnd
  | .serve (.submit _ _) | .serve (.cancel _) | .serve (.reprioritise _ _) | .serve (.task _ _) =>
      inferInstanceAs (Decidable False)

/-- A crash has been cleared, and nothing has released the node since. -/
def noteCleared (s : NodeLife) (e : LifeEvent) (cleared : Bool) : Bool :=
  (decide (s.Clears e) || cleared && Calm e) && (s.step e).any fun s' => decide s'.Unreleased

/-- A node whose crash has been cleared is Recovering, and accepts Critical and High alone. -/
def Recovers (s : NodeLife × Bool) : Prop :=
  s.2 = true → s.1.node.mState = .recovering ∧
    ∀ priority, nodeAcceptsPriority s.1.node.mState priority = true ↔
      priority = .critical ∨ priority = .high

/-! ## Recovering is never seen -/

/-- **No step leads to Recovering.** -/
theorem step_ne_recovering (hs : s.node.mState ≠ .recovering) {e : LifeEvent}
    (h : s.step e = some s') : s'.node.mState ≠ .recovering := by
  have hworking : ∀ {n : SimulatedNode}, SimulatedNode.Working n.mState → n.mState ≠ .recovering := by
    intro n hworking hrecovering
    rcases hworking with h | h | h <;> cases hrecovering.symm.trans h
  cases step_move h with
  | startBegin hphase | startEnd hphase | stopEnd hphase =>
      intro hrecovering
      cases hrecovering
  | startPool hphase | stopBegin hphase | stopPool hphase => exact hs
  | injectFault fault config =>
      rcases (injectFault_state s.node fault config).2.2 with hsame | hfailed | hnew
      · exact hsame ▸ hs
      · intro hrecovering
        cases hrecovering.symm.trans hfailed
      · exact hworking hnew
  | @serve e t hother hresolves hcause =>
      rcases hresolves.state with hsame | ⟨-, -, hnew⟩
      · exact hsame ▸ hs
      · exact hworking hnew

/-- The crash is cleared with the queue at or above the overload threshold. -/
def ClearedOverloaded (s : NodeLife) (e : LifeEvent) : Prop :=
  s.Clears e → s.node.mConfig.overloadThreshold ≤ s.node.mQueueDepth

instance (s : NodeLife) (e : LifeEvent) : Decidable (s.ClearedOverloaded e) :=
  inferInstanceAs (Decidable (_ → _))

/-- A cleared crash leaves the depth as it is. -/
theorem Clears.unreleased_iff {e : LifeEvent} (hclears : s.Clears e) (h : s.step e = some s') :
    s'.Unreleased ↔ ¬s.node.mConfig.overloadThreshold ≤ s.node.mQueueDepth := by
  cases step_move h with
  | injectFault fault config =>
      have hdepth : (s.node.injectFault fault config).mQueueDepth = s.node.mQueueDepth :=
        (s.node.injectFault_keeps fault config).2
      have hconfig := s.node.injectFault_mConfig fault config
      have hpos : 0 < s.node.mQueueDepth := by
        cases fault with
        | none => exact hclears.2.2.2
        | _ => exact hclears.elim
      show 0 < (s.node.injectFault fault config).mQueueDepth ∧
        (s.node.injectFault fault config).mQueueDepth <
          (s.node.injectFault fault config).mConfig.overloadThreshold ↔ _
      rw [hdepth, hconfig, and_iff_right hpos, not_le]
  | @serve e t hother hresolves hcause =>
      cases e with
      | injectFault fault config => exact absurd rfl (hother fault config)
      | _ => exact hclears.elim
  | _ => exact hclears.elim

/-- Where nothing is asked of the node, the next step asks for something if it clears a crash below
the threshold. -/
theorem noteCleared_iff {e : LifeEvent} (h : s.step e = some s') :
    s.noteCleared e false = true ↔ ¬s.ClearedOverloaded e := by
  rw [noteCleared, Bool.false_and, Bool.or_false, Bool.and_eq_true, h, Option.any_some,
    decide_eq_true_eq, decide_eq_true_eq, ClearedOverloaded, Classical.not_imp]
  exact and_congr_right fun hclears => hclears.unreleased_iff h

end NodeLife

/-! ## Runs -/

section Runs

variable {mId : NodeId} {mConfig : SimulatedNodeConfig}

/-- **A node never reports Recovering.** -/
theorem never_recovering {s : NodeLife} (hs : (nodeLife mId mConfig).Reach Machine.anyEvent s) :
    s.node.mState ≠ .recovering := by
  refine hs.invariant (I := fun s => s.node.mState ≠ .recovering) ?_
    fun _ _ hs _ h => NodeLife.step_ne_recovering hs h
  intro hrecovering
  cases hrecovering

/-- The runs of the node with the note whether a crash has been cleared. -/
def clearedLife (mId : NodeId) (mConfig : SimulatedNodeConfig) : Machine (NodeLife × Bool) LifeEvent :=
  (nodeLife mId mConfig).observe false NodeLife.noteCleared

/-- **A node recovers as documented only where there is nothing to document.**  As long as every crash
is cleared with an empty queue or with one at or above the overload threshold, a node whose crash has
been cleared stays in Recovering until it is released, because it is released at once; and the first
crash that is cleared otherwise ends it. -/
theorem stays_recovering {s : NodeLife × Bool} (hs : (clearedLife mId mConfig).Reach
    (fun s e => s.1.ClearedOverloaded e) s) :
    NodeLife.Recovers s ∧ ∀ e s', (clearedLife mId mConfig).step s e = some s' →
      (NodeLife.Recovers s' ↔ s.1.ClearedOverloaded e) := by
  have hquiet : s.2 = false := by
    induction hs with
    | init => rfl
    | step e _ hok h ih =>
        obtain ⟨t, ht, rfl⟩ := Option.map_eq_some_iff.mp h
        show NodeLife.noteCleared _ e _ = false
        rw [ih, ← Bool.not_eq_true, NodeLife.noteCleared_iff ht, not_not]
        exact hok
  constructor
  · intro hcleared
    cases hquiet.symm.trans hcleared
  · intro e s' h
    obtain ⟨t, ht, rfl⟩ := Option.map_eq_some_iff.mp h
    have hreach : (nodeLife mId mConfig).Reach Machine.anyEvent s.1 := hs.unobserved.unguarded
    have hnote := NodeLife.noteCleared_iff ht
    constructor
    · intro hrecovers
      by_contra hok
      have hcleared : s.1.noteCleared e s.2 = true := by
        rw [hquiet]
        exact hnote.mpr hok
      exact never_recovering (hreach.step e trivial ht) (hrecovers hcleared).1
    · intro hok hcleared
      rw [hquiet] at hcleared
      exact absurd hok (hnote.mp hcleared)

end Runs

/-- A crash that is cleared with the queue at the overload threshold. -/
theorem stays_recovering_overloaded :
    ∃ s, (clearedLife 1 { overloadThreshold := 2 }).Reach (fun s e => s.1.ClearedOverloaded e) s ∧
      s.1.node.mState = .overloaded ∧ NodeLife.Recovers s := by
  obtain ⟨s, hs, hend⟩ := (clearedLife 1 { overloadThreshold := 2 }).exists_reach
    (fun s e => s.1.ClearedOverloaded e)
    [.startBegin, .startPool, .startEnd, .serve (.submit {} ⟨0, 1⟩),
      .serve (.submit { priority := .high } ⟨1, 1⟩), .serve (.injectFault .crash {}),
      .serve (.injectFault .none {})]
    (fun s => s.1.node.mState == .overloaded) (by decide +kernel)
  exact ⟨s, hs, by simpa using hend, (stays_recovering hs).1⟩

/-- **A crash that is cleared with one job in the queue leaves the node Busy.**  It accepts every
priority at once. -/
theorem busy_after_crash : ∃ s, (clearedLife 1 {}).Reach Machine.anyEvent s ∧ s.2 = true ∧
    s.1.node.mQueueDepth = 1 ∧ s.1.node.mState = .busy ∧
      nodeAcceptsPriority s.1.node.mState .bulk = true ∧ ¬NodeLife.Recovers s := by
  obtain ⟨s, hs, hend⟩ := (clearedLife 1 {}).exists_reach Machine.anyEvent
    [.startBegin, .startPool, .startEnd, .serve (.submit {} ⟨0, 1⟩),
      .serve (.injectFault .crash {}), .serve (.injectFault .none {})]
    (fun s => s.2 && s.1.node.mQueueDepth == 1 && s.1.node.mState == .busy) (by decide +kernel)
  simp only [Bool.and_eq_true, beq_iff_eq] at hend
  obtain ⟨⟨hcleared, hdepth⟩, hbusy⟩ := hend
  refine ⟨s, hs, hcleared, hdepth, hbusy, ?_, fun h => ?_⟩
  · rw [hbusy]
    rfl
  · cases hbusy.symm.trans (h hcleared).1

end FatpBalancer
