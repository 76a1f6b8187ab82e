/-
# Guarded runs of a deterministic labelled machine

A machine is an initial state and a partial step function: `step s e = none` says that the event
`e` cannot happen in `s`.  Nondeterminism lives in the choice of the events, so that a run is a
list of events and can be evaluated.

A *guard* restricts the events further, and may look at the state an event is taken in.  It is how
an assumption about the environment ("no handle is minted twice") enters a statement about runs:
`Reach ok s` says that `s` is reached by a run whose steps all meet `ok`.  The run rules turn a
step lemma into a statement about every run.
-/
import Mathlib.Logic.Basic

universe u v w

/-- A deterministic machine with partial, labelled steps. -/
structure Machine (σ : Type u) (ε : Type v) where
  init : σ
  step : σ → ε → Option σ

namespace Machine

variable {σ : Type u} {ε : Type v} (M : Machine σ ε)

/-- The state after a list of events, when each of them can happen in turn. -/
def run : σ → List ε → Option σ
  | s, [] => some s
  | s, e :: es => (M.step s e).bind fun s' => run s' es

/-- The run that also checks the guard at every event. -/
def runIf (ok : σ → ε → Prop) [∀ s e, Decidable (ok s e)] : σ → List ε → Option σ
  | s, [] => some s
  | s, e :: es => if ok s e then (M.step s e).bind fun s' => runIf ok s' es else none

/-- The states reached by the runs all of whose steps meet the guard. -/
inductive Reach (ok : σ → ε → Prop) : σ → Prop
  | init : Reach ok M.init
  | step {s s' : σ} (e : ε) : Reach ok s → ok s e → M.step s e = some s' → Reach ok s'

/-- The guard that allows everything. -/
def anyEvent : σ → ε → Prop := fun _ _ => True

instance (s : σ) (e : ε) : Decidable (anyEvent s e) := inferInstanceAs (Decidable True)

variable {M}

/-! ## Composing runs -/

/-- A guarded run extends a guarded reachable state. -/
theorem Reach.runIf {ok : σ → ε → Prop} [∀ s e, Decidable (ok s e)] {s s' : σ} {es : List ε}
    (hs : M.Reach ok s) (h : M.runIf ok s es = some s') : M.Reach ok s' := by
  induction es generalizing s with
  | nil =>
      cases h
      exact hs
  | cons e es ih =>
      rw [Machine.runIf] at h
      split at h
      · next hok =>
          obtain ⟨t, ht, h⟩ := Option.bind_eq_some_iff.mp h
          exact ih (.step e hs hok ht) h
      · cases h

/-- A run evaluated from the initial state reaches its last state. -/
theorem reach_of_runIf {ok : σ → ε → Prop} [∀ s e, Decidable (ok s e)] {s : σ} {es : List ε}
    (h : M.runIf ok M.init es = some s) : M.Reach ok s :=
  Reach.init.runIf h

/-- A run evaluated together with a test of its last state. -/
theorem exists_reach (M : Machine σ ε) (ok : σ → ε → Prop) [∀ s e, Decidable (ok s e)]
    (es : List ε) (p : σ → Bool) (h : (M.runIf ok M.init es).any p = true) :
    ∃ s, M.Reach ok s ∧ p s = true := by
  cases hrun : M.runIf ok M.init es with
  | none => simp [hrun] at h
  | some s => exact ⟨s, reach_of_runIf hrun, by simpa [hrun] using h⟩

theorem Reach.run {s s' : σ} (es : List ε)
    (hs : M.Reach anyEvent s) (h : M.run s es = some s') : M.Reach anyEvent s' := by
  induction es generalizing s with
  | nil =>
      cases h
      exact hs
  | cons e es ih =>
      obtain ⟨t, ht, h⟩ := Option.bind_eq_some_iff.mp h
      exact ih (.step e hs trivial ht) h

/-! ## The run rules -/

/-- What every event of a run keeps, the run keeps. -/
theorem run_invariant {I : σ → Prop} {es : List ε}
    (hstep : ∀ s s' e, e ∈ es → I s → M.step s e = some s' → I s') {s s' : σ} (hs : I s)
    (h : M.run s es = some s') : I s' := by
  induction es generalizing s with
  | nil =>
      cases h
      exact hs
  | cons e es ih =>
      obtain ⟨t, ht, h⟩ := Option.bind_eq_some_iff.mp h
      have hkept := hstep s t e (List.mem_cons_self ..) hs ht
      exact ih (fun s s' e he => hstep s s' e (List.mem_cons_of_mem _ he)) hkept h

/-- A weaker guard reaches at least as much. -/
theorem Reach.mono {ok ok' : σ → ε → Prop} (hok : ∀ s e, ok s e → ok' s e) {s : σ}
    (hs : M.Reach ok s) : M.Reach ok' s := by
  induction hs with
  | init => exact .init
  | step e _ he hstep ih => exact .step e ih (hok _ e he) hstep

/-- Whatever the guard, the state is reachable. -/
theorem Reach.unguarded {ok : σ → ε → Prop} {s : σ} (hs : M.Reach ok s) : M.Reach anyEvent s :=
  hs.mono fun _ _ _ => trivial

/-- **The invariant rule.**  What holds initially and is kept by every guarded step from a reachable
state holds in every state reached. -/
theorem Reach.invariant {ok : σ → ε → Prop} {I : σ → Prop} (hinit : I M.init)
    (hstep : ∀ {s s'} e, M.Reach ok s → I s → ok s e → M.step s e = some s' → I s')
    {s : σ} (hs : M.Reach ok s) : I s := by
  induction hs with
  | init => exact hinit
  | step e hr he h ih => exact hstep e hr ih he h

/-! ## Observers -/

section Observers

variable {τ : Type w} {ledger : τ} {note : σ → ε → τ → τ}

/-- The machine with a ledger beside it, in which every step is noted and which no step reads: the
way to state what a run has done so far when the state does not record it. -/
def observe (M : Machine σ ε) (ledger : τ) (note : σ → ε → τ → τ) : Machine (σ × τ) ε where
  init := (M.init, ledger)
  step s e := (M.step s.1 e).map fun s' => (s', note s.1 e s.2)

/-- An observed run is a run. -/
theorem Reach.unobserved {ok : σ → ε → Prop} {s : σ × τ}
    (hs : (M.observe ledger note).Reach (fun s e => ok s.1 e) s) : M.Reach ok s.1 := by
  induction hs with
  | init => exact .init
  | step e _ hok h ih =>
      obtain ⟨t, ht, rfl⟩ := Option.map_eq_some_iff.mp h
      exact .step e ih hok ht

/-- Every run can be observed. -/
theorem Reach.exists_observed {ok : σ → ε → Prop} {s : σ} (hs : M.Reach ok s) :
    ∃ t, (M.observe ledger note).Reach (fun s e => ok s.1 e) (s, t) := by
  induction hs with
  | init => exact ⟨ledger, .init⟩
  | @step s s' e _ hok h ih =>
      obtain ⟨t, ht⟩ := ih
      exact ⟨note s e t, .step e ht hok (Option.map_eq_some_iff.mpr ⟨s', h, rfl⟩)⟩

/-- The invariant rule for a state and its ledger. -/
theorem Reach.observed {ok : σ → ε → Prop} {I : σ → τ → Prop} (hinit : I M.init ledger)
    (hstep : ∀ {s s'} e t, M.Reach ok s → I s t → ok s e → M.step s e = some s' →
      I s' (note s e t))
    {s : σ × τ} (hs : (M.observe ledger note).Reach (fun s e => ok s.1 e) s) : I s.1 s.2 := by
  induction hs with
  | init => exact hinit
  | step e hr hok h ih =>
      obtain ⟨t, ht, rfl⟩ := Option.map_eq_some_iff.mp h
      exact hstep e _ hr.unobserved ih hok ht

end Observers

end Machine
