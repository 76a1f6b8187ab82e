/-
# Machines that emit

A total machine whose steps also emit: the state after a list of events, and the list of all that
the events emitted on the way.  Two rules relate such machines.  A *projection* reads one machine as
another, of which it then has the states and the outputs; it is how a machine that keeps many cells
is taken apart into machines of one cell.  A machine *ignores* the events that neither change its
state nor emit, so that two lists of events with the same other events are the same to it.
-/
import Mathlib.Data.List.Basic

universe u v w x

/-- A deterministic machine whose steps emit. -/
structure Emitter (σ : Type u) (ε : Type v) (ω : Type w) where
  step : σ → ε → σ
  emit : σ → ε → List ω

namespace Emitter

variable {σ : Type u} {ε : Type v} {ω : Type w}

/-- The state after a list of events. -/
def after (M : Emitter σ ε ω) (s : σ) (es : List ε) : σ := es.foldl M.step s

/-- All that a list of events emits, in order. -/
def outputs (M : Emitter σ ε ω) : σ → List ε → List ω
  | _, [] => []
  | s, e :: es => M.emit s e ++ M.outputs (M.step s e) es

variable {M : Emitter σ ε ω} {s : σ} {es : List ε}

@[simp] theorem after_cons {e : ε} : M.after s (e :: es) = M.after (M.step s e) es := rfl

@[simp] theorem outputs_cons {e : ε} :
    M.outputs s (e :: es) = M.emit s e ++ M.outputs (M.step s e) es := rfl

/-- What every event of a list keeps, the list keeps. -/
theorem after_invariant {I : σ → Prop} (hstep : ∀ s, ∀ e ∈ es, I s → I (M.step s e)) (hs : I s) :
    I (M.after s es) := by
  induction es generalizing s with
  | nil => exact hs
  | cons e es ih =>
      have hhead := hstep s e (List.mem_cons_self ..) hs
      exact ih (fun s e' he' => hstep s e' (List.mem_cons_of_mem _ he')) hhead

/-! ## Projections -/

section

variable {τ : Type x}

/-- Where the invariant holds, `π` reads the first machine as the second one. -/
structure Projects (M : Emitter σ ε ω) (N : Emitter τ ε ω) (I : σ → Prop) (π : σ → τ) : Prop where
  keeps : ∀ s e, I s → I (M.step s e)
  step : ∀ s e, I s → π (M.step s e) = N.step (π s) e
  emit : ∀ s e, I s → M.emit s e = N.emit (π s) e

variable {N : Emitter τ ε ω} {I : σ → Prop} {π : σ → τ}

theorem Projects.after (h : Projects M N I π) (hs : I s) (es : List ε) :
    π (M.after s es) = N.after (π s) es := by
  induction es generalizing s with
  | nil => rfl
  | cons e es ih => rw [after_cons, ih (h.keeps s e hs), h.step s e hs, after_cons]

theorem Projects.outputs (h : Projects M N I π) (hs : I s) (es : List ε) :
    M.outputs s es = N.outputs (π s) es := by
  induction es generalizing s with
  | nil => rfl
  | cons e es ih =>
      rw [outputs_cons, ih (h.keeps s e hs), h.step s e hs, h.emit s e hs, outputs_cons]

end

/-! ## Ignored events -/

/-- The events that are not kept change nothing and emit nothing. -/
def Ignores (M : Emitter σ ε ω) (keep : ε → Bool) : Prop :=
  ∀ s e, keep e = false → M.step s e = s ∧ M.emit s e = []

theorem Ignores.after_filter {keep : ε → Bool} (h : M.Ignores keep) (s : σ) (es : List ε) :
    M.after s (es.filter keep) = M.after s es := by
  induction es generalizing s with
  | nil => rfl
  | cons e es ih =>
      cases hkeep : keep e with
      | true => rw [List.filter_cons_of_pos hkeep, after_cons, ih, after_cons]
      | false =>
          rw [List.filter_cons_of_neg (by simp [hkeep]), ih, after_cons, (h s e hkeep).1]

theorem Ignores.outputs_filter {keep : ε → Bool} (h : M.Ignores keep) (s : σ) (es : List ε) :
    M.outputs s (es.filter keep) = M.outputs s es := by
  induction es generalizing s with
  | nil => rfl
  | cons e es ih =>
      cases hkeep : keep e with
      | true => rw [List.filter_cons_of_pos hkeep, outputs_cons, ih, outputs_cons]
      | false =>
          rw [List.filter_cons_of_neg (by simp [hkeep]), ih, outputs_cons, (h s e hkeep).1,
            (h s e hkeep).2, List.nil_append]

end Emitter
