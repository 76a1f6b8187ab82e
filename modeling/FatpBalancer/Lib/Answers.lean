/-
# Objects that answer calls

An object with a hidden state answers a call and goes on to a next state.  Two objects are alike when
no sequence of calls tells them apart.
-/
import Mathlib.Logic.Basic

universe u v w

namespace Answers

variable {σ : Type u} {ι : Type v} {ω : Type w} (step : σ → ι → ω × σ)

/-- The answers to a sequence of calls. -/
def answers : σ → List ι → List ω
  | _, [] => []
  | s, i :: is => (step s i).1 :: answers (step s i).2 is

def Alike (s t : σ) : Prop := ∀ is, answers step s is = answers step t is

variable {step}

theorem Alike.refl (s : σ) : Alike step s s := fun _ => rfl

/-- Alike objects answer the next call alike. -/
theorem Alike.answer {s t : σ} (h : Alike step s t) (i : ι) : (step s i).1 = (step t i).1 :=
  (List.cons.inj (h [i])).1

/-- They stay alike. -/
theorem Alike.next {s t : σ} (h : Alike step s t) (i : ι) : Alike step (step s i).2 (step t i).2 :=
  fun is => (List.cons.inj (h (i :: is))).2

/-- **The simulation rule.**  States related by what makes them answer alike and stay related are
alike. -/
theorem alike_of_simulation {R : σ → σ → Prop}
    (hR : ∀ s t i, R s t → (step s i).1 = (step t i).1 ∧ R (step s i).2 (step t i).2) {s t : σ}
    (h : R s t) : Alike step s t := by
  intro is
  induction is generalizing s t with
  | nil => rfl
  | cons i is ih =>
      obtain ⟨hanswer, hnext⟩ := hR s t i h
      show (step s i).1 :: _ = (step t i).1 :: _
      rw [hanswer, ih hnext]

end Answers
