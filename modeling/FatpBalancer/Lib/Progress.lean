/-
# Progress by a measure

A machine need not stop for something to be bound to happen: it is enough that the steps that count
cannot go on for ever and that one of them is possible until it has happened.  Which steps count is
a guard, so that the environment's own steps (a new request, a timer) can be left out; a second one
says which of them the machine can take without waiting for the environment.

`Inevitably can ok P s` says that each run of `ok` steps from `s` comes to a state with `P`, and that
until then a `can` step is possible.  The measure rule proves it from an invariant and a number.
-/
import FatpBalancer.Lib.Machine

universe u v

namespace Machine

variable {σ : Type u} {ε : Type v} {M : Machine σ ε} {can ok : σ → ε → Prop} {P : σ → Prop} {s : σ}

inductive Inevitably (M : Machine σ ε) (can ok : σ → ε → Prop) (P : σ → Prop) : σ → Prop
  | now {s : σ} (h : P s) : Inevitably M can ok P s
  | later {s : σ} (hcan : ∃ e s', can s e ∧ M.step s e = some s')
      (hnext : ∀ e s', ok s e → M.step s e = some s' → Inevitably M can ok P s') :
      Inevitably M can ok P s

/-- **The measure rule.**  While `P` does not hold a step of the machine's own is possible, and every
step that counts makes the measure smaller. -/
theorem Inevitably.of_measure {I : σ → Prop} (μ : σ → Nat)
    (hcan : ∀ s, I s → ¬P s → ∃ e s', can s e ∧ M.step s e = some s')
    (hless : ∀ s e s', I s → ok s e → M.step s e = some s' → I s' ∧ μ s' < μ s) (hs : I s) :
    M.Inevitably can ok P s := by
  induction h : μ s using Nat.strongRecOn generalizing s with
  | ind n ih =>
      by_cases hp : P s
      · exact .now hp
      · refine .later (hcan s hs hp) ?_
        intro e s' hok hstep
        obtain ⟨hs', hlt⟩ := hless s e s' hs hok hstep
        exact ih (μ s') (h ▸ hlt) hs' rfl

/-- Work to do, and a number up to `n` that each unit of work may raise: a step that does work, or
none and lowers the number, makes the weighted sum smaller. -/
theorem weighted_lt {n work work' low low' : Nat} (hlow : low' ≤ n)
    (h : work' < work ∨ work' ≤ work ∧ low' < low) :
    work' * (n + 1) + low' < work * (n + 1) + low := by
  rcases h with hlt | ⟨hle, hless⟩
  · calc work' * (n + 1) + low' < work' * (n + 1) + (n + 1) := by omega
      _ = (work' + 1) * (n + 1) := (Nat.succ_mul ..).symm
      _ ≤ work * (n + 1) := Nat.mul_le_mul_right _ hlt
      _ ≤ work * (n + 1) + low := Nat.le_add_right ..
  · have hmul : work' * (n + 1) ≤ work * (n + 1) := Nat.mul_le_mul_right _ hle
    omega

end Machine
