/-
# Hysteresis

A latch over a sequence of readings, set by a reading at or above a high mark and cleared by one at
or below a low mark.  The readings are listed with the latest first.
-/
import Mathlib.Order.Lattice

universe u

namespace Hysteresis

variable {α : Type u} [LinearOrder α] {low high x y : α} {past : List α}

/-- A reading was at or above the high mark, and none since was at or below the low mark. -/
def Latched (low high : α) (readings : List α) : Prop :=
  ∃ since x before, readings = since ++ x :: before ∧ high ≤ x ∧ ∀ y ∈ since, low < y

theorem not_latched_nil : ¬Latched low high [] := by
  rintro ⟨since, x, before, h, -⟩
  cases since <;> cases h

/-- **One more reading.**  The latch is set by a high one, and else stays set unless it is low. -/
theorem latched_cons : Latched low high (x :: past) ↔ high ≤ x ∨ low < x ∧ Latched low high past := by
  constructor
  · rintro ⟨since, y, before, h, hhigh, hsince⟩
    cases since with
    | nil =>
        obtain ⟨rfl, -⟩ := List.cons.inj h
        exact .inl hhigh
    | cons z since =>
        obtain ⟨rfl, rfl⟩ := List.cons.inj h
        obtain ⟨hz, hsince⟩ := List.forall_mem_cons.mp hsince
        exact .inr ⟨hz, since, y, before, rfl, hhigh, hsince⟩
  · rintro (hhigh | ⟨hlow, since, y, before, rfl, hhigh, hsince⟩)
    · exact ⟨[], x, past, rfl, hhigh, List.forall_mem_nil _⟩
    · exact ⟨x :: since, y, before, rfl, hhigh, List.forall_mem_cons.mpr ⟨hlow, hsince⟩⟩

theorem not_latched_singleton (h : x < high) : ¬Latched low high [x] := by
  rw [latched_cons]
  rintro (hhigh | ⟨-, hnil⟩)
  · exact not_le.mpr h hhigh
  · exact not_latched_nil hnil

section Marks

variable (hmarks : low < high)

include hmarks

/-- A latch is set by readings above the low mark only. -/
theorem Latched.low_lt (h : Latched low high (x :: past)) : low < x := by
  rcases latched_cons.mp h with hhigh | ⟨hlow, -⟩
  · exact hmarks.trans_le hhigh
  · exact hlow

/-- The same reading again changes nothing. -/
theorem latched_again : Latched low high (x :: x :: past) ↔ Latched low high (x :: past) := by
  refine latched_cons.trans ⟨?_, ?_⟩
  · rintro (hhigh | ⟨-, h⟩)
    · exact latched_cons.mpr (.inl hhigh)
    · exact h
  · intro h
    exact .inr ⟨h.low_lt hmarks, h⟩

end Marks

/-- A reading that clears the latch is low. -/
theorem le_low_of_cleared (hset : Latched low high past) (h : ¬Latched low high (x :: past)) :
    x ≤ low := by
  by_contra hlow
  exact h (latched_cons.mpr (.inr ⟨not_le.mp hlow, hset⟩))

/-- A reading that sets the latch is high. -/
theorem high_le_of_set (hclear : ¬Latched low high past) (h : Latched low high (x :: past)) :
    high ≤ x := by
  rcases latched_cons.mp h with hhigh | ⟨-, hset⟩
  · exact hhigh
  · exact absurd hset hclear

end Hysteresis
