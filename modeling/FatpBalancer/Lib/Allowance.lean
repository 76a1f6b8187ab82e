/-
# An allowance that refills at a constant rate

The arithmetic of a token bucket, apart from any program.  A balance grows at a rate up to a
capacity and is spent one unit at a time.  `Covers` is the potential argument for a window of time:
what has been spent inside the window, together with what is left, is at most one capacity and
whatever the elapsed part of the window has refilled.
-/
import Mathlib.Algebra.Order.Field.Basic
import Mathlib.Tactic.Linarith
import Mathlib.Tactic.Ring

namespace Allowance

variable {K : Type*} [Field K] [LinearOrder K] [IsStrictOrderedRing K]

/-- `spent` units have been spent in the window of the given length from `start` on, `balance` are
left, and the last refill was at `last`. -/
structure Covers (rate capacity start length spent balance last : K) : Prop where
  spent_le : spent ≤ capacity + rate * length
  /-- before the first unit is spent the balance is the only bound -/
  ahead : spent = 0 ∧ balance ≤ capacity ∨
    start ≤ last ∧ spent + balance ≤ capacity + rate * (last - start)

namespace Covers

variable {rate capacity start length spent balance last : K}

theorem init (hrate : 0 ≤ rate) (hcapacity : 0 ≤ capacity) (hlength : 0 ≤ length)
    (hbalance : balance ≤ capacity) : Covers rate capacity start length 0 balance last where
  spent_le := add_nonneg hcapacity (mul_nonneg hrate hlength)
  ahead := Or.inl ⟨rfl, hbalance⟩

/-- A refill moves the last reading of the clock forward. -/
theorem refill {now : K} (h : Covers rate capacity start length spent balance last)
    (hnow : last ≤ now) :
    Covers rate capacity start length spent (min capacity (balance + (now - last) * rate)) now where
  spent_le := h.spent_le
  ahead := by
    rcases h.ahead with ⟨hspent, _⟩ | ⟨hstart, hle⟩
    · exact Or.inl ⟨hspent, min_le_left _ _⟩
    · refine Or.inr ⟨hstart.trans hnow, ?_⟩
      have hmin := min_le_right capacity (balance + (now - last) * rate)
      have hsplit : rate * (now - start) = rate * (last - start) + (now - last) * rate := by ring
      linarith

/-- A unit that does not count, because it is spent outside the window or to no avail. -/
theorem waste (h : Covers rate capacity start length spent balance last) :
    Covers rate capacity start length spent (balance - 1) last where
  spent_le := h.spent_le
  ahead := by
    rcases h.ahead with ⟨hspent, hle⟩ | ⟨hstart, hle⟩
    · exact Or.inl ⟨hspent, by linarith⟩
    · exact Or.inr ⟨hstart, by linarith⟩

/-- A unit that counts: it is there, and the last refill was inside the window. -/
theorem spend (h : Covers rate capacity start length spent balance last) (hrate : 0 ≤ rate)
    (hone : 1 ≤ balance) (hstart : start ≤ last) (hlast : last - start ≤ length) :
    Covers rate capacity start length (spent + 1) (balance - 1) last := by
  have hle : spent + balance ≤ capacity + rate * (last - start) := by
    rcases h.ahead with ⟨hspent, hle⟩ | ⟨_, hle⟩
    · have hrefilled := mul_nonneg hrate (sub_nonneg.mpr hstart)
      linarith
    · exact hle
  have hwindow := mul_le_mul_of_nonneg_left hlast hrate
  exact ⟨by linarith, Or.inr ⟨hstart, by linarith⟩⟩

end Covers

end Allowance
