/-
# Tallies

One pass over a list in which a field of the accumulator is a machine counter: every element adds
its weight, modulo the word size.  The field then ends as the sum of the weights, whatever else the
pass keeps; a counter of elements is the case of weight one and zero.
-/
import Mathlib.Algebra.Order.Ring.Nat

universe u v

namespace Tally

variable {σ : Type u} {α : Type v} {step : σ → α → σ} {field : σ → Nat} {size : Nat}

/-- A field to which every element adds its weight. -/
structure Adds (step : σ → α → σ) (field : σ → Nat) (weight : α → Nat) (size : Nat) : Prop where
  pos : 0 < size
  next : ∀ s a, field s < size → field (step s a) = (field s + weight a) % size

/-- A field that the elements with a property change, and the others leave alone. -/
theorem Adds.of_ite {p : α → Bool} {f : α → Nat} (hpos : 0 < size)
    (h : ∀ s a, field (step s a) = if p a then (field s + f a) % size else field s) :
    Adds step field (fun a => if p a then f a else 0) size where
  pos := hpos
  next := by
    intro s a hs
    rw [h s a]
    split
    · rfl
    · rw [Nat.add_zero, Nat.mod_eq_of_lt hs]

theorem Adds.foldl {weight : α → Nat} (h : Adds step field weight size) (l : List α) (s : σ)
    (hs : field s < size) :
    field (l.foldl step s) = (field s + (l.map weight).sum) % size := by
  induction l generalizing s with
  | nil => rw [List.foldl_nil, List.map_nil, List.sum_nil, Nat.add_zero, Nat.mod_eq_of_lt hs]
  | cons a l ih =>
      have hnext := h.next s a hs
      have hlt : field (step s a) < size := by
        rw [hnext]
        exact Nat.mod_lt _ h.pos
      rw [List.foldl_cons, ih (step s a) hlt, hnext, List.map_cons, List.sum_cons,
        Nat.mod_add_mod, Nat.add_assoc]

/-- A field that ends as a sum over the elements with a property. -/
theorem Adds.foldl_filter {p : α → Bool} {f : α → Nat}
    (h : Adds step field (fun a => if p a then f a else 0) size) (l : List α) (s : σ)
    (hs : field s = 0) :
    field (l.foldl step s) = ((l.filter p).map f).sum % size := by
  have hsum : (l.map fun a => if p a then f a else 0).sum = ((l.filter p).map f).sum := by
    induction l with
    | nil => rfl
    | cons a l ih =>
        rw [List.map_cons, List.sum_cons, ih, List.filter_cons]
        split
        · rw [List.map_cons, List.sum_cons]
        · rw [Nat.zero_add]
  rw [h.foldl l s (by rw [hs]; exact h.pos), hs, hsum, Nat.zero_add]

/-- A field that every element with a property increments. -/
def Counts (step : σ → α → σ) (field : σ → Nat) (p : α → Bool) (size : Nat) : Prop :=
  Adds step field (fun a => if p a then 1 else 0) size

/-- From zero a counter ends as the number of elements, as long as that number fits. -/
theorem Counts.foldl {p : α → Bool} (h : Counts step field p size) (l : List α) (s : σ)
    (hs : field s = 0) (hfit : l.length < size) : field (l.foldl step s) = l.countP p := by
  have hle : l.countP p ≤ l.length := List.countP_le_length
  rw [Adds.foldl_filter h l s hs, List.map_const', List.sum_replicate_nat, Nat.mul_one,
    ← List.countP_eq_length_filter, Nat.mod_eq_of_lt (by omega)]

end Tally
