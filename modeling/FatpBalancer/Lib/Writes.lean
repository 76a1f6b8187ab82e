/-
# Lists of pending writes

A state `b`, a way to carry one write out (`deliver`), and a list of writes that have been decided but
not carried out.  `settle` is the state once they all have been, in their order.

Two rules.  What one pending write establishes and the others respect holds once all are carried
out.  And a write may be carried out early, past writes it commutes with, without changing where
things settle.
-/
import Mathlib.Data.List.Basic

universe u v

namespace Writes

variable {β : Type u} {α : Type v}

/-- The state once every pending write has been carried out. -/
def settle (deliver : β → α → β) (pending : List α) (b : β) : β := pending.foldl deliver b

section

variable {deliver : β → α → β}

@[simp] theorem settle_nil (b : β) : settle deliver [] b = b := rfl

@[simp] theorem settle_cons (a : α) (l : List α) (b : β) :
    settle deliver (a :: l) b = settle deliver l (deliver b a) := rfl

theorem settle_append (l l' : List α) (b : β) :
    settle deliver (l ++ l') b = settle deliver l' (settle deliver l b) := List.foldl_append

/-! ## What settles -/

/-- What holds at first and survives every pending write holds in the end. -/
theorem settle_holds {P : β → Prop} {l : List α} (hstep : ∀ a ∈ l, ∀ b, P b → P (deliver b a)) {b : β}
    (hb : P b) : P (settle deliver l b) := by
  induction l generalizing b with
  | nil => exact hb
  | cons a l ih =>
      rw [settle_cons]
      apply ih fun a ha => hstep a (List.mem_cons_of_mem _ ha)
      exact hstep a (List.mem_cons_self ..) b hb

/-- **Agreeing writes.**  What one pending write establishes and all of them respect holds in the
end. -/
theorem settle_written {P : β → Prop} {l : List α} {a : α} (ha : a ∈ l)
    (hwrite : ∀ b, P (deliver b a)) (hstep : ∀ a ∈ l, ∀ b, P b → P (deliver b a)) (b : β) :
    P (settle deliver l b) := by
  obtain ⟨l₁, l₂, rfl⟩ := List.append_of_mem ha
  rw [settle_append, settle_cons]
  apply settle_holds
  · intro c hc
    exact hstep c (by simp [hc])
  · exact hwrite _

/-! ## Early delivery -/

/-- Carrying the two out in either order gives the same state. -/
def Commute (deliver : β → α → β) (a c : α) : Prop :=
  ∀ b, deliver (deliver b a) c = deliver (deliver b c) a

theorem settle_deliver {l : List α} {c : α} (h : ∀ a ∈ l, Commute deliver a c) (b : β) :
    settle deliver l (deliver b c) = deliver (settle deliver l b) c := by
  induction l generalizing b with
  | nil => rfl
  | cons a l ih =>
      have htail := ih fun a ha => h a (List.mem_cons_of_mem _ ha)
      calc settle deliver (a :: l) (deliver b c)
          = settle deliver l (deliver (deliver b c) a) := rfl
        _ = settle deliver l (deliver (deliver b a) c) := by rw [h a (List.mem_cons_self ..)]
        _ = deliver (settle deliver l (deliver b a)) c := htail _

/-- **Early delivery.**  A write that commutes with everything pending before it can be carried out
at once. -/
theorem settle_early {l : List α} {c : α} (h : ∀ a ∈ l, Commute deliver a c) (l' : List α) (b : β) :
    settle deliver (l ++ l') (deliver b c) = settle deliver (l ++ c :: l') b := by
  rw [settle_append, settle_append, settle_cons, settle_deliver h]

end

end Writes
