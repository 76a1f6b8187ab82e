/-
# The first minimum of a scan

One pass over a list that keeps the best element so far.  It starts from a bound that an element has
to beat, and only a strictly lower score replaces the best one, so that of several elements with the
least score the first one wins.

`scan_eq_some_iff` characterises the winner by its place in the list: lower than everything before
it and the bound, and not higher than anything after it.  With the bound above all scores there is a
winner as soon as the list has an element.
-/
import Mathlib.Data.List.Induction
import Mathlib.Order.Lattice

universe u v

namespace FirstMin

variable {α : Type u} {K : Type v} [LinearOrder K] (score : α → K) (bound : K)

/-- The score that the next element has to beat. -/
def toBeat : Option α → K
  | none => bound
  | some best => score best

/-- One element of the pass. -/
def step (best : Option α) (x : α) : Option α :=
  if score x < toBeat score bound best then some x else best

def scan (l : List α) : Option α := l.foldl (step score bound) none

/-- The element beats the bound and all elements before it, and is beaten by none after it. -/
def Wins (l : List α) (e : α) : Prop :=
  ∃ l₁ l₂, l = l₁ ++ e :: l₂ ∧ score e < bound ∧
    (∀ x ∈ l₁, score e < score x) ∧ ∀ x ∈ l₂, score e ≤ score x

variable {score bound}

theorem scan_concat (l : List α) (x : α) :
    scan score bound (l ++ [x]) = step score bound (scan score bound l) x := by
  unfold scan
  rw [List.foldl_append]
  rfl

/-- What is left to beat is at most the bound and every score so far. -/
theorem toBeat_scan_le (score : α → K) (bound : K) (l : List α) :
    toBeat score bound (scan score bound l) ≤ bound ∧
      ∀ x ∈ l, toBeat score bound (scan score bound l) ≤ score x := by
  induction l using List.reverseRecOn with
  | nil => exact ⟨le_rfl, nofun⟩
  | append_singleton l y ih =>
      obtain ⟨hbound, hall⟩ := ih
      rw [scan_concat, step]
      split
      · next hlt =>
          refine ⟨hlt.le.trans hbound, fun x hx => ?_⟩
          rcases List.mem_append.mp hx with hx | hx
          · exact hlt.le.trans (hall x hx)
          · exact le_of_eq (congrArg score (List.mem_singleton.mp hx).symm)
      · next hge =>
          refine ⟨hbound, fun x hx => ?_⟩
          rcases List.mem_append.mp hx with hx | hx
          · exact hall x hx
          · rw [List.mem_singleton.mp hx]
            exact not_lt.mp hge

/-- What beats the bound and every score so far beats what is left to beat. -/
theorem lt_toBeat_scan {k : K} {l : List α} (hbound : k < bound) (hall : ∀ x ∈ l, k < score x) :
    k < toBeat score bound (scan score bound l) := by
  induction l using List.reverseRecOn with
  | nil => exact hbound
  | append_singleton l y ih =>
      rw [scan_concat, step]
      split
      · exact hall y (by simp)
      · exact ih fun x hx => hall x (List.mem_append_left _ hx)

/-- **The scan finds the winner.** -/
theorem scan_eq_some_iff {l : List α} {e : α} :
    scan score bound l = some e ↔ Wins score bound l e := by
  induction l using List.reverseRecOn with
  | nil =>
      constructor
      · exact nofun
      · rintro ⟨l₁, l₂, hl, -⟩
        exact absurd hl.symm (by simp)
  | append_singleton l y ih =>
      rw [scan_concat, step]
      constructor
      · split
        · next hlt =>
            intro he
            obtain rfl := Option.some.inj he
            obtain ⟨hbound, hall⟩ := toBeat_scan_le score bound l
            exact ⟨l, [], rfl, hlt.trans_le hbound, fun x hx => hlt.trans_le (hall x hx), nofun⟩
        · next hge =>
            intro he
            obtain ⟨l₁, l₂, rfl, hbound, hbefore, hafter⟩ := ih.mp he
            refine ⟨l₁, l₂ ++ [y], by simp, hbound, hbefore, fun x hx => ?_⟩
            rcases List.mem_append.mp hx with hx | hx
            · exact hafter x hx
            · rw [List.mem_singleton.mp hx]
              rw [he] at hge
              exact not_lt.mp hge
      · rintro ⟨l₁, l₂, hl, hbound, hbefore, hafter⟩
        -- the winner is the last element, or it won before
        induction l₂ using List.reverseRecOn with
        | nil =>
            obtain ⟨rfl, heq⟩ := List.append_inj' hl rfl
            obtain rfl := List.singleton_inj.mp heq
            exact if_pos (lt_toBeat_scan hbound hbefore)
        | append_singleton l₂ z _ =>
            rw [← List.cons_append, ← List.append_assoc] at hl
            obtain ⟨rfl, heq⟩ := List.append_inj' hl rfl
            obtain rfl := List.singleton_inj.mp heq
            have hbest := ih.mpr ⟨l₁, l₂, rfl, hbound, hbefore,
              fun x hx => hafter x (List.mem_append_left _ hx)⟩
            rw [hbest]
            exact if_neg (not_lt.mpr (hafter y (by simp)))

/-- What wins beats the bound. -/
theorem lt_bound_of_scan {l : List α} {e : α} (h : scan score bound l = some e) : score e < bound := by
  obtain ⟨-, -, -, hbound, -⟩ := scan_eq_some_iff.mp h
  exact hbound

/-- Something wins when something beats the bound. -/
theorem exists_wins_iff {l : List α} :
    (∃ e, Wins score bound l e) ↔ ∃ x ∈ l, score x < bound := by
  simp only [← scan_eq_some_iff]
  constructor
  · rintro ⟨e, he⟩
    obtain ⟨l₁, l₂, rfl, hbound, -⟩ := scan_eq_some_iff.mp he
    exact ⟨e, by simp, hbound⟩
  · rintro ⟨x, hx, hlt⟩
    cases hscan : scan score bound l with
    | some e => exact ⟨e, rfl⟩
    | none =>
        have hle := (toBeat_scan_le score bound l).2 x hx
        rw [hscan] at hle
        exact absurd hlt (not_lt.mpr hle)

end FirstMin
