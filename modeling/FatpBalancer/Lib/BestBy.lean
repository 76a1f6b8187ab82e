/-
# The best element by score and identity

One pass over a list that keeps the best element so far: the one with the lower score, and of two
with equal scores the one with the lower identity.  What the pass keeps is the least element of the
lexicographic order, so that its identity depends on the elements alone and not on their order.
-/
import Mathlib.Data.List.MinMax
import Mathlib.Data.Prod.Lex

universe u v w

namespace BestBy

variable {α : Type u} {K : Type v} {I : Type w} [LinearOrder K] [LinearOrder I]
variable (score : α → K) (ident : α → I)

def Beats (x y : α) : Prop := score x < score y ∨ score x = score y ∧ ident x < ident y

instance (x y : α) : Decidable (Beats score ident x y) := inferInstanceAs (Decidable (_ ∨ _))

/-- One element of the pass. -/
def step (best : Option α) (x : α) : Option α :=
  match best with
  | none => some x
  | some b => if Beats score ident x b then some x else some b

def scan (l : List α) : Option α := l.foldl (step score ident) none

/-- The element is one of the list and no other beats it. -/
def IsBest (l : List α) (e : α) : Prop := e ∈ l ∧ ∀ x ∈ l, ¬Beats score ident x e

/-- The key by which the best element is the least. -/
def key (x : α) : K ×ₗ I := toLex (score x, ident x)

variable {score ident}

theorem beats_iff {x y : α} : Beats score ident x y ↔ key score ident x < key score ident y := by
  unfold key
  rw [Prod.Lex.toLex_lt_toLex]
  rfl

theorem not_beats_iff {x y : α} : ¬Beats score ident x y ↔ key score ident y ≤ key score ident x := by
  rw [beats_iff, not_lt]

/-- No other beats it: its score is lower, or equal and its identity not higher. -/
theorem not_beats_iff_le {x y : α} :
    ¬Beats score ident x y ↔ score y < score x ∨ score y = score x ∧ ident y ≤ ident x := by
  rw [not_beats_iff]
  unfold key
  rw [Prod.Lex.toLex_le_toLex]

theorem scan_eq_argmin (l : List α) : scan score ident l = l.argmin (key score ident) := by
  have hstep : step score ident = List.argAux fun b c => key score ident b < key score ident c := by
    funext best x
    cases best with
    | none => rfl
    | some b => exact if_congr beats_iff rfl rfl
  rw [scan, hstep]
  rfl

theorem isBest_of_scan {l : List α} {e : α} (h : scan score ident l = some e) :
    IsBest score ident l e := by
  rw [scan_eq_argmin] at h
  refine ⟨List.argmin_mem h, fun x hx => ?_⟩
  rw [not_beats_iff]
  exact List.le_of_mem_argmin hx h

variable (score ident) in
theorem scan_eq_none_iff {l : List α} : scan score ident l = none ↔ l = [] := by
  rw [scan_eq_argmin]
  exact List.argmin_eq_none

/-- The best elements have one identity. -/
theorem IsBest.ident_eq {l : List α} {e e' : α} (h : IsBest score ident l e)
    (h' : IsBest score ident l e') : ident e = ident e' := by
  have hle := not_beats_iff.mp (h.2 e' h'.1)
  have hge := not_beats_iff.mp (h'.2 e h.1)
  exact congrArg (fun k => (ofLex k).2) (le_antisymm hle hge)

/-- **The scan finds the best.** -/
theorem ident_scan_iff {l : List α} {i : I} :
    (scan score ident l).map ident = some i ↔ ∃ e, IsBest score ident l e ∧ ident e = i := by
  rw [Option.map_eq_some_iff]
  constructor
  · rintro ⟨e, he, rfl⟩
    exact ⟨e, isBest_of_scan he, rfl⟩
  · rintro ⟨e, he, rfl⟩
    cases hscan : scan score ident l with
    | none =>
        rw [scan_eq_none_iff] at hscan
        exact absurd he.1 (by simp [hscan])
    | some b => exact ⟨b, rfl, (isBest_of_scan hscan).ident_eq he⟩

/-- What is best depends on the elements and not on their order. -/
theorem IsBest.perm {l l' : List α} (hl : l.Perm l') {e : α} (h : IsBest score ident l e) :
    IsBest score ident l' e :=
  ⟨hl.mem_iff.mp h.1, fun x hx => h.2 x (hl.mem_iff.mpr hx)⟩

theorem ident_scan_perm {l l' : List α} (hl : l.Perm l') :
    (scan score ident l).map ident = (scan score ident l').map ident := by
  apply Option.ext
  intro i
  rw [ident_scan_iff, ident_scan_iff]
  constructor
  · rintro ⟨e, he, hi⟩
    exact ⟨e, he.perm hl, hi⟩
  · rintro ⟨e, he, hi⟩
    exact ⟨e, he.perm hl.symm, hi⟩

end BestBy
