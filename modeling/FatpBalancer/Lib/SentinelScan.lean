/-
# A scan whose "nothing yet" is a value

One pass over a list that keeps the first element with the least key, in a variable whose initial
value stands for "nothing yet".  An element that carries that very value is forgotten as soon as it
is kept: the next element takes its place whatever its key, and the scan starts again.

`First` is what the scan is meant to find, and `Stands` what it finds: the list is cut after each
element that looks like nothing and is kept, and what stands at the end is the first least element
of the last part.  The two agree when no kept element looks like nothing.
-/
import Mathlib.Data.List.Induction
import Mathlib.Order.Lattice

universe u v w

namespace SentinelScan

variable {α : Type u} {K : Type v} [LinearOrder K] (key : α → K)

/-- The first element with the least key. -/
def First (l : List α) (e : α) : Prop :=
  ∃ l₁ l₂, l = l₁ ++ e :: l₂ ∧ (∀ x ∈ l₁, key e < key x) ∧ ∀ x ∈ l₂, key e ≤ key x

variable (absent : α → Prop) [DecidablePred absent]

/-- An element that looks like nothing is kept as nothing. -/
def keep (x : α) : Option α := if absent x then none else some x

def step (best : Option α) (x : α) : Option α :=
  match best with
  | none => keep absent x
  | some b => if key x < key b then keep absent x else some b

def scan (l : List α) : Option α := l.foldl (step key absent) none

/-- The list falls into parts, each but the last ended by an element that looks like nothing and has
a lower key than the rest of its part, and in the last part the element is the first with the least
key. -/
inductive Stands : List α → α → Prop
  | first {l : List α} {e : α} (hfirst : First key l e) (hpresent : ¬absent e) : Stands l e
  | restart {l₁ l₂ : List α} {z e : α} (hlower : ∀ x ∈ l₁, key z < key x) (habsent : absent z)
      (hrest : Stands l₂ e) : Stands (l₁ ++ z :: l₂) e

variable {key absent}

/-! ## The first element with the least key -/

theorem First.mem {l : List α} {e : α} (h : First key l e) : e ∈ l := by
  obtain ⟨l₁, l₂, rfl, -, -⟩ := h
  simp

theorem First.le {l : List α} {e : α} (h : First key l e) {x : α} (hx : x ∈ l) : key e ≤ key x := by
  obtain ⟨l₁, l₂, rfl, hbefore, hafter⟩ := h
  rcases List.mem_append.mp hx with hx | hx
  · exact (hbefore x hx).le
  · rcases List.mem_cons.mp hx with rfl | hx
    · exact le_rfl
    · exact hafter x hx

theorem exists_first (key : α → K) {l : List α} (hne : l ≠ []) : ∃ e, First key l e := by
  induction l using List.reverseRecOn with
  | nil => exact absurd rfl hne
  | append_singleton l y ih =>
      rcases eq_or_ne l [] with rfl | hl
      · exact ⟨y, [], [], rfl, nofun, nofun⟩
      · obtain ⟨e, l₁, l₂, rfl, hbefore, hafter⟩ := ih hl
        by_cases hlt : key y < key e
        · have hfirst : First key (l₁ ++ e :: l₂) e := ⟨l₁, l₂, rfl, hbefore, hafter⟩
          exact ⟨y, l₁ ++ e :: l₂, [], rfl, fun x hx => hlt.trans_le (hfirst.le hx), nofun⟩
        · refine ⟨e, l₁, l₂ ++ [y], by simp, hbefore, fun x hx => ?_⟩
          rcases List.mem_append.mp hx with hx | hx
          · exact hafter x hx
          · rw [List.mem_singleton.mp hx]
            exact not_lt.mp hlt

/-- Keys that order the list alike have the same first least element. -/
theorem First.congr {K' : Type w} [LinearOrder K'] {key' : α → K'} {l : List α} {e : α}
    (hkey : ∀ x ∈ l, ∀ y ∈ l, key x < key y ↔ key' x < key' y) (h : First key l e) :
    First key' l e := by
  obtain ⟨l₁, l₂, rfl, hbefore, hafter⟩ := h
  refine ⟨l₁, l₂, rfl, fun x hx => ?_, fun x hx => ?_⟩
  · exact (hkey e (by simp) x (by simp [hx])).mp (hbefore x hx)
  · have hnot := not_lt.mpr (hafter x hx)
    rw [hkey x (by simp [hx]) e (by simp)] at hnot
    exact not_lt.mp hnot

/-! ## What the scan keeps -/

theorem mem_of_scan {l : List α} {b : α} (h : scan key absent l = some b) : b ∈ l := by
  induction l using List.reverseRecOn generalizing b with
  | nil => cases h
  | append_singleton l y ih =>
      have hkeep : ∀ {b}, keep absent y = some b → b ∈ l ++ [y] := by
        intro b hb
        unfold keep at hb
        split at hb
        · cases hb
        · cases hb
          simp
      rw [scan, List.foldl_append] at h
      change step key absent (scan key absent l) y = some b at h
      cases hscan : scan key absent l with
      | none =>
          rw [hscan] at h
          exact hkeep h
      | some c =>
          rw [hscan, step] at h
          split at h
          · exact hkeep h
          · cases h
            exact List.mem_append_left _ (ih hscan)

/-- What has a lower key than everything before it is kept. -/
theorem scan_concat {l : List α} {z : α} (hlower : ∀ x ∈ l, key z < key x) :
    scan key absent (l ++ [z]) = keep absent z := by
  rw [scan, List.foldl_append]
  change step key absent (scan key absent l) z = keep absent z
  cases hscan : scan key absent l with
  | none => rfl
  | some b => exact if_pos (hlower b (mem_of_scan hscan))

/-- What is kept stays as long as no key is lower. -/
theorem foldl_some {l : List α} {e : α} (hle : ∀ x ∈ l, key e ≤ key x) :
    l.foldl (step key absent) (some e) = some e := by
  induction l with
  | nil => rfl
  | cons x l ih =>
      have hstep : step key absent (some e) x = some e := if_neg (not_lt.mpr (hle x (by simp)))
      rw [List.foldl_cons, hstep]
      exact ih fun y hy => hle y (List.mem_cons_of_mem x hy)

theorem scan_split {l₁ l₂ : List α} {z : α} (hlower : ∀ x ∈ l₁, key z < key x) :
    scan key absent (l₁ ++ z :: l₂) = l₂.foldl (step key absent) (keep absent z) := by
  rw [← scan_concat hlower, scan, scan, ← List.foldl_append]
  simp

/-- After an element that looks like nothing the scan starts again. -/
theorem scan_restart {l₁ l₂ : List α} {z : α} (hlower : ∀ x ∈ l₁, key z < key x)
    (habsent : absent z) : scan key absent (l₁ ++ z :: l₂) = scan key absent l₂ := by
  rw [scan_split hlower, keep, if_pos habsent]
  rfl

theorem scan_of_first {l : List α} {e : α} (hfirst : First key l e) (hpresent : ¬absent e) :
    scan key absent l = some e := by
  obtain ⟨l₁, l₂, rfl, hbefore, hafter⟩ := hfirst
  rw [scan_split hbefore, keep, if_neg hpresent]
  exact foldl_some hafter

/-- **The scan finds what stands.** -/
theorem scan_eq_some_iff {l : List α} {e : α} :
    scan key absent l = some e ↔ Stands key absent l e := by
  constructor
  · induction hn : l.length using Nat.strong_induction_on generalizing l with
    | _ n ih =>
        intro h
        have hne : l ≠ [] := List.ne_nil_of_mem (mem_of_scan h)
        obtain ⟨w, hw⟩ := exists_first key hne
        by_cases habsent : absent w
        · obtain ⟨l₁, l₂, rfl, hbefore, -⟩ := hw
          rw [scan_restart hbefore habsent] at h
          exact .restart hbefore habsent (ih l₂.length (by simp at hn; omega) rfl h)
        · rw [scan_of_first hw habsent] at h
          cases h
          exact .first hw habsent
  · intro h
    induction h with
    | first hfirst hpresent => exact scan_of_first hfirst hpresent
    | restart hlower habsent _ ih => rw [scan_restart hlower habsent, ih]

theorem Stands.mem {l : List α} {e : α} (h : Stands key absent l e) : e ∈ l :=
  mem_of_scan (scan_eq_some_iff.mpr h)

omit [DecidablePred absent] in
/-- What stands does not look like nothing. -/
theorem Stands.present {l : List α} {e : α} (h : Stands key absent l e) : ¬absent e := by
  induction h with
  | first _ hpresent => exact hpresent
  | restart _ _ _ ih => exact ih

end SentinelScan
