/-
# A list kept as two

Items that arrive one after the other and are stored in two lists, the items of one band in each.
Serving the first list before the second serves the bands in turn and each in the order of arrival.
An item is taken out by a key that no other item has.

`Splits` relates the two lists to the one that was kept in mind; it is preserved by arrivals, by
serving and by taking out, and `next_front`, `next_back` say that serving the two lists is serving
the one by bands.
-/
import Mathlib.Data.List.Nodup

universe u v

namespace TwoBands

variable {α : Type u} {κ : Type v} [DecidableEq κ] {band : α → Bool} {key : α → κ}
  {l front back : List α} {x : α} {k : κ}

/-! ## Taking an item out by its key -/

/-- The list without the first item that has this key. -/
def without (key : α → κ) (k : κ) (l : List α) : List α := l.eraseP fun x => decide (key x = k)

/-- The first item that has this key. -/
def lookup (key : α → κ) (k : κ) (l : List α) : Option α := l.find? fun x => decide (key x = k)

theorem without_of_absent (h : ∀ x ∈ l, key x ≠ k) : without key k l = l :=
  List.eraseP_of_forall_not fun x hx => by simpa using h x hx

theorem without_sublist : (without key k l).Sublist l := List.eraseP_sublist

theorem lookup_eq_none : lookup key k l = none ↔ ∀ x ∈ l, key x ≠ k := by
  simp [lookup, List.find?_eq_none]

theorem lookup_some (h : lookup key k l = some x) : x ∈ l ∧ key x = k :=
  ⟨List.mem_of_find?_eq_some h, by simpa using List.find?_some h⟩

/-- The items around an item that no other has the key of. -/
theorem without_middle {before after : List α} (h : ∀ y ∈ before, key y ≠ key x) :
    without key (key x) (before ++ x :: after) = before ++ after := by
  unfold without
  rw [List.eraseP_append_right _ fun y hy => by simpa using h y hy]
  rw [List.eraseP_cons_of_pos (by simp)]

theorem perm_without (hx : x ∈ l) (hkeys : (l.map key).Nodup) :
    l.Perm (x :: without key (key x) l) := by
  obtain ⟨before, after, rfl⟩ := List.append_of_mem hx
  have hbefore : ∀ y ∈ before, key y ≠ key x := by
    intro y hy heq
    rw [List.map_append, List.map_cons] at hkeys
    exact (List.nodup_append.mp hkeys).2.2 (key y) (List.mem_map_of_mem hy) (key x)
      List.mem_cons_self heq
  rw [without_middle hbefore]
  exact List.perm_middle

/-- Taking out by key and choosing the items of a band come in any order. -/
theorem filter_without (hkeys : (l.map key).Nodup) :
    (without key k l).filter band = without key k (l.filter band) := by
  induction l with
  | nil => rfl
  | cons a l ih =>
      obtain ⟨hfresh, hkeys⟩ := List.nodup_cons.mp hkeys
      by_cases hk : key a = k
      · have habsent : ∀ x ∈ l, key x ≠ k := by
          intro x hx heq
          exact hfresh (List.mem_map.mpr ⟨x, hx, heq.trans hk.symm⟩)
        have hgone : without key k (a :: l) = l := List.eraseP_cons_of_pos (by simp [hk])
        have hband : ∀ x ∈ l.filter band, key x ≠ k := by
          intro x hx
          exact habsent x (List.mem_of_mem_filter hx)
        rw [hgone]
        by_cases ha : band a = true
        · rw [List.filter_cons_of_pos ha, without, List.eraseP_cons_of_pos (by simp [hk])]
        · rw [List.filter_cons_of_neg ha, without_of_absent hband]
      · have hkept : ∀ m : List α, without key k (a :: m) = a :: without key k m := by
          intro m
          exact List.eraseP_cons_of_neg (by simp [hk])
        rw [hkept]
        by_cases ha : band a = true
        · rw [List.filter_cons_of_pos ha, List.filter_cons_of_pos ha, hkept, ih hkeys]
        · rw [List.filter_cons_of_neg ha, List.filter_cons_of_neg ha, ih hkeys]

theorem lookup_filter (hkeys : (l.map key).Nodup) (hx : x ∈ l) (hband : band x = true) :
    lookup key (key x) (l.filter band) = some x := by
  cases hfound : lookup key (key x) (l.filter band) with
  | none => exact absurd rfl (lookup_eq_none.mp hfound x (List.mem_filter.mpr ⟨hx, hband⟩))
  | some y =>
      obtain ⟨hy, heq⟩ := lookup_some hfound
      rw [List.inj_on_of_nodup_map hkeys (List.mem_of_mem_filter hy) hx heq]

/-! ## The two lists -/

/-- `front` holds the items of the band, `back` the others, each in the order of arrival. -/
structure Splits (band : α → Bool) (l front back : List α) : Prop where
  front : l.filter band = front
  back : l.filter (fun x => !band x) = back

/-- The item that is served next: the first of the band, or else the first of all. -/
def next (band : α → Bool) (l : List α) : Option α := (l.find? band).or l.head?

omit [DecidableEq κ] in
/-- What is served next is there. -/
theorem mem_of_next (h : next band l = some x) : x ∈ l := by
  rw [next] at h
  rcases Option.or_eq_some_iff.mp h with hband | ⟨-, hhead⟩
  · exact List.mem_of_find?_eq_some hband
  · exact List.mem_of_head? hhead

omit [DecidableEq κ] in
/-- While an item of the band is there, one of the band is served. -/
theorem band_of_next (h : next band l = some x) {y : α} (hy : y ∈ l) (hband : band y = true) :
    band x = true := by
  rw [next] at h
  rcases Option.or_eq_some_iff.mp h with hfound | ⟨hnone, -⟩
  · exact List.find?_some hfound
  · exact absurd hband (List.find?_eq_none.mp hnone y hy)

namespace Splits

theorem nil : Splits band [] [] [] := ⟨rfl, rfl⟩

theorem perm (h : Splits band l front back) : (front ++ back).Perm l := by
  rw [← h.front, ← h.back]
  exact List.filter_append_perm band l

theorem mem_front (h : Splits band l front back) (hx : x ∈ front) : x ∈ l ∧ band x = true := by
  rw [← h.front] at hx
  exact List.mem_filter.mp hx

theorem mem_back (h : Splits band l front back) (hx : x ∈ back) : x ∈ l ∧ band x = false := by
  rw [← h.back] at hx
  simpa using hx

theorem push_front (h : Splits band l front back) (hx : band x = true) :
    Splits band (l ++ [x]) (front ++ [x]) back := by
  constructor
  · rw [List.filter_append, h.front, List.filter_cons_of_pos hx, List.filter_nil]
  · rw [List.filter_append, h.back, List.filter_cons_of_neg (by simp [hx]), List.filter_nil,
      List.append_nil]

theorem push_back (h : Splits band l front back) (hx : band x = false) :
    Splits band (l ++ [x]) front (back ++ [x]) := by
  constructor
  · rw [List.filter_append, h.front, List.filter_cons_of_neg (by simp [hx]), List.filter_nil,
      List.append_nil]
  · rw [List.filter_append, h.back, List.filter_cons_of_pos (by simp [hx]), List.filter_nil]

/-- An item that is taken out by its key leaves the list it is in. -/
theorem without (h : Splits band l front back) (hkeys : (l.map key).Nodup) (k : κ) :
    Splits band (without key k l) (without key k front) (without key k back) := by
  constructor
  · rw [filter_without hkeys, h.front]
  · rw [filter_without hkeys, h.back]

/-- The two lists are searched one after the other. -/
theorem lookup (h : Splits band l front back) (hkeys : (l.map key).Nodup) (k : κ) :
    lookup key k l = (lookup key k front).or (lookup key k back) := by
  cases hfound : TwoBands.lookup key k l with
  | none =>
      have habsent := lookup_eq_none.mp hfound
      have hfront : TwoBands.lookup key k front = none :=
        lookup_eq_none.mpr fun x hx => habsent x (h.mem_front hx).1
      have hback : TwoBands.lookup key k back = none :=
        lookup_eq_none.mpr fun x hx => habsent x (h.mem_back hx).1
      rw [hfront, hback]
      rfl
  | some x =>
      obtain ⟨hx, rfl⟩ := lookup_some hfound
      cases hband : band x with
      | true =>
          rw [← h.front, lookup_filter hkeys hx hband]
          rfl
      | false =>
          have hfront : TwoBands.lookup key (key x) front = none := by
            refine lookup_eq_none.mpr fun y hy heq => ?_
            obtain ⟨hmem, hyband⟩ := h.mem_front hy
            obtain rfl := List.inj_on_of_nodup_map hkeys hmem hx heq
            cases hband.symm.trans hyband
          rw [hfront, Option.none_or, ← h.back]
          exact (lookup_filter hkeys hx (by simp [hband])).symm

omit [DecidableEq κ] in
/-- The key of an item of the first list is not in the second one. -/
theorem absent_back (h : Splits band l front back) (hkeys : (l.map key).Nodup) (hx : x ∈ front) :
    ∀ y ∈ back, key y ≠ key x := by
  intro y hy heq
  obtain ⟨hxmem, hxband⟩ := h.mem_front hx
  obtain ⟨hymem, hyband⟩ := h.mem_back hy
  obtain rfl := List.inj_on_of_nodup_map hkeys hymem hxmem heq
  cases hxband.symm.trans hyband

/-- The head of the first list is served next. -/
theorem next_front (h : Splits band l (x :: front) back) : next band l = some x := by
  rw [next, ← List.head?_filter, h.front]
  rfl

/-- With the first list empty the second one is all there is. -/
theorem eq_back (h : Splits band l [] back) : l = back := by
  rw [← h.back, List.filter_eq_self.mpr]
  intro x hx
  have hnone : ∀ y ∈ l, ¬band y = true := List.filter_eq_nil_iff.mp h.front
  simpa using hnone x hx

theorem next_back (h : Splits band l [] back) : next band l = back.head? := by
  rw [next, ← List.head?_filter, h.front, h.eq_back]
  rfl

end Splits

end TwoBands
