/-
# Tables of threads

A growing table is a list whose positions are the identities of its entries: a new entry goes to
the end and an existing one is overwritten in place.  The lemmas here say what a weight summed over
a table becomes under these two operations, which is how a counter shared by all threads is tied to
what each thread is doing.

`total` is the sum; `total_set` and `total_append` are the two equations from which everything else
follows.  `total_mono` and `total_eq_zero` compare weights, and `exists_of_total_pos` finds an entry
behind a positive sum.  The lemmas about `getElem?` say what a position holds after an update, which
is the case analysis that every invariant over a table begins with.
-/
import Mathlib.Algebra.Order.BigOperators.Group.List
import Mathlib.Algebra.Order.Ring.Nat
import Mathlib.Data.List.Nodup

universe u v

namespace Table

variable {α : Type u}

/-- The sum of a weight over the entries of a table. -/
def total (w : α → Nat) (l : List α) : Nat := (l.map w).sum

@[simp] theorem total_nil (w : α → Nat) : total w [] = 0 := rfl

@[simp] theorem total_cons (w : α → Nat) (a : α) (l : List α) :
    total w (a :: l) = w a + total w l := rfl

@[simp] theorem total_append (w : α → Nat) (l l' : List α) :
    total w (l ++ l') = total w l + total w l' := by
  simp [total]

theorem total_perm {w : α → Nat} {l l' : List α} (h : l.Perm l') : total w l = total w l' :=
  (h.map w).sum_eq

/-- Overwriting an entry trades its weight for the new one. -/
theorem total_set {w : α → Nat} {l : List α} {k : Nat} {a : α} (h : l[k]? = some a) (b : α) :
    total w (l.set k b) + w a = total w l + w b := by
  induction l generalizing k with
  | nil => cases h
  | cons c l ih =>
      cases k with
      | zero =>
          obtain rfl : c = a := by simpa using h
          simp only [List.set_cons_zero, total_cons]
          omega
      | succ k =>
          have := ih (k := k) (by simpa using h)
          simp only [List.set_cons_succ, total_cons]
          omega

theorem total_set_eq {w : α → Nat} {l : List α} {k : Nat} {a b : α} (h : l[k]? = some a)
    (hsame : w b = w a) : total w (l.set k b) = total w l := by
  have htraded := total_set (w := w) h b
  rw [hsame] at htraded
  exact Nat.add_right_cancel htraded

theorem total_le_set {w : α → Nat} {l : List α} {k : Nat} {a b : α} (h : l[k]? = some a)
    (hle : w a ≤ w b) : total w l ≤ total w (l.set k b) := by
  have htraded := total_set (w := w) h b
  omega

theorem set_same {l : List α} {k : Nat} {a : α} (h : l[k]? = some a) : l.set k a = l := by
  obtain ⟨hk, rfl⟩ := List.getElem?_eq_some_iff.mp h
  exact List.set_getElem_self hk

theorem modify_eq_set {l : List α} {k : Nat} {a : α} (h : l[k]? = some a) (g : α → α) :
    l.modify k g = l.set k (g a) := by
  simp [List.modify_eq_set_getElem?, h]

theorem le_total {w : α → Nat} {l : List α} {k : Nat} {a : α} (h : l[k]? = some a) :
    w a ≤ total w l :=
  List.single_le_sum (by simp) _ (List.mem_map.mpr ⟨a, List.mem_of_getElem? h, rfl⟩)

theorem add_le_total {w : α → Nat} {l : List α} {j k : Nat} {a b : α} (hj : l[j]? = some a)
    (hk : l[k]? = some b) (hne : j ≠ k) : w a + w b ≤ total w l := by
  induction l generalizing j k with
  | nil => cases hj
  | cons c l ih =>
      rw [total_cons]
      cases j with
      | zero =>
          obtain rfl : c = a := by simpa using hj
          cases k with
          | zero => exact absurd rfl hne
          | succ k => exact Nat.add_le_add_left (le_total (by simpa using hk)) _
      | succ j =>
          cases k with
          | zero =>
              obtain rfl : c = b := by simpa using hk
              rw [Nat.add_comm]
              exact Nat.add_le_add_left (le_total (by simpa using hj)) _
          | succ k =>
              have := ih (j := j) (k := k) (by simpa using hj) (by simpa using hk) (by omega)
              omega

/-- An entry of weight one or more is found wherever the total is not zero. -/
theorem total_mono {v w : α → Nat} {l : List α} (h : ∀ a ∈ l, v a ≤ w a) :
    total v l ≤ total w l :=
  List.sum_le_sum h

theorem total_eq_zero {w : α → Nat} {l : List α} (h : ∀ a ∈ l, w a = 0) : total w l = 0 := by
  rw [total, List.map_congr_left h]
  simp

theorem exists_of_total_pos {w : α → Nat} {l : List α} (h : 0 < total w l) :
    ∃ a ∈ l, 0 < w a := by
  by_contra hne
  have hzero : total w l = 0 := List.sum_eq_zero fun x hx => by
    obtain ⟨a, ha, rfl⟩ := List.mem_map.mp hx
    exact Nat.eq_zero_of_not_pos fun hpos => hne ⟨a, ha, hpos⟩
  omega

/-! ## What a position holds afterwards

The new entry at its own position, the old entries at theirs. -/

theorem getElem?_set_cases {l : List α} {i j : Nat} {a b : α}
    (h : (l.set i a)[j]? = some b) : (j = i ∧ b = a) ∨ (j ≠ i ∧ l[j]? = some b) := by
  rw [List.getElem?_set] at h
  split at h
  · next hij =>
      split at h
      · exact .inl ⟨hij.symm, (Option.some.inj h).symm⟩
      · cases h
  · next hij => exact .inr ⟨Ne.symm hij, h⟩

theorem getElem?_concat_cases {l : List α} {j : Nat} {a b : α}
    (h : (l ++ [a])[j]? = some b) : l[j]? = some b ∨ (j = l.length ∧ b = a) := by
  rw [List.getElem?_append] at h
  split at h
  · exact .inl h
  · next hj =>
      obtain ⟨hlt, rfl⟩ := List.getElem?_eq_some_iff.mp h
      rw [List.length_singleton] at hlt
      have hlast : j = l.length := by omega
      exact .inr ⟨hlast, List.getElem_singleton hlt⟩

theorem getElem?_append_cases {l : List α} {j : Nat} {a b : α}
    (h : (l ++ [a])[j]? = some b) : l[j]? = some b ∨ b = a :=
  (getElem?_concat_cases h).imp_right And.right

/-! ## Sums over positions

Counting the entries of a kind is summing the weight that is 1 on that kind.  Counting them key by
key gives the same sum. -/

theorem total_add (v w : α → Nat) (l : List α) :
    total (fun a => v a + w a) l = total v l + total w l := by
  simp [total, List.sum_map_add]

theorem total_toNat (p : α → Bool) (l : List α) : total (fun a => (p a).toNat) l = l.countP p := by
  induction l with
  | nil => rfl
  | cons a l ih =>
      rw [total_cons, ih, List.countP_cons]
      cases p a <;> simp [Nat.add_comm]

/-- Overwriting an entry in a count of the entries with a property. -/
theorem countP_set {p : α → Bool} {l : List α} {k : Nat} {a : α} (h : l[k]? = some a) (b : α) :
    (l.set k b).countP p + (p a).toNat = l.countP p + (p b).toNat := by
  rw [← total_toNat, ← total_toNat]
  exact total_set h b

/-- Summing over the positions of a table is summing over its entries. -/
theorem total_range (w : α → Nat) (l : List α) :
    total (fun i => (l[i]?).elim 0 w) (List.range l.length) = total w l := by
  have hmap : (List.range l.length).map (fun i => l[i]?) = l.map some :=
    List.ext_getElem (by simp) (by simp)
  have := congrArg (fun m => (m.map fun o => o.elim 0 w).sum) hmap
  simpa [total, Function.comp_def] using this

/-- Every entry of `l` is counted at its own key. -/
theorem total_countP_key (key : α → Nat) (l : List α) {n : Nat} (h : ∀ a ∈ l, key a < n) :
    total (fun i => l.countP fun a => key a == i) (List.range n) = l.length := by
  induction l with
  | nil => simp [total]
  | cons a l ih =>
      have hone : total (fun i => (key a == i).toNat) (List.range n) = 1 := by
        have ha : key a < n := h a List.mem_cons_self
        have hcount : (List.range n).count (key a) = 1 := by rw [List.count_range, if_pos ha]
        rw [total_toNat, ← hcount, List.count]
        exact List.countP_congr fun i _ => by rw [beq_iff_eq, beq_iff_eq, eq_comm]
      have hrest := ih fun b hb => h b (List.mem_cons_of_mem a hb)
      have hsplit : ∀ i, ((a :: l).countP fun a => key a == i) =
          (l.countP fun a => key a == i) + (key a == i).toNat := fun i => by
        rw [List.countP_cons]
        cases key a == i <;> rfl
      simp only [hsplit, total_add, hone, hrest, List.length_cons]

/-- The entries of `l` that meet `p`, counted key by key. -/
theorem total_countP_keys {β : Type v} [DecidableEq β] (key : α → β) (p : α → Bool) (l : List α)
    {keys : List β} (hnodup : keys.Nodup) (h : ∀ a ∈ l, key a ∈ keys) :
    total (fun b => l.countP fun a => key a == b && p a) keys = l.countP p := by
  induction l with
  | nil => simp [total]
  | cons a l ih =>
      have hone : total (fun b => (key a == b && p a).toNat) keys = (p a).toNat := by
        rw [total_toNat]
        cases p a with
        | false => simp
        | true =>
            have hcount : keys.count (key a) = 1 :=
              List.nodup_iff_count_eq_one.mp hnodup _ (h a List.mem_cons_self)
            rw [Bool.toNat_true, ← hcount, List.count]
            exact List.countP_congr fun b _ => by
              rw [Bool.and_true, beq_iff_eq, beq_iff_eq, eq_comm]
      have hrest := ih fun b hb => h b (List.mem_cons_of_mem a hb)
      have hsplit : ∀ b, ((a :: l).countP fun a => key a == b && p a) =
          (l.countP fun a => key a == b && p a) + (key a == b && p a).toNat := fun b => by
        rw [List.countP_cons]
        cases key a == b && p a <;> rfl
      rw [List.countP_cons]
      simp only [hsplit, total_add, hone, hrest]
      cases p a <;> rfl

/-! ## Tables by key

The same for a table that is a function on finitely many keys, as the nodes of a cluster are. -/

section Update

variable {κ : Type v} [DecidableEq κ] {w : α → Nat} {keys : List κ} {k : κ}

theorem total_update_of_not_mem (f : κ → α) (a : α) (hk : k ∉ keys) :
    total (fun i => w (Function.update f k a i)) keys = total (fun i => w (f i)) keys := by
  rw [total, total, List.map_congr_left]
  intro i hi
  have hne : i ≠ k := by
    rintro rfl
    exact hk hi
  rw [Function.update_of_ne hne]

/-- Overwriting the entry of a key trades its weight for the new one. -/
theorem total_update (f : κ → α) (a : α) (hnodup : keys.Nodup) (hk : k ∈ keys) :
    total (fun i => w (Function.update f k a i)) keys + w (f k) =
      total (fun i => w (f i)) keys + w a := by
  induction keys with
  | nil => cases hk
  | cons i keys ih =>
      obtain ⟨hi, hnodup⟩ := List.nodup_cons.mp hnodup
      rw [total_cons, total_cons]
      obtain rfl | hne := eq_or_ne i k
      · rw [total_update_of_not_mem f a hi, Function.update_self]
        omega
      · have := ih hnodup ((List.mem_cons.mp hk).resolve_left hne.symm)
        rw [Function.update_of_ne hne]
        omega

theorem total_update_le (f : κ → α) {a : α} {n : Nat} (hnodup : keys.Nodup)
    (h : w a ≤ w (f k) + n) :
    total (fun i => w (Function.update f k a i)) keys ≤ total (fun i => w (f i)) keys + n := by
  by_cases hk : k ∈ keys
  · have htraded := total_update (w := w) f a hnodup hk
    omega
  · rw [total_update_of_not_mem f a hk]
    exact Nat.le_add_right ..

end Update

end Table
