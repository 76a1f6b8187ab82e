/-
# Finite maps with unique keys

`HashMap K V` is Mathlib's `AList` at a constant family of types: a list of entries whose keys are
pairwise distinct, the distinctness carried by the value.  To its `lookup`, `insert` and `erase`
this module adds what a hash map of a systems language is used for besides: an `insert` whose
treatment of a present key is a parameter, and one pass over all entries that changes or drops each
of them on its own.
-/
import Mathlib.Data.List.AList

universe u v w

/-- A finite map: entries with pairwise distinct keys. -/
abbrev HashMap (K : Type u) (V : Type v) := AList fun _ : K => V

namespace HashMap

variable {K : Type u} {V : Type v} [DecidableEq K]

/-- Insertion by a map whose library either overwrites the value of a present key or keeps it. -/
def put (overwrites : Bool) (k : K) (v : V) (m : HashMap K V) : HashMap K V :=
  if overwrites ∨ m.lookup k = none then m.insert k v else m

/-- On an absent key both kinds of insertion are the same. -/
theorem put_of_absent {overwrites : Bool} {k : K} {v : V} {m : HashMap K V}
    (h : m.lookup k = none) : put overwrites k v m = m.insert k v := by
  simp [put, h]

theorem lookup_put_ne {overwrites : Bool} {k k' : K} {v : V} {m : HashMap K V} (h : k' ≠ k) :
    (put overwrites k v m).lookup k' = m.lookup k' := by
  unfold put
  split
  · exact AList.lookup_insert_ne h
  · rfl

/-- What is found after an insertion is the new value or was there before. -/
theorem lookup_put_cases {overwrites : Bool} {k k' : K} {v v' : V} {m : HashMap K V}
    (h : (put overwrites k v m).lookup k' = some v') : k' = k ∧ v' = v ∨ m.lookup k' = some v' := by
  by_cases hk : k' = k
  · subst hk
    unfold put at h
    split at h
    · rw [AList.lookup_insert] at h
      exact .inl ⟨rfl, (Option.some.inj h).symm⟩
    · exact .inr h
  · rw [lookup_put_ne hk] at h
    exact .inr h

theorem lookup_erase_eq (k k' : K) (m : HashMap K V) :
    (m.erase k).lookup k' = if k' = k then none else m.lookup k' := by
  split
  · next h => rw [h, AList.lookup_erase]
  · next h => exact AList.lookup_erase_ne h

theorem lookup_insert_eq (k k' : K) (v : V) (m : HashMap K V) :
    (m.insert k v).lookup k' = if k' = k then some v else m.lookup k' := by
  split
  · next h => rw [h, AList.lookup_insert]
  · next h => exact AList.lookup_insert_ne h

/-- A map in which no key is present has no entries. -/
theorem entries_eq_nil {m : HashMap K V} (h : ∀ k, m.lookup k = none) : m.entries = [] := by
  rw [List.eq_nil_iff_forall_not_mem]
  intro e he
  refine AList.lookup_eq_none.mp (h e.1) ?_
  exact List.mem_map_of_mem he

/-! ## What one key yields -/

/-- Of the results computed from all entries, those of one key come from its entry. -/
theorem filter_filterMap_dlookup {W : Type w} (f : V → Option W) (key : W → K)
    (l : List (Sigma fun _ : K => V)) (hl : l.NodupKeys)
    (hkey : ∀ e ∈ l, ∀ w, f e.2 = some w → key w = e.1) (k : K) :
    ((l.map fun e => e.2).filterMap f).filter (fun w => decide (key w = k)) =
      ((l.dlookup k).bind f).toList := by
  induction l with
  | nil => rfl
  | cons e l ih =>
      obtain ⟨a, b⟩ := e
      have hnew : a ∉ l.keys := (List.nodupKeys_cons.mp hl).1
      have hrest := ih (List.nodupKeys_cons.mp hl).2 fun e he => hkey e (List.mem_cons_of_mem _ he)
      have hhead := hkey ⟨a, b⟩ (List.mem_cons_self ..)
      rw [List.map_cons]
      by_cases hk : k = a
      · subst hk
        rw [List.dlookup_eq_none.mpr hnew] at hrest
        rw [List.dlookup_cons_eq]
        cases hf : f b with
        | none => simpa [List.filterMap_cons, hf] using hrest
        | some w => simpa [List.filterMap_cons, hf, hhead w hf] using hrest
      · rw [List.dlookup_cons_ne l ⟨a, b⟩ hk]
        cases hf : f b with
        | none => simpa [List.filterMap_cons, hf] using hrest
        | some w =>
            have hne : ¬key w = k := by
              rw [hhead w hf]
              exact fun h => hk h.symm
            simpa [List.filterMap_cons, hf, hne] using hrest

/-! ## A pass over all entries -/

/-- The entries a pass keeps, each with its new value. -/
def passEntries (f : K → V → Option V) (l : List (Sigma fun _ : K => V)) :
    List (Sigma fun _ : K => V) :=
  l.filterMap fun e => (f e.1 e.2).map fun v => ⟨e.1, v⟩

omit [DecidableEq K] in
theorem keys_passEntries_sublist (f : K → V → Option V) (l : List (Sigma fun _ : K => V)) :
    (passEntries f l).keys.Sublist l.keys := by
  induction l with
  | nil => exact .slnil
  | cons e l ih =>
      cases h : f e.1 e.2 with
      | none => simpa [passEntries, h] using ih.cons _
      | some v => simpa [passEntries, h] using ih.cons_cons e.1

/-- Change or drop every entry by a function of its key and value. -/
def pass (f : K → V → Option V) (m : HashMap K V) : HashMap K V where
  entries := passEntries f m.entries
  nodupKeys := (keys_passEntries_sublist f m.entries).nodup m.nodupKeys

theorem dlookup_passEntries (f : K → V → Option V) (l : List (Sigma fun _ : K => V))
    (hl : l.NodupKeys) (k : K) :
    (passEntries f l).dlookup k = (l.dlookup k).bind (f k) := by
  induction l with
  | nil => rfl
  | cons e l ih =>
      obtain ⟨a, b⟩ := e
      have hnew : a ∉ l.keys := (List.nodupKeys_cons.mp hl).1
      have hrest : l.NodupKeys := (List.nodupKeys_cons.mp hl).2
      by_cases hk : k = a
      · subst hk
        have habsent : l.dlookup k = none := List.dlookup_eq_none.mpr hnew
        cases h : f k b with
        | none => simpa [passEntries, h, habsent] using ih hrest
        | some v => simp [passEntries, h]
      · rw [List.dlookup_cons_ne l ⟨a, b⟩ hk, ← ih hrest]
        cases h : f a b with
        | none => simp [passEntries, h]
        | some v => simp [passEntries, h, hk]

/-- A pass acts on each key by itself. -/
theorem lookup_pass (f : K → V → Option V) (m : HashMap K V) (k : K) :
    (pass f m).lookup k = (m.lookup k).bind (f k) :=
  dlookup_passEntries f m.entries m.nodupKeys k

end HashMap
