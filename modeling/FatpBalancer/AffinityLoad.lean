/-
# What loading an affinity matrix leaves behind

`AffinityMatrix::load` resets the matrix after its checks and not before them, so that a rejected
value leaves what was learned in place; and it takes any value for a cell, one that is not a number
or not a 32-bit count by a default or modulo the word size, and a negative one as it is.

The contract of `load` has two halves, and the code keeps them on different inputs: after success
the matrix says what the value said, and after failure it is to be neutral.  Every early return of
the source comes before its `reset`, so that a failure leaves the matrix as it was; it is neutral
then only if it was so before.

The second part is about signs.  Cells are averages of ratios, which are not negative, and so is
what `save` wrote; but `load` takes any number for a cell, and with floats a product of zero and
infinity is no number.  What is needed of the loaded values is stated over the classes of `Floats`.
-/
import FatpBalancer.Floats
import FatpBalancer.Lib.Machine
import FatpBalancer.Persistence

universe u v

namespace FatpBalancer

open JsonValue

/-! ## Saved numbers -/

namespace JsonValue

variable {D : Type v}

def IsNumber (v : JsonValue D) : Prop := (∃ n, v = .int64 n) ∨ ∃ d, v = .double d

/-- An integer in the range of `uint32_t`. -/
def IsCount (v : JsonValue D) : Prop := ∃ n : Nat, n < 2 ^ 32 ∧ v = .int64 n

/-- The float is the saved number, cast. -/
def Saves {F : Type u} [FloatOps F] [DoubleOps D] [FloatCasts F D] (v : JsonValue D) (x : F) :
    Prop :=
  (∃ n, v = .int64 n ∧ x = FloatOps.ofInt64 n) ∨ ∃ d, v = .double d ∧ x = FloatCasts.toFloat d

/-- The count is the saved integer. -/
def SavesCount (v : JsonValue D) (o : Nat) : Prop := v = .int64 o

theorem getArray_eq_some {v : JsonValue D} {xs : JsonArray D} :
    v.getArray = some xs ↔ v = .array xs := by
  cases v <;> simp [getArray]

theorem getObject_eq_some {v : JsonValue D} {fs : JsonObject D} :
    v.getObject = some fs ↔ v = .object fs := by
  cases v <;> simp [getObject]

/-- A field has one value. -/
theorem array_unique {v : Option (JsonValue D)} {xs ys : JsonArray D} (h : v = some (.array xs))
    (h' : v = some (.array ys)) : ys = xs :=
  JsonValue.array.inj (Option.some.inj (h'.symm.trans h))

theorem object_unique {v : Option (JsonValue D)} {fs gs : JsonObject D} (h : v = some (.object fs))
    (h' : v = some (.object gs)) : gs = fs :=
  JsonValue.object.inj (Option.some.inj (h'.symm.trans h))

theorem getInt_eq_some {v : JsonValue D} {n : Int} : v.getInt = some n ↔ v = .int64 n := by
  cases v <;> simp [getInt]

variable {F : Type u} [FloatOps F] [DoubleOps D] [FloatCasts F D]

/-- A number is read as it was saved. -/
theorem IsNumber.saves {v : JsonValue D} (h : v.IsNumber) (default : F) :
    v.Saves (getFloat default v) := by
  rcases h with ⟨n, rfl⟩ | ⟨d, rfl⟩
  · exact Or.inl ⟨n, rfl, rfl⟩
  · exact Or.inr ⟨d, rfl, rfl⟩

theorem Saves.isNumber {v : JsonValue D} {x : F} (h : v.Saves x) : v.IsNumber := by
  rcases h with ⟨n, rfl, -⟩ | ⟨d, rfl, -⟩
  · exact Or.inl ⟨n, rfl⟩
  · exact Or.inr ⟨d, rfl⟩

omit [DoubleOps D] in
/-- A count is read as it was saved, and nothing else is. -/
theorem savesCount_getUInt32_iff {v : JsonValue D} (default : Nat) :
    v.SavesCount (getUInt32 default v) ↔ v.IsCount := by
  unfold SavesCount IsCount getUInt32
  constructor
  · intro h
    cases v with
    | int64 n =>
        refine ⟨toUInt32 n, ?_, ?_⟩
        · unfold toUInt32
          omega
        · exact h
    | _ => cases h
  · rintro ⟨n, hn, rfl⟩
    dsimp only [getInt]
    rw [toUInt32_of_lt hn]

end JsonValue

namespace AffinityMatrix

variable {F : Type u} [FloatOps F] {D : Type v}

/-! ## The checks -/

/-- What `load` checks of an object: the two sizes modulo the word size, and two arrays of the
right length. -/
structure Snapshot (config : AffinityMatrixConfig F) (obj : JsonObject D) (vals obs : JsonArray D) :
    Prop where
  maxNodes : ∃ n, find obj "maxNodes" = some (.int64 n) ∧ toUInt32 n = config.maxNodes
  maxJobClasses : ∃ n, find obj "maxJobClasses" = some (.int64 n) ∧
    toUInt32 n = config.maxJobClasses
  values : find obj "values" = some (.array vals)
  observations : find obj "observations" = some (.array obs)
  vals_length : vals.length = config.maxNodes * config.maxJobClasses
  obs_length : obs.length = config.maxNodes * config.maxJobClasses

theorem readU32_eq_some {obj : JsonObject D} {key : String} {n : Nat} :
    readU32 obj key = some n ↔ ∃ i, find obj key = some (.int64 i) ∧ toUInt32 i = n := by
  unfold readU32
  rw [Option.map_eq_some_iff]
  constructor
  · rintro ⟨i, hi, rfl⟩
    obtain ⟨v, hv, hint⟩ := Option.bind_eq_some_iff.mp hi
    rw [getInt_eq_some.mp hint] at hv
    exact ⟨i, hv, rfl⟩
  · rintro ⟨i, hi, rfl⟩
    exact ⟨i, by rw [hi]; rfl, rfl⟩

theorem find_getArray_eq_some {obj : JsonObject D} {key : String} {xs : JsonArray D} :
    (find obj key).bind getArray = some xs ↔ find obj key = some (.array xs) := by
  rw [Option.bind_eq_some_iff]
  constructor
  · rintro ⟨v, hv, hxs⟩
    rw [hv, getArray_eq_some.mp hxs]
  · intro h
    exact ⟨_, h, rfl⟩

/-- The saved cell at a position inside. -/
theorem Snapshot.cell {config : AffinityMatrixConfig F} {obj : JsonObject D}
    {vals obs : JsonArray D} {r c : Nat} (h : Snapshot config obj vals obs)
    (hr : r < config.maxNodes) (hc : c < config.maxJobClasses) :
    ∃ v o, vals[r * config.maxJobClasses + c]? = some v ∧
      obs[r * config.maxJobClasses + c]? = some o := by
  have hindex := RowMajor.index_lt hr hc
  have hvals := hindex
  have hobs := hindex
  rw [← h.vals_length] at hvals
  rw [← h.obs_length] at hobs
  exact ⟨_, _, List.getElem?_eq_getElem hvals, List.getElem?_eq_getElem hobs⟩

theorem Snapshot.unique {config : AffinityMatrixConfig F} {obj : JsonObject D}
    {vals obs vals' obs' : JsonArray D} (h : Snapshot config obj vals obs)
    (h' : Snapshot config obj vals' obs') : vals' = vals ∧ obs' = obs :=
  ⟨array_unique h.values h'.values, array_unique h.observations h'.observations⟩

variable [DoubleOps D] [FloatCasts F D]

/-- `load` succeeds on the objects that pass the checks. -/
theorem loadCells_eq_some_iff {a a' : AffinityMatrix F} {j : JsonValue D} :
    a.loadCells j = some a' ↔
      ∃ obj vals obs, j = .object obj ∧ Snapshot a.mConfig obj vals obs ∧
        a' = a.fill vals obs := by
  unfold loadCells
  simp only [Option.bind_eq_some_iff, getObject_eq_some, readU32_eq_some]
  constructor
  · rintro ⟨obj, rfl, savedNodes, hnodes, savedClasses, hclasses, h⟩
    split at h
    · cases h
    · next hshape =>
        rw [not_or, not_not, not_not] at hshape
        obtain ⟨vals, hvals, obs, hobs, h⟩ := by simpa only [Option.bind_eq_some_iff] using h
        split at h
        · cases h
        · next hlength =>
            rw [not_or, not_not, not_not] at hlength
            refine ⟨obj, vals, obs, rfl, ⟨?_, ?_, ?_, ?_, hlength.1, hlength.2⟩,
              (Option.some.inj h).symm⟩
            · exact hshape.1 ▸ hnodes
            · exact hshape.2 ▸ hclasses
            · exact find_getArray_eq_some.mp (Option.bind_eq_some_iff.mpr hvals)
            · exact find_getArray_eq_some.mp (Option.bind_eq_some_iff.mpr hobs)
  · rintro ⟨obj, vals, obs, rfl, h, rfl⟩
    refine ⟨obj, rfl, _, h.maxNodes, _, h.maxJobClasses, ?_⟩
    rw [if_neg (by simp), find_getArray_eq_some.mpr h.values, Option.bind_some,
      find_getArray_eq_some.mpr h.observations, Option.bind_some]
    exact if_neg (by simp [h.vals_length, h.obs_length])

/-- An object that passes the checks is what the matrix is filled from. -/
theorem load_of_snapshot {a : AffinityMatrix F} {obj : JsonObject D} {vals obs : JsonArray D}
    (h : Snapshot a.mConfig obj vals obs) : a.load (.object obj) = (true, a.fill vals obs) := by
  unfold load
  rw [loadCells_eq_some_iff.mpr ⟨obj, vals, obs, rfl, h, rfl⟩]

/-- **A rejected value changes nothing.**  The `reset()` of the source comes after the checks. -/
theorem load_of_not_snapshot {a : AffinityMatrix F} {j : JsonValue D}
    (h : ¬∃ obj vals obs, j = .object obj ∧ Snapshot a.mConfig obj vals obs) :
    a.load j = (false, a) := by
  have hnone : a.loadCells j = none := by
    rw [Option.eq_none_iff_forall_ne_some]
    intro a' ha'
    obtain ⟨obj, vals, obs, hj, hsnapshot, -⟩ := loadCells_eq_some_iff.mp ha'
    exact h ⟨obj, vals, obs, hj, hsnapshot⟩
  unfold load
  rw [hnone]

/-- The two ends of a load. -/
theorem load_cases (a : AffinityMatrix F) (j : JsonValue D) :
    (∃ obj vals obs, j = .object obj ∧ Snapshot a.mConfig obj vals obs ∧
      a.load j = (true, a.fill vals obs)) ∨
    (¬∃ obj vals obs, j = .object obj ∧ Snapshot a.mConfig obj vals obs) ∧
      a.load j = (false, a) := by
  by_cases hsnapshot : ∃ obj vals obs, j = .object obj ∧ Snapshot a.mConfig obj vals obs
  · obtain ⟨obj, vals, obs, rfl, h⟩ := hsnapshot
    exact Or.inl ⟨obj, vals, obs, rfl, h, load_of_snapshot h⟩
  · exact Or.inr ⟨hsnapshot, load_of_not_snapshot hsnapshot⟩

theorem load_mConfig (a : AffinityMatrix F) (j : JsonValue D) :
    (a.load j).2.mConfig = a.mConfig := by
  rcases a.load_cases j with ⟨obj, vals, obs, rfl, -, hload⟩ | ⟨-, hload⟩
  · rw [hload]
    rfl
  · rw [hload]

/-! ## The cells -/

/-- Every cell is neutral. -/
def Neutral (a : AffinityMatrix F) : Prop :=
  ∀ r c, r < a.mConfig.maxNodes → c < a.mConfig.maxJobClasses →
    a.mValues r c = FloatOps.lit 1 ∧ a.mObservations r c = 0

/-- Every cell is the corresponding saved one. -/
def Restores (a : AffinityMatrix F) (j : JsonValue D) : Prop :=
  ∃ obj vals obs, j = .object obj ∧ find obj "values" = some (.array vals) ∧
    find obj "observations" = some (.array obs) ∧
    ∀ r c, r < a.mConfig.maxNodes → c < a.mConfig.maxJobClasses →
      ∃ v o, vals[r * a.mConfig.maxJobClasses + c]? = some v ∧
        obs[r * a.mConfig.maxJobClasses + c]? = some o ∧
        v.Saves (a.mValues r c) ∧ o.SavesCount (a.mObservations r c)

theorem neutral_reset (a : AffinityMatrix F) : a.reset.Neutral := fun _ _ _ _ => ⟨rfl, rfl⟩

section

variable {a : AffinityMatrix F} {obj : JsonObject D} {vals obs : JsonArray D} {r c : Nat}

theorem fill_mValues (hr : r < a.mConfig.maxNodes) (hc : c < a.mConfig.maxJobClasses)
    {v : JsonValue D} (hv : vals[r * a.mConfig.maxJobClasses + c]? = some v) :
    (a.fill vals obs).mValues r c = getFloat (FloatOps.lit 1) v := by
  simp only [fill, if_pos (And.intro hr hc), List.getD_eq_getElem?_getD, hv, Option.getD_some]

theorem fill_mObservations (hr : r < a.mConfig.maxNodes) (hc : c < a.mConfig.maxJobClasses)
    {o : JsonValue D} (ho : obs[r * a.mConfig.maxJobClasses + c]? = some o) :
    (a.fill vals obs).mObservations r c = getUInt32 0 o := by
  simp only [fill, if_pos (And.intro hr hc), List.getD_eq_getElem?_getD, ho, Option.getD_some]

/-- A filled matrix restores the arrays exactly when they hold numbers and counts. -/
theorem restores_fill_iff (h : Snapshot a.mConfig obj vals obs) :
    (a.fill vals obs).Restores (.object obj) ↔
      (∀ v ∈ vals, v.IsNumber) ∧ ∀ o ∈ obs, o.IsCount := by
  constructor
  · rintro ⟨obj', vals', obs', hj, hvals, hobs, hcells⟩
    obtain rfl := JsonValue.object.inj hj
    obtain rfl := array_unique h.values hvals
    obtain rfl := array_unique h.observations hobs
    constructor
    · intro v hv
      -- every position of the array is that of a cell
      obtain ⟨i, hi, hget⟩ := List.mem_iff_getElem.mp hv
      obtain ⟨r, c, hr, hc, rfl⟩ := RowMajor.exists_cell (h.vals_length ▸ hi)
      obtain ⟨v', o', hv', -, hsaves, -⟩ := hcells r c hr hc
      obtain rfl : v' = v := by
        rw [← hget]
        exact (Option.some.inj ((List.getElem?_eq_getElem hi).symm.trans hv')).symm
      exact hsaves.isNumber
    · intro o ho
      obtain ⟨i, hi, hget⟩ := List.mem_iff_getElem.mp ho
      obtain ⟨r, c, hr, hc, rfl⟩ := RowMajor.exists_cell (h.obs_length ▸ hi)
      obtain ⟨v', o', -, ho', -, hsaves⟩ := hcells r c hr hc
      obtain rfl : o' = o := by
        rw [← hget]
        exact (Option.some.inj ((List.getElem?_eq_getElem hi).symm.trans ho')).symm
      rw [fill_mObservations hr hc ho'] at hsaves
      exact (savesCount_getUInt32_iff 0).mp hsaves
  · rintro ⟨hnumbers, hcounts⟩
    refine ⟨obj, vals, obs, rfl, h.values, h.observations,
      fun r c (hr : r < a.mConfig.maxNodes) (hc : c < a.mConfig.maxJobClasses) => ?_⟩
    obtain ⟨v, o, hv, ho⟩ := h.cell hr hc
    refine ⟨v, o, hv, ho, ?_, ?_⟩
    · rw [fill_mValues hr hc hv]
      exact (hnumbers v (List.mem_of_getElem? hv)).saves _
    · rw [fill_mObservations hr hc ho]
      exact (savesCount_getUInt32_iff 0).mpr (hcounts o (List.mem_of_getElem? ho))

end

/-! ## The contract of `load` -/

/-- What the documentation of `load` promises. -/
structure LoadContract (a : AffinityMatrix F) (j : JsonValue D) : Prop where
  rejected : (a.load j).1 = false → (a.load j).2.Neutral
  accepted : (a.load j).1 = true → (a.load j).2.Restores j

/-- The value passes the checks and holds numbers and counts only, or fails a check while the matrix
is neutral. -/
def LoadsCleanly (a : AffinityMatrix F) (j : JsonValue D) : Prop :=
  (∃ obj vals obs, j = .object obj ∧ Snapshot a.mConfig obj vals obs ∧
    (∀ v ∈ vals, v.IsNumber) ∧ ∀ o ∈ obs, o.IsCount) ∨
  (¬∃ obj vals obs, j = .object obj ∧ Snapshot a.mConfig obj vals obs) ∧ a.Neutral

/-- **`load` keeps its contract on clean loads, and on no others.** -/
theorem loadContract_iff (a : AffinityMatrix F) (j : JsonValue D) :
    a.LoadContract j ↔ a.LoadsCleanly j := by
  rcases a.load_cases j with ⟨obj, vals, obs, rfl, h, hload⟩ | ⟨hsnapshot, hload⟩
  · have hrestores := restores_fill_iff h
    constructor
    · intro hcontract
      have hrestored := hcontract.accepted (by rw [hload])
      rw [hload] at hrestored
      exact Or.inl ⟨obj, vals, obs, rfl, h, hrestores.mp hrestored⟩
    · rintro (⟨obj', vals', obs', hj, h', hclean⟩ | ⟨hnone, -⟩)
      · obtain rfl := JsonValue.object.inj hj
        obtain ⟨rfl, rfl⟩ := h.unique h'
        refine ⟨fun hfalse => ?_, fun _ => ?_⟩
        · rw [hload] at hfalse
          cases hfalse
        · rw [hload]
          exact hrestores.mpr hclean
      · exact absurd ⟨obj, vals, obs, rfl, h⟩ hnone
  · constructor
    · intro hcontract
      have hneutral := hcontract.rejected (by rw [hload])
      rw [hload] at hneutral
      exact Or.inr ⟨hsnapshot, hneutral⟩
    · rintro (⟨obj, vals, obs, hj, h, -⟩ | ⟨-, hneutral⟩)
      · exact absurd ⟨obj, vals, obs, hj, h⟩ hsnapshot
      · refine ⟨fun _ => ?_, fun htrue => ?_⟩
        · rw [hload]
          exact hneutral
        · rw [hload] at htrue
          cases htrue

/-- A matrix of one cell that has seen a ratio of 2. -/
def oneCell : AffinityMatrix Rat :=
  (create { maxNodes := 1, maxJobClasses := 1, warmThreshold := 1 }).update 0 0 2

/-- **A rejected value leaves the learned cell in place.**  The number 42 is no object. -/
theorem rejected_keeps_learned :
    (oneCell.load (.int64 42 : JsonValue Rat)).1 = false ∧
      ¬oneCell.LoadContract (.int64 42 : JsonValue Rat) := by
  refine ⟨rfl, fun hcontract => ?_⟩
  have hneutral := (hcontract.rejected rfl 0 0 (by decide) (by decide)).2
  revert hneutral
  decide

end AffinityMatrix

/-! ## The sign of the cells -/

/-- The operations that change a matrix. -/
inductive AffinityOp (F : Type u) (D : Type v)
  | update (nodeIdx classIdx : Nat) (ratio : F)
  | reset
  | load (j : JsonValue D)

namespace AffinityMatrix

open Machine

variable {F : Type u} [FloatOps F] {D : Type v} [DoubleOps D] [FloatCasts F D]

/-- A matrix under any sequence of operations. -/
def runs (config : AffinityMatrixConfig F) : Machine (AffinityMatrix F) (AffinityOp F D) where
  init := create config
  step a
    | .update nodeIdx classIdx ratio => some (a.update nodeIdx classIdx ratio)
    | .reset => some a.reset
    | .load j => some (a.load j).2

/-- `x >= 0`: what is not a number is not. -/
def Nonnegative (x : F) : Prop := FloatOps.le (FloatOps.lit 0) x = true

instance (x : F) : Decidable (Nonnegative x) := inferInstanceAs (Decidable (_ = true))

/-- The ratios are not negative. -/
def RatioNonneg (_ : AffinityMatrix F) : AffinityOp F D → Prop
  | .update _ _ ratio => Nonnegative ratio
  | .reset | .load _ => True

section

variable [FloatValue F]

/-- The ratios are not negative, no infinite cell is updated at the rate 1, and no value that passes
the checks of `load` holds a number that is negative as a float. -/
def CellsNonneg (a : AffinityMatrix F) : AffinityOp F D → Prop
  | .update nodeIdx classIdx ratio => Nonnegative ratio ∧
      (FloatOps.lt a.mConfig.alpha (FloatOps.lit 1) = true ∨
        FloatValue.value (a.mValues (a.clampRow nodeIdx) (a.clampCol classIdx)) ≠ some ⊤)
  | .reset => True
  | .load j => ∀ obj vals obs, j = .object obj → Snapshot a.mConfig obj vals obs →
      ∀ v ∈ vals, ∀ x : F, v.Saves x → Nonnegative x

variable [FloatSigns F] {config : AffinityMatrixConfig F} {a : AffinityMatrix F}

theorem nonnegative_one : Nonnegative (FloatOps.lit 1 : F) := FloatSigns.zero_le_one

theorem update_nonneg (hpos : FloatOps.lt (FloatOps.lit 0) a.mConfig.alpha = true)
    (hle : FloatOps.le a.mConfig.alpha (FloatOps.lit 1) = true) {nodeIdx classIdx : Nat} {ratio : F}
    (hop : CellsNonneg (D := D) a (.update nodeIdx classIdx ratio))
    (h : ∀ r c, Nonnegative (a.mValues r c)) (r c : Nat) :
    Nonnegative ((a.update nodeIdx classIdx ratio).mValues r c) := by
  simp only [update, setCell_apply]
  split
  · exact FloatSigns.emaStep_nonneg hpos hle hop.1 (h _ _) hop.2
  · exact h r c

omit [FloatValue F] [FloatSigns F] in
/-- A cell that is read from a value: the number in it, or 1. -/
theorem getFloat_nonneg {v : JsonValue D} (hone : Nonnegative (FloatOps.lit 1 : F))
    (h : ∀ x : F, v.Saves x → Nonnegative x) : Nonnegative (getFloat (FloatOps.lit 1 : F) v) := by
  cases v with
  | int64 n => exact h _ (Or.inl ⟨n, rfl, rfl⟩)
  | double d => exact h _ (Or.inr ⟨d, rfl, rfl⟩)
  | _ => exact hone

theorem load_nonneg {j : JsonValue D} (hj : CellsNonneg a (.load j))
    (h : ∀ r c, Nonnegative (a.mValues r c)) (r c : Nat) :
    Nonnegative ((a.load j).2.mValues r c) := by
  rcases a.load_cases j with ⟨obj, vals, obs, rfl, hs, hload⟩ | ⟨-, hload⟩
  · rw [hload]
    by_cases hinside : r < a.mConfig.maxNodes ∧ c < a.mConfig.maxJobClasses
    · obtain ⟨v, o, hv, -⟩ := hs.cell hinside.1 hinside.2
      rw [fill_mValues hinside.1 hinside.2 hv]
      exact getFloat_nonneg nonnegative_one (hj obj vals obs rfl hs v (List.mem_of_getElem? hv))
    · have hout : (a.fill vals obs).mValues r c = FloatOps.lit 1 := if_neg hinside
      rw [hout]
      exact nonnegative_one
  · rw [hload]
    exact h r c

omit [FloatValue F] [FloatSigns F] in
theorem config_step (a : AffinityMatrix F) (op : AffinityOp F D) {a' : AffinityMatrix F}
    (h : (runs config).step a op = some a') : a'.mConfig = a.mConfig := by
  cases op with
  | update | reset =>
      obtain rfl := Option.some.inj h
      rfl
  | load j =>
      obtain rfl := Option.some.inj h
      exact a.load_mConfig j

/-- **No cell becomes negative while no negative cell is loaded** and no infinite one is updated at
the rate 1.  With a rate in (0, 1], in every state reached by updates with ratios that are not
negative, resets, and loads of any values that hold no negative number where they pass the checks. -/
theorem cells_nonneg (hpos : FloatOps.lt (FloatOps.lit 0) config.alpha = true)
    (hle : FloatOps.le config.alpha (FloatOps.lit 1) = true)
    (ha : (runs (D := D) config).Reach CellsNonneg a) :
    (∀ r c, Nonnegative (a.mValues r c)) ∧
      ∀ nodeIdx classIdx, Nonnegative (a.get nodeIdx classIdx) := by
  have hinv : a.mConfig = config ∧ ∀ r c, Nonnegative (a.mValues r c) := by
    refine ha.invariant (I := fun a => a.mConfig = config ∧ ∀ r c, Nonnegative (a.mValues r c))
      ⟨rfl, fun _ _ => nonnegative_one⟩ fun {s s'} op _ h hop hstep => ?_
    obtain ⟨hconfig, hcells⟩ := h
    refine ⟨(config_step s op hstep).trans hconfig, ?_⟩
    cases op with
    | update nodeIdx classIdx ratio =>
        obtain rfl := Option.some.inj hstep
        rw [← hconfig] at hpos hle
        exact update_nonneg hpos hle hop hcells
    | reset =>
        obtain rfl := Option.some.inj hstep
        exact fun _ _ => nonnegative_one
    | load j =>
        obtain rfl := Option.some.inj hstep
        exact load_nonneg hop hcells
  refine ⟨hinv.2, fun nodeIdx classIdx => ?_⟩
  unfold get
  split
  · exact nonnegative_one
  · exact hinv.2 _ _

end

/-- A snapshot of a matrix of one cell, with the number in it as given. -/
def oneCellSnapshot (value : Int) : JsonValue Float :=
  .object
    [("maxNodes", .int64 1), ("maxJobClasses", .int64 1), ("values", .array [.int64 value]),
     ("observations", .array [.int64 10])]

def oneCellConfig : AffinityMatrixConfig Float32 := { maxNodes := 1, maxJobClasses := 1 }

theorem snapshot_oneCell (value : Int) :
    ∃ obj, oneCellSnapshot value = .object obj ∧
      Snapshot oneCellConfig obj [.int64 value] [.int64 10] :=
  ⟨_, rfl, ⟨1, rfl, rfl⟩, ⟨1, rfl, rfl⟩, rfl, rfl, rfl, rfl⟩

/-- Loading the number 3 and updating it with the ratio 2. -/
theorem cells_nonneg_three :
    Nonnegative ((((create oneCellConfig).load (oneCellSnapshot 3)).2.update 0 0
      (FloatOps.lit 2)).get 0 0) := by
  have hload : CellsNonneg (create oneCellConfig) (.load (oneCellSnapshot 3)) := by
    intro obj vals obs hobj hs v hv x hx
    obtain ⟨obj', hobj', hs'⟩ := snapshot_oneCell 3
    obtain rfl := JsonValue.object.inj (hobj'.symm.trans hobj)
    obtain ⟨rfl, -⟩ := hs.unique hs'
    obtain rfl := List.mem_singleton.mp hv
    rcases hx with ⟨n, hn, rfl⟩ | ⟨d, hd, -⟩
    · obtain rfl := JsonValue.int64.inj hn
      decide +kernel
    · cases hd
  have hupdate : CellsNonneg (D := Float) ((create oneCellConfig).load (oneCellSnapshot 3)).2
      (.update 0 0 (FloatOps.lit 2)) := by
    refine ⟨by decide +kernel, .inl ?_⟩
    rw [load_mConfig]
    decide +kernel
  have hreach : (runs (D := Float) oneCellConfig).Reach CellsNonneg
      (((create oneCellConfig).load (oneCellSnapshot 3)).2.update 0 0 (FloatOps.lit 2)) :=
    .step (.update 0 0 (FloatOps.lit 2)) (.step (.load (oneCellSnapshot 3)) .init hload rfl)
      hupdate rfl
  exact (cells_nonneg (by decide +kernel) (by decide +kernel) hreach).2 0 0

/-- At the rate 1 an infinite cell becomes no number: zero times infinity is added to the ratio. -/
example : ¬Nonnegative
    ((((create ({ oneCellConfig with alpha := FloatOps.lit 1 } : AffinityMatrixConfig Float32)).update
      0 0 (FloatOps.lit (10 ^ 39))).update 0 0 (FloatOps.lit 1)).mValues 0 0) := by
  decide +kernel

/-- **A negative cell is loaded as it is.** -/
theorem negative_cell_loaded :
    FloatOps.lt (FloatOps.lit 0) oneCellConfig.alpha = true ∧
      FloatOps.le oneCellConfig.alpha (FloatOps.lit 1) = true ∧
      (runs (D := Float) oneCellConfig).Reach RatioNonneg
        ((create oneCellConfig).load (oneCellSnapshot (-1))).2 ∧
      ((create oneCellConfig).load (oneCellSnapshot (-1))).2.get 0 0 = FloatOps.ofInt64 (-1) ∧
      ¬Nonnegative (((create oneCellConfig).load (oneCellSnapshot (-1))).2.get 0 0) := by
  have hget : ((create oneCellConfig).load (oneCellSnapshot (-1))).2.get 0 0 =
      FloatOps.ofInt64 (-1) := by
    obtain ⟨obj, hobj, hs⟩ := snapshot_oneCell (-1)
    rw [hobj, load_of_snapshot (a := create oneCellConfig) hs]
    rfl
  refine ⟨by decide +kernel, by decide +kernel, ?_, hget, ?_⟩
  · exact .step (.load (oneCellSnapshot (-1))) .init trivial rfl
  · rw [hget]
    decide +kernel

end AffinityMatrix

end FatpBalancer
