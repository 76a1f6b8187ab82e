/-
# What loading a cost model accepts and leaves behind

Every exit of `CostModel::load` but the one for a file that does not open clears the model, and a
successful load replaces all that was learned.  What counts as a snapshot is decided by the checks
that are made, which is less than the format: fields of the wrong type, missing or surplus buckets
and keys that only begin with a number are let through.  What `save` writes is in the format.

Two questions are answered here.

* What a call leaves behind: `LoadContract` is what the documentation promises of success and of
  failure, for any model and any file.
* What it accepts: `PassesChecks` is what the code tests, read off `parse` by an exact lemma for
  each part; `WellFormed` is the format, independently of the code; `LaxParts` lists the ways in
  which the first is weaker than the second.  A document passes if it is well formed or lax, and a
  well-formed one is not lax.

What `save` writes is well formed, so the laxities concern texts from elsewhere.
-/
import FatpBalancer.AffinityLoad
import FatpBalancer.Calibration
import FatpBalancer.RoundTrip

universe u v w

namespace FatpBalancer

open JsonValue

variable {F : Type u} [FloatOps F] {D : Type v} {Text : Type w}

/-! ## What is left behind

The file is its text, or `none` when it does not open; all else is decided by the text and the
configuration. -/

namespace CostModel

/-- No node is known and every cell is neutral. -/
def ColdStart (m : CostModel F) : Prop :=
  (∀ node, m.mNodeStates.lookup node = none) ∧ m.mAffinityMatrix.Neutral

/-- The two models are configured alike. -/
structure SameConfig (m m' : CostModel F) : Prop where
  mConfig : m'.mConfig = m.mConfig
  affinity : m'.mAffinityMatrix.mConfig = m.mAffinityMatrix.mConfig

/-- The same node states and the same cells. -/
structure SameLearned (m m' : CostModel F) : Prop where
  mNodeStates : m'.mNodeStates = m.mNodeStates
  mAffinityMatrix : m'.mAffinityMatrix = m.mAffinityMatrix

/-- What `reset` leaves is cold. -/
theorem coldStart_reset (m : CostModel F) : m.reset.ColdStart :=
  ⟨fun _ => rfl, AffinityMatrix.neutral_reset _⟩

variable [DoubleOps D] [FloatCasts F D]

/-- What the documentation of `load` promises: success leaves what the file says, whatever there was
before, and failure leaves nothing. -/
structure LoadContract (json : JsonText Text D) (m : CostModel F) (file : Option Text) : Prop where
  loaded : ∀ s, load json m file = (.ok (), s) → ∀ m', SameConfig m m' →
    ∃ s', load json m' file = (.ok (), s') ∧ SameLearned s s'
  failed : ∀ e s, load json m file = (.error e, s) → s.ColdStart

/-- A text that does not parse leaves a reset model. -/
theorem load_of_parse_error {json : JsonText Text D} {m : CostModel F} {content : Text}
    {e : PersistError} (h : parse json m.mConfig content = .error e) :
    load json m (some content) = (.error e, m.reset) := by
  simp only [load, h]

/-- A text that parses leaves what it says. -/
theorem load_of_parse_ok {json : JsonText Text D} {m : CostModel F} {content : Text}
    {r : AffinityMatrix F × HashMap NodeId (NodeLearningState F)}
    (h : parse json m.mConfig content = .ok r) :
    load json m (some content) =
      (.ok (),
        { m with
          mNodeStates := r.2
          mAffinityMatrix := (m.mAffinityMatrix.reset.load (r.1.save D)).2 }) := by
  unfold load
  dsimp only
  rw [h]

/-- A file that opens is loaded as promised: all depends on the configuration and the content. -/
theorem loadContract_some (json : JsonText Text D) (m : CostModel F) (content : Text) :
    LoadContract json m (some content) := by
  cases hparse : parse json m.mConfig content with
  | error e =>
      have hload := load_of_parse_error hparse
      refine ⟨fun s hs => ?_, fun e' s hs => ?_⟩
      · rw [hload] at hs
        cases hs
      · rw [hload] at hs
        obtain ⟨-, rfl⟩ := Prod.mk.inj hs
        exact coldStart_reset m
  | ok r =>
      have hload := load_of_parse_ok hparse
      refine ⟨fun s hs m' hsame => ?_, fun e s hs => ?_⟩
      · rw [hload] at hs
        obtain ⟨-, rfl⟩ := Prod.mk.inj hs
        rw [← hsame.mConfig] at hparse
        have hload' := load_of_parse_ok hparse
        have hreset : m'.mAffinityMatrix.reset = m.mAffinityMatrix.reset := by
          unfold AffinityMatrix.reset
          rw [hsame.affinity]
        rw [hreset] at hload'
        exact ⟨_, hload', rfl, rfl⟩
      · rw [hload] at hs
        cases hs

/-- **`load` keeps its contract unless the file does not open and something was learned.** -/
theorem model_load_contract_iff (json : JsonText Text D) (m : CostModel F) (file : Option Text) :
    LoadContract json m file ↔ file ≠ none ∨ m.ColdStart := by
  cases file with
  | none =>
      constructor
      · intro h
        exact Or.inr (h.failed .fileOpenFailed m rfl)
      · rintro (hfile | hcold)
        · exact absurd rfl hfile
        · refine ⟨fun s hs => ?_, fun e s hs => ?_⟩
          · cases hs
          · obtain ⟨-, rfl⟩ := Prod.mk.inj hs
            exact hcold
  | some content =>
      exact ⟨fun _ => Or.inl (Option.some_ne_none content), fun _ => loadContract_some json m content⟩

/-- **A missing file leaves the learned model in place.** -/
theorem missing_file_keeps_learned :
    (load (JsonText.tree Rat) (trained ({} : CostModelConfig Rat) [twiceAsSlow] true) none).1 =
        .error .fileOpenFailed ∧
      ¬LoadContract (JsonText.tree Rat) (trained ({} : CostModelConfig Rat) [twiceAsSlow] true)
        none := by
  refine ⟨rfl, fun h => ?_⟩
  have hknown := (h.failed .fileOpenFailed _ rfl).1 1
  cases hknown

end CostModel

/-! ## What is accepted

The checks of `parse`, in its own order: an object, its two sections, the dimensions of the matrix,
and the entries of the nodes one by one. -/

section

variable [DoubleOps D]

/-- What `load` checks of an entry of `nodes`. -/
def NodeChecks (f : String × JsonValue D) : Prop :=
  ∃ ns, f.2 = .object ns ∧ (find ns "throughputMultiplier").isSome = true ∧
    (find ns "observationCount").isSome = true ∧ (stoul f.1).isSome = true

/-- What `load` checks of a document. -/
def PassesChecks (mConfig : CostModelConfig F) (root : JsonValue D) : Prop :=
  ∃ rootObj affinity vals obs nodes, root = .object rootObj ∧
    find rootObj "affinity" = some (.object affinity) ∧
    AffinityMatrix.Snapshot mConfig.affinity affinity vals obs ∧
    find rootObj "nodes" = some (.object nodes) ∧ ∀ f ∈ nodes, NodeChecks f

variable [FloatCasts F D]

/-- A node state is loaded when its entry passes. -/
theorem nodeState_load_isSome (mConfig : CostModelConfig F) {ns : JsonObject D} :
    (NodeLearningState.load mConfig ns).isSome = true ↔
      (find ns "throughputMultiplier").isSome = true ∧
        (find ns "observationCount").isSome = true := by
  unfold NodeLearningState.load
  cases find ns "throughputMultiplier" <;> cases find ns "observationCount" <;> simp

/-- The node loop ends with a map when every entry passes. -/
theorem loadNodes_isSome_iff (mConfig : CostModelConfig F)
    {tmpNodes : HashMap NodeId (NodeLearningState F)} {nodes : JsonObject D} :
    (loadNodes mConfig tmpNodes nodes).isSome = true ↔ ∀ f ∈ nodes, NodeChecks f := by
  induction nodes generalizing tmpNodes with
  | nil => simp [loadNodes]
  | cons f nodes ih =>
      obtain ⟨key, value⟩ := f
      rw [List.forall_mem_cons, loadNodes]
      constructor
      · intro h
        obtain ⟨tmp, hload⟩ := Option.isSome_iff_exists.mp h
        obtain ⟨state, hstate, hload⟩ := Option.bind_eq_some_iff.mp hload
        obtain ⟨ns, hns, hstate⟩ := Option.bind_eq_some_iff.mp hstate
        obtain ⟨n, hn, hload⟩ := Option.bind_eq_some_iff.mp hload
        have hfields := (nodeState_load_isSome mConfig).mp (Option.isSome_iff_exists.mpr ⟨state, hstate⟩)
        exact ⟨⟨ns, getObject_eq_some.mp hns, hfields.1, hfields.2,
          Option.isSome_iff_exists.mpr ⟨n, hn⟩⟩, ih.mp (Option.isSome_iff_exists.mpr ⟨tmp, hload⟩)⟩
      · rintro ⟨⟨ns, hns, htm, hoc, hkey⟩, hrest⟩
        obtain ⟨state, hstate⟩ := Option.isSome_iff_exists.mp
          ((nodeState_load_isSome mConfig).mpr ⟨htm, hoc⟩)
        obtain ⟨n, hn⟩ := Option.isSome_iff_exists.mp hkey
        dsimp only at hns hn
        rw [hns]
        simp only [getObject, Option.bind_some, hstate, hn]
        exact ih.mpr hrest

namespace CostModel

/-- A document is parsed when it passes the checks. -/
theorem parse_isOk_iff (json : JsonText Text D) (mConfig : CostModelConfig F) (content : Text) :
    (∃ r, parse json mConfig content = .ok r) ↔
      ∃ root, json.parse_json content = some root ∧ PassesChecks mConfig root := by
  constructor
  · rintro ⟨r, hr⟩
    unfold parse at hr
    split at hr
    · cases hr
    · next rootObj hroot =>
        obtain ⟨root, hparse, hobj⟩ := Option.bind_eq_some_iff.mp hroot
        obtain rfl := getObject_eq_some.mp hobj
        split at hr
        · cases hr
        · next affinity haffinity =>
            split at hr
            · cases hr
            · next tmpAffinity hload =>
                split at hr
                · cases hr
                · next tmpNodes hnodes =>
                    obtain ⟨nodes, hnodes, hloop⟩ := Option.bind_eq_some_iff.mp hnodes
                    obtain ⟨value, hvalue, hnodes⟩ := Option.bind_eq_some_iff.mp hnodes
                    obtain rfl := getObject_eq_some.mp hnodes
                    have hchecks := (loadNodes_isSome_iff mConfig).mp
                      (Option.isSome_iff_exists.mpr ⟨tmpNodes, hloop⟩)
                    rcases (AffinityMatrix.create mConfig.affinity).load_cases affinity with
                      ⟨obj, vals, obs, rfl, hs, -⟩ | ⟨-, hrejected⟩
                    · exact ⟨_, hparse, rootObj, obj, vals, obs, nodes, rfl, haffinity, hs, hvalue,
                        hchecks⟩
                    · rw [hrejected] at hload
                      cases hload
  · rintro ⟨root, hparse, rootObj, obj, vals, obs, nodes, rfl, haffinity, hs, hnodes, hchecks⟩
    have hsome : (loadNodes mConfig ∅ nodes).isSome = true :=
      (loadNodes_isSome_iff mConfig).mpr hchecks
    obtain ⟨tmpNodes, hloop⟩ := Option.isSome_iff_exists.mp hsome
    have hload := AffinityMatrix.load_of_snapshot (a := AffinityMatrix.create mConfig.affinity) hs
    refine ⟨((AffinityMatrix.create mConfig.affinity).fill vals obs, tmpNodes), ?_⟩
    unfold parse
    simp only [hparse, Option.bind_some, getObject, haffinity, hload, hnodes, hloop]

end CostModel

end

/-! ## The format

Written down from what `save` writes: which fields there are, of which types, and how many elements
each array has. -/

section

/-- The parts of a document. -/
structure Parts (root : JsonValue D) (affinity : JsonObject D) (vals obs : JsonArray D)
    (nodes : JsonObject D) : Prop where
  sections : ∃ rootObj, root = .object rootObj ∧
    find rootObj "affinity" = some (.object affinity) ∧ find rootObj "nodes" = some (.object nodes)
  values : find affinity "values" = some (.array vals)
  observations : find affinity "observations" = some (.array obs)

/-- A value and a 32-bit count. -/
def WellFormedBucket (b : JsonValue D) : Prop :=
  ∃ fs value count, b = .object fs ∧ find fs "value" = some value ∧ value.IsNumber ∧
    find fs "observations" = some count ∧ count.IsCount

/-- The fields of a node state, with as many buckets as are configured. -/
structure WellFormedState (mConfig : CostModelConfig F) (ns : JsonObject D) : Prop where
  throughputMultiplier : ∃ v, find ns "throughputMultiplier" = some v ∧ v.IsNumber
  observationCount : ∃ v, find ns "observationCount" = some v ∧ v.IsCount
  degradationBuckets : ∃ bkts, find ns "degradationBuckets" = some (.array bkts) ∧
    bkts.length = (DegradationCurve.configure {} mConfig.degradation).bucketCount ∧
    ∀ b ∈ bkts, WellFormedBucket b

/-- The decimal of a 32-bit number. -/
def CanonicalKey (key : String) : Prop := ∃ node : Nat, node < 2 ^ 32 ∧ key = toString node

/-- The two sections of a document. -/
structure WellFormedParts (mConfig : CostModelConfig F) (affinity : JsonObject D)
    (vals obs : JsonArray D) (nodes : JsonObject D) : Prop where
  maxNodes : find affinity "maxNodes" = some (.int64 mConfig.affinity.maxNodes)
  maxJobClasses : find affinity "maxJobClasses" = some (.int64 mConfig.affinity.maxJobClasses)
  vals_length : vals.length = mConfig.affinity.maxNodes * mConfig.affinity.maxJobClasses
  obs_length : obs.length = mConfig.affinity.maxNodes * mConfig.affinity.maxJobClasses
  vals : ∀ v ∈ vals, v.IsNumber
  obs : ∀ o ∈ obs, o.IsCount
  states : ∀ f ∈ nodes, ∃ ns, f.2 = .object ns ∧ WellFormedState mConfig ns
  keys : ∀ f ∈ nodes, CanonicalKey f.1
  once : (nodes.map Prod.fst).Nodup

/-- A snapshot for the configuration. -/
def WellFormed (mConfig : CostModelConfig F) (root : JsonValue D) : Prop :=
  ∃ affinity vals obs nodes, Parts root affinity vals obs nodes ∧
    WellFormedParts mConfig affinity vals obs nodes

/-- What `load` lets through although it is no part of the format. -/
inductive LaxParts (mConfig : CostModelConfig F) (affinity : JsonObject D) (vals obs : JsonArray D)
    (nodes : JsonObject D) : Prop
  | maxNodes : find affinity "maxNodes" ≠ some (.int64 mConfig.affinity.maxNodes) →
      LaxParts mConfig affinity vals obs nodes
  | maxJobClasses : find affinity "maxJobClasses" ≠ some (.int64 mConfig.affinity.maxJobClasses) →
      LaxParts mConfig affinity vals obs nodes
  | value {v : JsonValue D} : v ∈ vals → ¬v.IsNumber → LaxParts mConfig affinity vals obs nodes
  | observations {o : JsonValue D} : o ∈ obs → ¬o.IsCount → LaxParts mConfig affinity vals obs nodes
  | throughputMultiplier {key : String} {ns : JsonObject D} {v : JsonValue D} :
      (key, .object ns) ∈ nodes → find ns "throughputMultiplier" = some v → ¬v.IsNumber →
      LaxParts mConfig affinity vals obs nodes
  | observationCount {key : String} {ns : JsonObject D} {v : JsonValue D} :
      (key, .object ns) ∈ nodes → find ns "observationCount" = some v → ¬v.IsCount →
      LaxParts mConfig affinity vals obs nodes
  -- no array, or one of another length
  | degradationBuckets {key : String} {ns : JsonObject D} :
      (key, .object ns) ∈ nodes →
      (∀ bkts, find ns "degradationBuckets" = some (.array bkts) →
        bkts.length ≠ (DegradationCurve.configure {} mConfig.degradation).bucketCount) →
      LaxParts mConfig affinity vals obs nodes
  | bucket {key : String} {ns : JsonObject D} {bkts : JsonArray D} {b : JsonValue D} :
      (key, .object ns) ∈ nodes → find ns "degradationBuckets" = some (.array bkts) → b ∈ bkts →
      ¬WellFormedBucket b → LaxParts mConfig affinity vals obs nodes
  | key {f : String × JsonValue D} : f ∈ nodes → ¬CanonicalKey f.1 →
      LaxParts mConfig affinity vals obs nodes
  | twice : ¬(nodes.map Prod.fst).Nodup → LaxParts mConfig affinity vals obs nodes

/-- A document with a laxity in one of its parts. -/
def Lax (mConfig : CostModelConfig F) (root : JsonValue D) : Prop :=
  ∃ affinity vals obs nodes, Parts root affinity vals obs nodes ∧
    LaxParts mConfig affinity vals obs nodes

section

variable {mConfig : CostModelConfig F} {root : JsonValue D} {affinity : JsonObject D}
  {vals obs : JsonArray D} {nodes : JsonObject D}

/-- A document has one way to be taken apart. -/
theorem Parts.unique {affinity' : JsonObject D} {vals' obs' : JsonArray D} {nodes' : JsonObject D}
    (h : Parts root affinity vals obs nodes) (h' : Parts root affinity' vals' obs' nodes') :
    affinity' = affinity ∧ vals' = vals ∧ obs' = obs ∧ nodes' = nodes := by
  obtain ⟨rootObj, rfl, haffinity, hnodes⟩ := h.sections
  obtain ⟨rootObj', hroot, haffinity', hnodes'⟩ := h'.sections
  obtain rfl := JsonValue.object.inj hroot
  obtain rfl := object_unique haffinity haffinity'
  exact ⟨rfl, array_unique h.values h'.values, array_unique h.observations h'.observations,
    object_unique hnodes hnodes'⟩

/-- A node state that passes the checks and has no lax field is well formed. -/
theorem wellFormedState_of_checks (hlax : ¬LaxParts mConfig affinity vals obs nodes)
    {f : String × JsonValue D} (hf : f ∈ nodes) (hchecks : NodeChecks f) :
    ∃ ns, f.2 = .object ns ∧ WellFormedState mConfig ns := by
  obtain ⟨key, value⟩ := f
  obtain ⟨ns, hns, htm, hoc, -⟩ := hchecks
  obtain rfl : value = .object ns := hns
  obtain ⟨tm, htm⟩ := Option.isSome_iff_exists.mp htm
  obtain ⟨oc, hoc⟩ := Option.isSome_iff_exists.mp hoc
  refine ⟨ns, rfl, ⟨tm, htm, ?_⟩, ⟨oc, hoc, ?_⟩, ?_⟩
  · by_contra hnumber
    exact hlax (.throughputMultiplier hf htm hnumber)
  · by_contra hcount
    exact hlax (.observationCount hf hoc hcount)
  · by_contra hnone
    refine hlax (.degradationBuckets hf fun bkts hbkts hlength => hnone ⟨bkts, hbkts, hlength, ?_⟩)
    intro b hb
    by_contra hbucket
    exact hlax (.bucket hf hbkts hb hbucket)

/-- A well-formed document has nothing lax about it. -/
theorem WellFormedParts.not_lax (h : WellFormedParts mConfig affinity vals obs nodes) :
    ¬LaxParts mConfig affinity vals obs nodes := by
  have hstate : ∀ {key ns}, (key, JsonValue.object ns) ∈ nodes → WellFormedState mConfig ns := by
    intro key ns hmem
    obtain ⟨ns', hns, hstate⟩ := h.states _ hmem
    obtain rfl := JsonValue.object.inj hns
    exact hstate
  intro hlax
  cases hlax with
  | maxNodes hne => exact hne h.maxNodes
  | maxJobClasses hne => exact hne h.maxJobClasses
  | value hv hnumber => exact hnumber (h.vals _ hv)
  | observations ho hcount => exact hcount (h.obs _ ho)
  | throughputMultiplier hmem hv hnumber =>
      obtain ⟨v', hv', hnumber'⟩ := (hstate hmem).throughputMultiplier
      exact hnumber (Option.some.inj (hv.symm.trans hv') ▸ hnumber')
  | observationCount hmem hv hcount =>
      obtain ⟨v', hv', hcount'⟩ := (hstate hmem).observationCount
      exact hcount (Option.some.inj (hv.symm.trans hv') ▸ hcount')
  | degradationBuckets hmem hne =>
      obtain ⟨bkts, hbkts, hlength, -⟩ := (hstate hmem).degradationBuckets
      exact hne bkts hbkts hlength
  | bucket hmem hbkts hb hbucket =>
      obtain ⟨bkts', hbkts', -, hbuckets⟩ := (hstate hmem).degradationBuckets
      obtain rfl := array_unique hbkts hbkts'
      exact hbucket (hbuckets _ hb)
  | key hf hkey => exact hkey (h.keys _ hf)
  | twice hnodup => exact hnodup h.once

/-- The documents that pass the checks are the well-formed ones and the lax ones. -/
theorem PassesChecks.wellFormed_iff (h : PassesChecks mConfig root) :
    WellFormed mConfig root ↔ ¬Lax mConfig root := by
  constructor
  · rintro ⟨affinity, vals, obs, nodes, hparts, hformed⟩
    rintro ⟨affinity', vals', obs', nodes', hparts', hlax⟩
    obtain ⟨rfl, rfl, rfl, rfl⟩ := hparts.unique hparts'
    exact hformed.not_lax hlax
  · intro hlax
    obtain ⟨rootObj, affinity, vals, obs, nodes, hroot, haffinity, hsnapshot, hnodes, hchecks⟩ := h
    have hparts : Parts root affinity vals obs nodes :=
      ⟨⟨rootObj, hroot, haffinity, hnodes⟩, hsnapshot.values, hsnapshot.observations⟩
    have hlax : ¬LaxParts mConfig affinity vals obs nodes :=
      fun hparts' => hlax ⟨affinity, vals, obs, nodes, hparts, hparts'⟩
    refine ⟨affinity, vals, obs, nodes, hparts, ?_⟩
    exact {
      maxNodes := by_contra fun hne => hlax (.maxNodes hne)
      maxJobClasses := by_contra fun hne => hlax (.maxJobClasses hne)
      vals_length := hsnapshot.vals_length
      obs_length := hsnapshot.obs_length
      vals := fun v hv => by_contra fun hnumber => hlax (.value hv hnumber)
      obs := fun o ho => by_contra fun hcount => hlax (.observations ho hcount)
      states := fun f hf => wellFormedState_of_checks hlax hf (hchecks f hf)
      keys := fun f hf => by_contra fun hkey => hlax (.key hf hkey)
      once := by_contra fun hnodup => hlax (.twice hnodup) }

/-- Nothing well formed is rejected. -/
theorem WellFormed.passesChecks (hrows : mConfig.affinity.maxNodes < 2 ^ 32)
    (hcols : mConfig.affinity.maxJobClasses < 2 ^ 32) (h : WellFormed mConfig root) :
    PassesChecks mConfig root := by
  obtain ⟨affinity, vals, obs, nodes, hparts, hformed⟩ := h
  obtain ⟨rootObj, hroot, haffinity, hnodes⟩ := hparts.sections
  refine ⟨rootObj, affinity, vals, obs, nodes, hroot, haffinity, ?_, hnodes, fun f hf => ?_⟩
  · exact ⟨⟨_, hformed.maxNodes, toUInt32_of_lt hrows⟩,
      ⟨_, hformed.maxJobClasses, toUInt32_of_lt hcols⟩, hparts.values, hparts.observations,
      hformed.vals_length, hformed.obs_length⟩
  · obtain ⟨ns, hns, hstate⟩ := hformed.states f hf
    obtain ⟨tm, htm, -⟩ := hstate.throughputMultiplier
    obtain ⟨oc, hoc, -⟩ := hstate.observationCount
    obtain ⟨node, hnode, hkey⟩ := hformed.keys f hf
    have hread : stoul f.1 = some node := by
      rw [hkey]
      exact stoul_toString (Nat.lt_trans hnode (by decide))
    exact ⟨ns, hns, by rw [htm]; rfl, by rw [hoc]; rfl, by rw [hread]; rfl⟩

end

/-! ### What `save` writes

The text of a model that fits, read back, is in the format. -/

section Written

variable [DoubleOps D] [FloatCasts F D]

/-- A number is read back as a number. -/
theorem isNumber_readBack (d : D) : (JsonValue.double d).readBack.IsNumber := by
  rw [readBack, readBackDouble]
  split
  · exact Or.inl ⟨_, rfl⟩
  · exact Or.inr ⟨_, rfl⟩

omit [FloatCasts F D] in
/-- An integer as itself. -/
theorem readBack_toInt64 {n : Nat} (h : n < 2 ^ 32) :
    (JsonValue.int64 (toInt64 n) : JsonValue D).readBack = .int64 n := by
  rw [readBack, toInt64_of_lt (by omega)]

/-- A count as a count. -/
theorem isCount_readBack {n : Nat} (h : n < 2 ^ 32) :
    (JsonValue.int64 (toInt64 n) : JsonValue D).readBack.IsCount :=
  ⟨n, h, readBack_toInt64 h⟩

/-- A saved bucket is in the format. -/
theorem wellFormedBucket_textFields {b : Bucket F} (h : b.observations < 2 ^ 32) :
    WellFormedBucket (.object (b.textFields D)) :=
  ⟨_, _, _, rfl, find_readBackObject _ _, isNumber_readBack _, find_readBackObject _ _,
    isCount_readBack h⟩

/-- And so is a saved node state. -/
theorem wellFormedState_textFields {state : NodeLearningState F} {cfg : CostModelConfig F}
    (h : state.Saved cfg) : WellFormedState cfg (state.textFields D) := by
  refine ⟨⟨_, find_readBackObject _ _, isNumber_readBack _⟩,
    ⟨_, find_readBackObject _ _, isCount_readBack h.count_lt⟩, ?_⟩
  refine ⟨_, (find_readBackObject _ _).trans (congrArg some
    (getArray_eq_some.mp state.degradation.readBack_toJson)), ?_, fun b hb => ?_⟩
  · rw [List.length_map, List.length_ofFn]
    exact h.configured.bucketCount
  · obtain ⟨fs, hfs, rfl⟩ := List.mem_map.mp hb
    obtain ⟨i, rfl⟩ := List.mem_ofFn.mp hfs
    exact wellFormedBucket_textFields (h.fits.observations_lt _)

/-- Distinct nodes have distinct keys. -/
theorem nodup_textNodes {m : CostModel F} {cfg : CostModelConfig F} (h : m.Saved cfg) :
    ((m.textNodes D).map Prod.fst).Nodup := by
  have hkey : ∀ e ∈ m.mNodeStates.entries, stoul (toString e.1) = some e.1 := by
    intro e he
    have hlt := h.key_lt e.1 e.2 (AList.mem_lookup_iff.mpr he)
    exact stoul_toString (Nat.lt_trans hlt (by decide))
  rw [CostModel.textNodes, List.map_map]
  refine List.Nodup.map_on (fun e he e' he' heq => ?_) m.mNodeStates.nodupKeys.nodup
  -- a key that is read back says which node it was
  have hsame : stoul (toString e.1) = stoul (toString e'.1) := congrArg stoul heq
  rw [hkey e he, hkey e' he'] at hsame
  exact m.mNodeStates.nodupKeys.eq_of_fst_eq he he' (Option.some.inj hsame)

/-- The snapshot of a model that updates have reached is well formed, as it comes back. -/
theorem wellFormed_textFields {m : CostModel F} {cfg : CostModelConfig F} (h : m.Saved cfg)
    (hrows : cfg.affinity.maxNodes < 2 ^ 32) (hcols : cfg.affinity.maxJobClasses < 2 ^ 32) :
    WellFormed cfg (.object (m.textFields D)) := by
  rw [← h.affinityConfig] at hrows hcols
  refine ⟨_, _, _, m.textNodes D, ⟨⟨_, rfl, m.find_textFields_affinity, m.find_textFields_nodes⟩,
    (find_readBackObject _ _).trans (congrArg some (readBack_toList ..)),
    (find_readBackObject _ _).trans (congrArg some (readBack_toList ..))⟩, ?_⟩
  exact {
    maxNodes := by
      rw [← h.affinityConfig]
      exact (find_readBackObject _ _).trans (congrArg some (readBack_toInt64 hrows))
    maxJobClasses := by
      rw [← h.affinityConfig]
      exact (find_readBackObject _ _).trans (congrArg some (readBack_toInt64 hcols))
    vals_length := by
      rw [← h.affinityConfig]
      exact RowMajor.length_toList ..
    obs_length := by
      rw [← h.affinityConfig]
      exact RowMajor.length_toList ..
    vals := by
      intro v hv
      obtain ⟨r, c, rfl⟩ := RowMajor.mem_toList hv
      exact isNumber_readBack _
    obs := by
      intro o ho
      obtain ⟨r, c, rfl⟩ := RowMajor.mem_toList ho
      exact isCount_readBack (h.affinity.observations_lt r c)
    states := by
      intro f hf
      obtain ⟨e, he, rfl⟩ := List.mem_map.mp hf
      exact ⟨_, rfl, wellFormedState_textFields (h.state e.1 e.2 (AList.mem_lookup_iff.mpr he))⟩
    keys := by
      intro f hf
      obtain ⟨e, he, rfl⟩ := List.mem_map.mp hf
      exact ⟨e.1, h.key_lt e.1 e.2 (AList.mem_lookup_iff.mpr he), rfl⟩
    once := nodup_textNodes h }

/-- **What `save` writes is well formed.** -/
theorem CostModel.save_wellFormed (json : JsonText Text D) (cfg : CostModelConfig F)
    (hrows : 0 < cfg.affinity.maxNodes ∧ cfg.affinity.maxNodes < 2 ^ 32)
    (hcols : 0 < cfg.affinity.maxJobClasses ∧ cfg.affinity.maxJobClasses < 2 ^ 32)
    (jobs : List Job) (hjobs : ∀ job ∈ jobs, job.executedBy < 2 ^ 32) :
    ∃ text root, (jobs.foldl CostModel.update (create cfg)).save json true = .ok text ∧
      json.parse_json text = some root ∧ WellFormed cfg root := by
  have hsaved := (saved_create cfg).foldl_update hrows.1 hcols.1 hjobs
  refine ⟨_, _, rfl, json.parse_json_to_json_string _ _, ?_⟩
  rw [toJson, readBack]
  exact wellFormed_textFields hsaved hrows.2 hcols.2

end Written

namespace CostModel

variable [DoubleOps D] [FloatCasts F D]

/-- Only snapshots are loaded, and everything else is malformed or of the wrong size. -/
structure AcceptsOnlyWellFormed (json : JsonText Text D) (m : CostModel F) (content : Text) :
    Prop where
  accepted : (load json m (some content)).1 = .ok () →
    ∃ root, json.parse_json content = some root ∧ WellFormed m.mConfig root
  rejected : (¬∃ root, json.parse_json content = some root ∧ WellFormed m.mConfig root) →
    (load json m (some content)).1 = .error .malformedJson ∨
      (load json m (some content)).1 = .error .dimensionMismatch

/-- A document is loaded when it passes the checks. -/
theorem load_isOk_iff (json : JsonText Text D) (m : CostModel F) (content : Text) :
    (load json m (some content)).1 = .ok () ↔
      ∃ root, json.parse_json content = some root ∧ PassesChecks m.mConfig root := by
  rw [← parse_isOk_iff]
  cases hparse : parse json m.mConfig content with
  | error e => simp [load_of_parse_error hparse]
  | ok r => simp [load_of_parse_ok hparse]

/-- A content that was read never counts as a file that does not open. -/
theorem parse_error_cases {json : JsonText Text D} {mConfig : CostModelConfig F} {content : Text}
    {e : PersistError} (h : parse json mConfig content = .error e) :
    e = .malformedJson ∨ e = .dimensionMismatch := by
  unfold parse at h
  repeat' split at h
  all_goals cases h
  all_goals simp

/-- **`load` accepts snapshots only, but for the documents that pass its checks and are lax.** -/
theorem acceptsOnlyWellFormed_iff (json : JsonText Text D) (m : CostModel F) (content : Text) :
    AcceptsOnlyWellFormed json m content ↔
      ∀ root, json.parse_json content = some root → PassesChecks m.mConfig root →
        ¬Lax m.mConfig root := by
  constructor
  · intro h root hroot hchecks
    obtain ⟨root', hroot', hformed⟩ :=
      h.accepted ((load_isOk_iff json m content).mpr ⟨root, hroot, hchecks⟩)
    obtain rfl := Option.some.inj (hroot.symm.trans hroot')
    exact hchecks.wellFormed_iff.mp hformed
  · intro h
    have haccepted : (load json m (some content)).1 = .ok () →
        ∃ root, json.parse_json content = some root ∧ WellFormed m.mConfig root := by
      intro hok
      obtain ⟨root, hroot, hchecks⟩ := (load_isOk_iff json m content).mp hok
      exact ⟨root, hroot, hchecks.wellFormed_iff.mpr (h root hroot hchecks)⟩
    refine ⟨haccepted, fun hformed => ?_⟩
    cases hparse : parse json m.mConfig content with
    | ok r =>
        refine absurd (haccepted ?_) hformed
        rw [load_of_parse_ok hparse]
    | error e =>
        rw [load_of_parse_error hparse]
        obtain rfl | rfl := parse_error_cases hparse
        · exact Or.inl rfl
        · exact Or.inr rfl

/-- A document of one node without its buckets. -/
def bucketless : JsonValue Float :=
  .object
    [("nodes", .object
      [("1", .object [("throughputMultiplier", .int64 2), ("observationCount", .int64 3)])]),
     ("affinity", AffinityMatrix.oneCellSnapshot 1)]

def oneCellModel : CostModel Float32 := create { affinity := AffinityMatrix.oneCellConfig }

theorem parse_json_bucketless : (JsonText.tree Float).parse_json bucketless = some bucketless := rfl

theorem passesChecks_bucketless : PassesChecks oneCellModel.mConfig bucketless := by
  obtain ⟨obj, hobj, hsnapshot⟩ := AffinityMatrix.snapshot_oneCell 1
  refine ⟨_, obj, [.int64 1], [.int64 10], _, rfl, ?_, hsnapshot, rfl, fun f hf => ?_⟩
  · exact congrArg some hobj
  · obtain rfl := List.mem_singleton.mp hf
    exact ⟨_, rfl, rfl, rfl, by decide⟩

/-- **A node without buckets is accepted.** -/
theorem bucketless_accepted :
    (load (JsonText.tree Float) oneCellModel (some bucketless)).1 = .ok () ∧
      ¬AcceptsOnlyWellFormed (JsonText.tree Float) oneCellModel bucketless := by
  have hok : (load (JsonText.tree Float) oneCellModel (some bucketless)).1 = .ok () :=
    (load_isOk_iff (JsonText.tree Float) oneCellModel bucketless).mpr
      ⟨bucketless, parse_json_bucketless, passesChecks_bucketless⟩
  refine ⟨hok, fun h => ?_⟩
  obtain ⟨root, hroot, affinity, vals, obs, nodes, hparts, hformed⟩ := h.accepted hok
  obtain rfl := Option.some.inj (parse_json_bucketless.symm.trans hroot)
  obtain ⟨rootObj, hobj, -, hnodes⟩ := hparts.sections
  obtain rfl := JsonValue.object.inj hobj
  obtain rfl := JsonValue.object.inj (Option.some.inj hnodes)
  obtain ⟨ns, hns, hstate⟩ := hformed.states _ (List.mem_singleton.mpr rfl)
  obtain rfl := JsonValue.object.inj hns
  obtain ⟨bkts, hbkts, -⟩ := hstate.degradationBuckets
  cases hbkts

end CostModel

end

end FatpBalancer
