/-
# Persistence of the cost model

`save` and `load` of the affinity matrix and of the whole cost model, over JSON values.  `load` is
total: a file that cannot be opened, a text that does not parse and every malformed value have their
own answers.

The two directions are not mirror images.  `save` writes every configured cell and bucket; `load`
checks the sizes, and lets elements of the wrong type pass by keeping a default in their place.
Both are given as the source has them, with every early return in its place.
-/
import FatpBalancer.CostModel
import FatpBalancer.JsonLite
import FatpBalancer.Lib.RowMajor

universe u v w

namespace FatpBalancer

open JsonValue

/-! ## Node keys

The node states are stored under decimal keys, which `std::stoul` reads: it skips white space, takes
a sign and ignores what comes after the digits. -/

/-- `std::isspace` in the default locale. -/
def isSpace (c : Char) : Bool :=
  c = ' ' || c = '\t' || c = '\n' || c = '\x0b' || c = '\x0c' || c = '\r'

/-- An optional sign. -/
def splitSign : List Char → Bool × List Char
  | '-' :: cs => (true, cs)
  | '+' :: cs => (false, cs)
  | cs => (false, cs)

/-- `std::stoul` at base 10: `none` is a thrown `invalid_argument` or `out_of_range`. -/
def stoul (s : String) : Option Nat :=
  let (negative, cs) := splitSign (s.toList.dropWhile isSpace)
  let digits := cs.takeWhile Char.isDigit
  if digits.isEmpty then none
  else
    let n := Nat.ofDigitChars 10 digits 0
    if 2 ^ 64 ≤ n then none else some (if negative then (2 ^ 64 - n) % 2 ^ 64 else n)

/-! ## The affinity matrix

Two sizes and two arrays. -/

namespace AffinityMatrix

variable {F : Type u} [FloatOps F] (D : Type v) [DoubleOps D] [FloatCasts F D]

def save (a : AffinityMatrix F) : JsonValue D :=
  .object
    [("maxNodes", .int64 (toInt64 a.mConfig.maxNodes)),
     ("maxJobClasses", .int64 (toInt64 a.mConfig.maxJobClasses)),
     ("warmThreshold", .int64 (toInt64 a.mConfig.warmThreshold)),
     ("alpha", .double (FloatCasts.toDouble a.mConfig.alpha)),
     ("values", .array (RowMajor.toList a.mConfig.maxNodes a.mConfig.maxJobClasses fun r c =>
        .double (FloatCasts.toDouble (a.mValues r c)))),
     ("observations", .array (RowMajor.toList a.mConfig.maxNodes a.mConfig.maxJobClasses fun r c =>
        .int64 (toInt64 (a.mObservations r c))))]

variable {D}

/-- `readU32`: the field has to be there and to be an integer. -/
def readU32 (obj : JsonObject D) (key : String) : Option Nat :=
  ((find obj key).bind getInt).map toUInt32

/-- The cells of a snapshot of the right size; cells outside the tensors stay neutral. -/
def fill (a : AffinityMatrix F) (vals obs : JsonArray D) : AffinityMatrix F :=
  let inside r c := r < a.mConfig.maxNodes ∧ c < a.mConfig.maxJobClasses
  let idx r c := r * a.mConfig.maxJobClasses + c
  { a.reset with
    mValues := fun r c =>
      if inside r c then getFloat (FloatOps.lit 1) (vals.getD (idx r c) .null)
      else a.reset.mValues r c
    mObservations := fun r c =>
      if inside r c then getUInt32 0 (obs.getD (idx r c) .null) else a.reset.mObservations r c }

/-- The cells that `load` copies, when every check of it passes. -/
def loadCells (a : AffinityMatrix F) (j : JsonValue D) : Option (AffinityMatrix F) :=
  j.getObject.bind fun obj =>
  (readU32 obj "maxNodes").bind fun savedNodes =>
  (readU32 obj "maxJobClasses").bind fun savedClasses =>
    if savedNodes ≠ a.mConfig.maxNodes ∨ savedClasses ≠ a.mConfig.maxJobClasses then none
    else
      ((find obj "values").bind getArray).bind fun vals =>
      ((find obj "observations").bind getArray).bind fun obs =>
        let expected := a.mConfig.maxNodes * a.mConfig.maxJobClasses
        if vals.length ≠ expected ∨ obs.length ≠ expected then none else some (a.fill vals obs)

/-- Every `return false` of the source comes before the `reset()`, and leaves the matrix as it is. -/
def load (a : AffinityMatrix F) (j : JsonValue D) : Bool × AffinityMatrix F :=
  match a.loadCells j with
  | some a' => (true, a')
  | none => (false, a)

end AffinityMatrix

/-! ## The cost model

An object with the matrix and the node states. -/

inductive PersistError
  | fileOpenFailed
  | malformedJson
  | dimensionMismatch
  deriving DecidableEq, Repr

variable {F : Type u} [FloatOps F]

/-! ### Saving -/

section Save

variable (D : Type v) [DoubleOps D] [FloatCasts F D]

def Bucket.toJson (b : Bucket F) : JsonValue D :=
  .object
    [("value", .double (FloatCasts.toDouble b.multiplier.value)),
     ("observations", .int64 (toInt64 b.observations))]

/-- The buckets below `bucketCount`. -/
def DegradationCurve.toJson (c : DegradationCurve F) : JsonValue D :=
  .array (List.ofFn fun b : Fin c.bucketCount => (c.buckets (b.castLE c.bucketCount_le)).toJson D)

def NodeLearningState.toJson (state : NodeLearningState F) : JsonValue D :=
  .object
    [("throughputMultiplier", .double (FloatCasts.toDouble state.throughputMultiplier.value)),
     ("observationCount", .int64 (toInt64 state.observationCount)),
     ("degradationBuckets", state.degradation.toJson D)]

def CostModel.toJson (m : CostModel F) : JsonValue D :=
  .object
    [("version", .int64 1),
     ("nodes", .object (m.mNodeStates.entries.map fun e => (toString e.1, e.2.toJson D))),
     ("affinity", m.mAffinityMatrix.save D)]

variable {D}

/-- The text written to the file, when the file opens. -/
def CostModel.save {Text : Type w} (json : JsonText Text D) (m : CostModel F) (opened : Bool) :
    Except PersistError Text :=
  if opened then .ok (json.to_json_string (m.toJson D) true) else .error .fileOpenFailed

end Save

/-! ### Loading -/

section Load

variable {D : Type v} [DoubleOps D] [FloatCasts F D]

def Bucket.load (b : Bucket F) (obj : JsonObject D) : Bucket F where
  multiplier :=
    match find obj "value" with
    | some v => { b.multiplier with value := getFloat b.multiplier.value v }
    | none => b.multiplier
  observations :=
    match find obj "observations" with
    | some v => getUInt32 b.observations v
    | none => b.observations

/-- The bucket loop: elements that are no objects are skipped without using up a bucket. -/
def loadBuckets (buckets : Fin kMaxBuckets → Bucket F) (b : Nat) :
    JsonArray D → (Fin kMaxBuckets → Bucket F)
  | [] => buckets
  | v :: rest =>
      if h : b < kMaxBuckets then
        match v.getObject with
        | none => loadBuckets buckets b rest
        | some obj =>
            loadBuckets (Function.update buckets ⟨b, h⟩ ((buckets ⟨b, h⟩).load obj)) (b + 1) rest
      else buckets

def DegradationCurve.load (c : DegradationCurve F) (v : Option (JsonValue D)) :
    DegradationCurve F :=
  match v.bind getArray with
  | some bkts => { c with buckets := loadBuckets c.buckets 0 bkts }
  | none => c

/-- One node's state; `none` when a required field is missing. -/
def NodeLearningState.load (mConfig : CostModelConfig F) (ns : JsonObject D) :
    Option (NodeLearningState F) :=
  let state : NodeLearningState F := default
  (find ns "throughputMultiplier").bind fun tm =>
  (find ns "observationCount").bind fun oc =>
    some {
      throughputMultiplier :=
        { state.throughputMultiplier with value := getFloat state.throughputMultiplier.value tm }
      observationCount := getUInt32 state.observationCount oc
      degradation :=
        (state.degradation.configure mConfig.degradation).load (find ns "degradationBuckets") }

/-- The node loop, with the thrown exceptions of `std::stoul` among its failures. -/
def loadNodes (mConfig : CostModelConfig F) (tmpNodes : HashMap NodeId (NodeLearningState F)) :
    JsonObject D → Option (HashMap NodeId (NodeLearningState F))
  | [] => some tmpNodes
  | (keyStr, nodeVal) :: rest =>
      (nodeVal.getObject.bind (NodeLearningState.load mConfig)).bind fun state =>
      (stoul keyStr).bind fun key =>
        -- `static_cast<uint32_t>` of the parsed key
        loadNodes mConfig (tmpNodes.insert (key % 2 ^ 32) state) rest

namespace CostModel

/-- What `load` reads before it commits: the affinity matrix and the node states. -/
def parse {Text : Type w} (json : JsonText Text D) (mConfig : CostModelConfig F) (content : Text) :
    Except PersistError (AffinityMatrix F × HashMap NodeId (NodeLearningState F)) :=
  match (json.parse_json content).bind getObject with
  | none => .error .malformedJson
  | some rootObj =>
      match find rootObj "affinity" with
      | none => .error .malformedJson
      | some affinity =>
          match (AffinityMatrix.create mConfig.affinity).load affinity with
          | (false, _) => .error .dimensionMismatch
          | (true, tmpAffinity) =>
              match ((find rootObj "nodes").bind getObject).bind (loadNodes mConfig ∅) with
              | none => .error .malformedJson
              | some tmpNodes => .ok (tmpAffinity, tmpNodes)

/-- `file` is the content, or `none` when the file does not open, which alone clears nothing. -/
def load {Text : Type w} (json : JsonText Text D) (m : CostModel F) (file : Option Text) :
    Except PersistError Unit × CostModel F :=
  match file with
  | none => (.error .fileOpenFailed, m)
  | some content =>
      match parse json m.mConfig content with
      -- every failure past the opened file leaves a cold model behind
      | .error e => (.error e, m.reset)
      | .ok (tmpAffinity, tmpNodes) =>
          (.ok (),
            { m with
              mNodeStates := tmpNodes
              -- the source saves the temporary matrix and loads it again into the member
              mAffinityMatrix := (m.mAffinityMatrix.reset.load (tmpAffinity.save D)).2 })

end CostModel

end Load

end FatpBalancer
