/-
# JSON values

The value tree of the JSON library that the snapshot writer and the cost model's persistence build
and read.  The library's printer and parser are not part of the repository.  They are a parameter,
`JsonText`, which carries what the repository relies on: a value comes back from its text as it was,
but for a double that is a whole number, which comes back as an integer.

Objects are lists of fields, and `find` answers with the first field of a name.  `JsonValue.readBack`
is the difference a trip through the text makes; readers that accept both kinds of number do not
notice it.
-/
import FatpBalancer.AffinityMatrix

universe u v w

namespace FatpBalancer

inductive JsonValue (D : Type u)
  | null
  | bool (b : Bool)
  | int64 (n : Int)
  | double (d : D)
  | string (s : String)
  | array (elems : List (JsonValue D))
  | object (fields : List (String × JsonValue D))

abbrev JsonArray (D : Type u) := List (JsonValue D)

abbrev JsonObject (D : Type u) := List (String × JsonValue D)

/-- The integer that stands for a whole-number double in a text. -/
class DoubleOps (D : Type u) where
  wholeInt64 : D → Option Int

/-- Exact arithmetic. -/
instance : DoubleOps Rat where
  wholeInt64 d := if d.den = 1 ∧ -2 ^ 63 ≤ d.num ∧ d.num < 2 ^ 63 then some d.num else none

/-- The casts between `float` and `double`: a float survives the way there and back, and a
whole-number double is the same float as the integer in its place. -/
class FloatCasts (F : Type u) (D : Type v) [FloatOps F] [DoubleOps D] where
  toDouble : F → D
  toFloat : D → F
  toFloat_toDouble : ∀ x, toFloat (toDouble x) = x
  ofInt64_wholeInt64 : ∀ d n, DoubleOps.wholeInt64 d = some n → FloatOps.ofInt64 n = toFloat d

instance : FloatCasts Rat Rat where
  toDouble := id
  toFloat := id
  toFloat_toDouble _ := rfl
  ofInt64_wholeInt64 d n h := by
    simp only [DoubleOps.wholeInt64] at h
    split at h
    · next hwhole =>
        obtain rfl := Option.some.inj h
        exact Rat.den_eq_one_iff d |>.mp hwhole.1
    · exact absurd h nofun

namespace JsonValue

variable {D : Type u}

/-- `find`: the field of an object under a key. -/
def find (obj : JsonObject D) (key : String) : Option (JsonValue D) := obj.lookup key

/-- `is_int` and `std::get<int64_t>`. -/
def getInt : JsonValue D → Option Int
  | .int64 n => some n
  | _ => none

def getArray : JsonValue D → Option (JsonArray D)
  | .array xs => some xs
  | _ => none

def getObject : JsonValue D → Option (JsonObject D)
  | .object fs => some fs
  | _ => none

/-- A number of either kind cast to `float`; any other value leaves the default in place. -/
def getFloat {F : Type v} [FloatOps F] [DoubleOps D] [FloatCasts F D] (default : F) :
    JsonValue D → F
  | .int64 n => FloatOps.ofInt64 n
  | .double d => FloatCasts.toFloat d
  | _ => default

/-- An integer cast to `uint32_t`; any other value leaves the default in place. -/
def getUInt32 (default : Nat) (v : JsonValue D) : Nat :=
  match v.getInt with
  | some n => toUInt32 n
  | none => default

/-! ## What comes back from a text -/

variable [DoubleOps D]

/-- A double as it comes back. -/
def readBackDouble (d : D) : JsonValue D :=
  match DoubleOps.wholeInt64 d with
  | some n => .int64 n
  | none => .double d

mutual

/-- The value that the parser makes of the printed text. -/
def readBack : JsonValue D → JsonValue D
  | .null => .null
  | .bool b => .bool b
  | .int64 n => .int64 n
  | .double d => readBackDouble d
  | .string s => .string s
  | .array xs => .array (readBackArray xs)
  | .object fs => .object (readBackObject fs)

def readBackArray : JsonArray D → JsonArray D
  | [] => []
  | v :: vs => v.readBack :: readBackArray vs

def readBackObject : JsonObject D → JsonObject D
  | [] => []
  | (k, v) :: fs => (k, v.readBack) :: readBackObject fs

end

theorem readBackArray_eq_map (xs : JsonArray D) : readBackArray xs = xs.map readBack := by
  induction xs with
  | nil => rfl
  | cons v vs ih => rw [readBackArray, ih, List.map_cons]

theorem readBackObject_eq_map (fs : JsonObject D) :
    readBackObject fs = fs.map fun f => (f.1, f.2.readBack) := by
  induction fs with
  | nil => rfl
  | cons f fs ih => rw [readBackObject, ih, List.map_cons]

theorem find_readBackObject (fs : JsonObject D) (key : String) :
    find (readBackObject fs) key = (find fs key).map readBack := by
  unfold find
  induction fs with
  | nil => rfl
  | cons f fs ih =>
      obtain ⟨k, v⟩ := f
      simp only [readBackObject, List.lookup_cons, ih]
      split <;> rfl

/-- A float that was written comes back. -/
theorem getFloat_readBack {F : Type v} [FloatOps F] [FloatCasts F D] (default x : F) :
    getFloat default (readBack (.double (FloatCasts.toDouble x : D))) = x := by
  simp only [readBack, readBackDouble]
  split
  · next n hn =>
      rw [getFloat, FloatCasts.ofInt64_wholeInt64 _ n hn, FloatCasts.toFloat_toDouble]
  · rw [getFloat, FloatCasts.toFloat_toDouble]

/-- A 32-bit number that was written comes back. -/
theorem getUInt32_readBack (default : Nat) {n : Nat} (h : n < 2 ^ 32) :
    getUInt32 default (readBack (.int64 (toInt64 n) : JsonValue D)) = n := by
  simp only [readBack, getUInt32, getInt]
  rw [toInt64_of_lt (by omega), toUInt32_of_lt h]

end JsonValue

/-- The printer and the parser of the JSON library. -/
structure JsonText (Text : Type w) (D : Type u) [DoubleOps D] where
  to_json_string : JsonValue D → Bool → Text
  parse_json : Text → Option (JsonValue D)
  parse_json_to_json_string : ∀ v pretty, parse_json (to_json_string v pretty) = some v.readBack

/-- The value tree as its own text. -/
def JsonText.tree (D : Type u) [DoubleOps D] : JsonText (JsonValue D) D where
  to_json_string v _ := v
  parse_json v := some v.readBack
  parse_json_to_json_string _ _ := rfl

end FatpBalancer
