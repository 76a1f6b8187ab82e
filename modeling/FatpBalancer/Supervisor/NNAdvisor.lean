/-
# The neural-network advisor

`NNAdvisor::evaluate`: the alert that an external process has left in a file is checked and passed
to the supervisor.  Reading and parsing the file is the JSON library's business, so the outcome of
`load_json_from_file` is an argument.
-/
import FatpBalancer.JsonLite
import FatpBalancer.Supervisor.SupervisorThreads

universe u v

namespace FatpBalancer

variable {F : Type u} [FloatOps F] {M : Type v}

namespace NNAdvisor

def isKnownAlert (name : String) : Bool :=
  name == "" || name == kAlertNone || name == kAlertOverload || name == kAlertLatency ||
    name == kAlertNodeFault

/-- The alert in a loaded file, or why there is none. -/
def readAlert (mInferenceFilePath : String) :
    Except String (JsonValue Rat) → Except String String
  | .error what =>
      .error ("NNAdvisor: failed to read/parse inference file '" ++ mInferenceFilePath ++ "': " ++
        what)
  | .ok root =>
      match root.getObject with
      | none => .error "NNAdvisor: inference file root must be a JSON object"
      | some obj =>
          match JsonValue.find obj "active_alert" with
          | none => .error "NNAdvisor: inference file missing required field 'active_alert'"
          | some (.string alertValue) =>
              if isKnownAlert alertValue then .ok alertValue
              else
                .error ("NNAdvisor: unknown alert name '" ++ alertValue ++
                  "'. Valid values: \"\", \"" ++ kAlertNone ++ "\", \"" ++ kAlertOverload ++
                  "\", \"" ++ kAlertLatency ++ "\", \"" ++ kAlertNodeFault ++ "\"")
          | some _ => .error "NNAdvisor: 'active_alert' must be a string"

def evaluate (fm : FeatureManager M) (mInferenceFilePath : String)
    (mSupervisor : FeatureSupervisor M F) (loaded : Except String (JsonValue Rat)) :
    Except String Unit × FeatureSupervisor M F :=
  match readAlert mInferenceFilePath loaded with
  | .error message => (.error message, mSupervisor)
  | .ok alertValue => mSupervisor.applyChanges fm alertValue

/-- An alert gets past the checks just when it is in the file and known. -/
theorem readAlert_eq_ok {path alert : String} {loaded : Except String (JsonValue Rat)} :
    readAlert path loaded = .ok alert ↔
      ∃ root obj, loaded = .ok root ∧ root.getObject = some obj ∧
        JsonValue.find obj "active_alert" = some (.string alert) ∧ isKnownAlert alert = true := by
  constructor
  · intro h
    rcases loaded with what | root
    · cases h
    · simp only [readAlert] at h
      split at h
      · cases h
      · next obj hobj =>
          split at h
          · cases h
          · next value hfind =>
              split at h
              · next hknown =>
                  cases h
                  exact ⟨root, obj, rfl, hobj, hfind, hknown⟩
              · cases h
          · cases h
  · rintro ⟨root, obj, rfl, hobj, hfind, hknown⟩
    simp [readAlert, hobj, hfind, hknown]

theorem isAlertFeature_of_isKnownAlert {alert : String} (h : isKnownAlert alert = true) :
    isAlertFeature (FeatureSupervisor.currentAlert alert) = true := by
  simp only [isKnownAlert, Bool.or_eq_true, beq_iff_eq] at h
  rcases h with (((rfl | rfl) | rfl) | rfl) | rfl <;> decide

end NNAdvisor

/-- A transition either leaves the active alert as it was or makes it the requested one. -/
theorem FeatureSupervisor.applyChanges_alert (fm : FeatureManager M) (s : FeatureSupervisor M F)
    {alert : String} (h : isAlertFeature (currentAlert alert) = true) :
    ((s.applyChanges fm alert).1 ≠ .ok () ∧
        (s.applyChanges fm alert).2.mActiveAlert = s.mActiveAlert) ∨
      ((s.applyChanges fm alert).1 = .ok () ∧
        currentAlert (s.applyChanges fm alert).2.mActiveAlert = currentAlert alert) := by
  simp only [applyChanges]
  split
  · next hsame => exact .inr ⟨rfl, hsame⟩
  · cases (fm.replace s.mManager (currentAlert s.mActiveAlert) (currentAlert alert)).result with
    | error message => exact .inl ⟨by simp, rfl⟩
    | ok _ => exact .inr ⟨rfl, currentAlert_normalised h⟩

end FatpBalancer
