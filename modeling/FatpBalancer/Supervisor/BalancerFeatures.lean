/-
# The feature names

Every name the supervisor, the advisor and the policy factory hand to the feature manager, and the
two groups of which at most one member is enabled.
-/
import Mathlib.Data.List.Basic

namespace FatpBalancer

/-! ## Policies -/

def kPolicyRoundRobin : String := "policy.round_robin"

def kPolicyLeastLoaded : String := "policy.least_loaded"

def kPolicyAffinity : String := "policy.affinity_routing"

def kPolicyWorkStealing : String := "policy.work_stealing"

def kPolicyComposite : String := "policy.composite"

/-! ## Behavioural and admission features -/

def kFeatureAffinityMatrix : String := "feature.affinity_matrix"

def kFeatureAffinityMatrixWarm : String := "feature.affinity_matrix_warm"

def kFeatureAging : String := "feature.aging"

def kFeatureDegradationCurve : String := "feature.degradation_curve"

def kAdmissionBulkShed : String := "admission.bulk_shed"

def kAdmissionStrict : String := "admission.strict"

/-! ## Alerts -/

/-- The idle state. -/
def kAlertNone : String := "alert.none"

def kAlertOverload : String := "alert.overload"

def kAlertLatency : String := "alert.latency"

def kAlertNodeFault : String := "alert.node_fault"

/-! ## The two groups -/

/-- The members of `policy_group`. -/
def policyGroup : List String :=
  [kPolicyRoundRobin, kPolicyLeastLoaded, kPolicyAffinity, kPolicyWorkStealing, kPolicyComposite]

/-- The members of `alert_group`. -/
def alertGroup : List String := [kAlertNone, kAlertOverload, kAlertLatency, kAlertNodeFault]

def isPolicyFeature (name : String) : Bool :=
  name == kPolicyRoundRobin || name == kPolicyLeastLoaded || name == kPolicyWorkStealing ||
    name == kPolicyAffinity || name == kPolicyComposite

def isAlertFeature (name : String) : Bool :=
  name == kAlertNone || name == kAlertOverload || name == kAlertLatency || name == kAlertNodeFault

theorem isPolicyFeature_iff (name : String) : isPolicyFeature name = true ↔ name ∈ policyGroup := by
  simp only [isPolicyFeature, policyGroup, Bool.or_eq_true, beq_iff_eq, List.mem_cons,
    List.not_mem_nil, or_false]
  tauto

theorem isAlertFeature_iff (name : String) : isAlertFeature name = true ↔ name ∈ alertGroup := by
  simp only [isAlertFeature, alertGroup, Bool.or_eq_true, beq_iff_eq, List.mem_cons,
    List.not_mem_nil, or_false]
  tauto

end FatpBalancer
