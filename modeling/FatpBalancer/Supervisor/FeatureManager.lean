/-
# The feature manager

`FeatureManager` is a library class outside this repository.  The supervisor sees the operations
below, and relies on the contract: an operation that succeeds calls the batch observer with the
features whose enabled bit has changed, one that fails changes nothing, and of a mutually exclusive
group at most one member is enabled.  What a change entails is left to the manager.

`FeatureGraph` is a manager that keeps the contract: Entails edges with counted references over
mutually exclusive groups, each operation all or nothing.
-/
import FatpBalancer.Supervisor.BalancerFeatures

universe u

namespace FatpBalancer

/-! ## The interface -/

inductive FeatureRelationship
  | entails
  deriving DecidableEq

structure FeatureChange where
  name : String
  newState : Bool
  deriving DecidableEq, Repr

/-- One call of the batch observer. -/
structure ObserverCall where
  requested : String
  changes : List FeatureChange
  committed : Bool
  deriving DecidableEq, Repr

/-- What an operation leaves behind: the manager, the observer calls it makes once its lock is
released, and what it returns. -/
structure Outcome (M : Type u) where
  manager : M
  observed : List ObserverCall
  result : Except String Unit

/-- The changes reported as committed, in order. -/
def Outcome.committed {M : Type u} (o : Outcome M) : List FeatureChange :=
  (o.observed.filter (·.committed)).flatMap (·.changes)

structure FeatureManager (M : Type u) where
  empty : M
  addFeature : M → String → M
  addMutuallyExclusiveGroup : M → String → List String → M
  addRelationship : M → String → FeatureRelationship → String → M
  isEnabled : M → String → Bool
  enable : M → String → Outcome M
  disable : M → String → Outcome M
  replace : M → String → String → Outcome M

namespace FeatureManager

variable {M : Type u} (fm : FeatureManager M)

/-! ## The contract -/

/-- The feature's bit is different in `m'`, where it is the change's new state. -/
def Changed (m m' : M) (ch : FeatureChange) : Prop :=
  fm.isEnabled m ch.name ≠ fm.isEnabled m' ch.name ∧ ch.newState = fm.isEnabled m' ch.name

structure Reports (m : M) (o : Outcome M) : Prop where
  /-- success: exactly the changed bits are reported as committed -/
  exact : o.result = .ok () → ∀ ch, ch ∈ o.committed ↔ fm.Changed m o.manager ch
  /-- failure: nothing is committed and no bit changes -/
  atomic : ∀ error, o.result = .error error →
    o.committed = [] ∧ ∀ f, fm.isEnabled o.manager f = fm.isEnabled m f

/-- The managers that operations on `graph` lead to. -/
inductive Operated (graph : M) : M → Prop
  | graph : Operated graph graph
  | enable {m : M} (f : String) : Operated graph m → Operated graph (fm.enable m f).manager
  | disable {m : M} (f : String) : Operated graph m → Operated graph (fm.disable m f).manager
  | replace {m : M} (f g : String) : Operated graph m → Operated graph (fm.replace m f g).manager

/-- At most one of the members is enabled. -/
def MutuallyExclusive (m : M) (members : List String) : Prop :=
  ∀ f ∈ members, ∀ g ∈ members, fm.isEnabled m f = true → fm.isEnabled m g = true → f = g

/-- What a user of the manager relies on, once `graph` has been built with these groups. -/
structure Contract (graph : M) (groups : List (List String)) : Prop where
  graph_disabled : ∀ f, fm.isEnabled graph f = false
  enable_reports : ∀ m f, fm.Reports m (fm.enable m f)
  disable_reports : ∀ m f, fm.Reports m (fm.disable m f)
  replace_reports : ∀ m f g, fm.Reports m (fm.replace m f g)
  exclusive : ∀ m, fm.Operated graph m → ∀ members ∈ groups, fm.MutuallyExclusive m members

variable {fm}

/-- Whatever the result, the committed changes are the changed bits. -/
theorem Reports.mem_committed {m : M} {o : Outcome M} (h : fm.Reports m o) (ch : FeatureChange) :
    ch ∈ o.committed ↔ fm.Changed m o.manager ch := by
  cases hr : o.result with
  | ok _ => exact h.exact hr ch
  | error e =>
      obtain ⟨hnone, hsame⟩ := h.atomic e hr
      simp [hnone, Changed, hsame]

/-- A reported change carries the bit the manager now holds. -/
theorem Reports.newState {m : M} {o : Outcome M} (h : fm.Reports m o) {ch : FeatureChange}
    (hch : ch ∈ o.committed) : ch.newState = fm.isEnabled o.manager ch.name :=
  ((h.mem_committed ch).mp hch).2

/-- A feature that is not reported keeps its bit. -/
theorem Reports.unchanged {m : M} {o : Outcome M} (h : fm.Reports m o) {f : String}
    (hf : ∀ ch ∈ o.committed, ch.name ≠ f) : fm.isEnabled o.manager f = fm.isEnabled m f := by
  by_contra hne
  apply hf ⟨f, fm.isEnabled o.manager f⟩ _ rfl
  rw [h.mem_committed]
  exact ⟨Ne.symm hne, rfl⟩

end FeatureManager

/-! ## A manager that keeps the contract -/

structure FeatureGraph where
  features : List String := []
  groups : List (List String) := []
  edges : List (String × String) := []
  enabled : List String := []

namespace FeatureGraph

/-- The features that this one Entails. -/
def entailed (g : FeatureGraph) (f : String) : List String :=
  (g.edges.filter (·.1 == f)).map (·.2)

/-- Two different members of one group would be enabled. -/
def conflict (g : FeatureGraph) (on : List String) : Bool :=
  g.groups.any fun members => members.any fun a => members.any fun b =>
    a != b && on.contains a && on.contains b

def changes (g : FeatureGraph) (on : List String) : List FeatureChange :=
  (g.enabled.filter (!on.contains ·)).map (⟨·, false⟩) ++
    (on.filter (!g.enabled.contains ·)).map (⟨·, true⟩)

def refuse (g : FeatureGraph) (requested error : String) : Outcome FeatureGraph :=
  { manager := g, observed := [⟨requested, [], false⟩], result := .error error }

/-- All or nothing: the planned set becomes the enabled one unless it breaks a group. -/
def commit (g : FeatureGraph) (requested : String) (on : List String) : Outcome FeatureGraph :=
  if g.conflict on then g.refuse requested "mutually exclusive features"
  else
    { manager := { g with enabled := on }
      observed := [⟨requested, g.changes on, true⟩]
      result := .ok () }

/-- The enabled set without `f` and without what it entailed and nothing in `desired` entails. -/
def without (g : FeatureGraph) (f : String) (desired : List String) : List String :=
  g.enabled.filter fun x =>
    x != f && !((g.entailed f).contains x && !desired.any fun d => (g.entailed d).contains x)

def isEnabled (g : FeatureGraph) (f : String) : Bool := g.enabled.contains f

def enable (g : FeatureGraph) (f : String) : Outcome FeatureGraph :=
  if g.features.contains f then g.commit f (g.enabled ∪ f :: g.entailed f)
  else g.refuse f "feature not found"

def disable (g : FeatureGraph) (f : String) : Outcome FeatureGraph :=
  if g.features.contains f then g.commit f (g.without f (g.enabled.filter (· != f)))
  else g.refuse f "feature not found"

def replace (g : FeatureGraph) (current target : String) : Outcome FeatureGraph :=
  if g.features.contains current && g.features.contains target && g.isEnabled current then
    g.commit target
      (g.without current (target :: g.enabled.filter (· != current)) ∪ target :: g.entailed target)
  else g.refuse target "feature not found or not enabled"

/-- The graph as a feature manager. -/
def manager : FeatureManager FeatureGraph where
  empty := {}
  addFeature g f := { g with features := g.features ++ [f] }
  addMutuallyExclusiveGroup g _ members := { g with groups := g.groups ++ [members] }
  addRelationship g source _ target := { g with edges := g.edges ++ [(source, target)] }
  isEnabled := isEnabled
  enable := enable
  disable := disable
  replace := replace

theorem refuse_reports (g : FeatureGraph) (requested error : String) :
    manager.Reports g (g.refuse requested error) where
  exact h := by cases h
  atomic _ _ := ⟨rfl, fun _ => rfl⟩

theorem commit_reports (g : FeatureGraph) (requested : String) (on : List String) :
    manager.Reports g (g.commit requested on) := by
  rw [commit]
  split
  · exact refuse_reports ..
  · refine ⟨fun _ ch => ?_, fun _ h => by cases h⟩
    show ch ∈ [ObserverCall.mk requested (g.changes on) true].flatMap (·.changes) ↔
      g.enabled.contains ch.name ≠ on.contains ch.name ∧ ch.newState = on.contains ch.name
    obtain ⟨name, newState⟩ := ch
    cases hon : on.contains name <;> cases hg : g.enabled.contains name <;>
      simp_all [changes]

theorem enable_reports (g : FeatureGraph) (f : String) : manager.Reports g (g.enable f) := by
  rw [enable]
  split
  · exact commit_reports ..
  · exact refuse_reports ..

theorem disable_reports (g : FeatureGraph) (f : String) : manager.Reports g (g.disable f) := by
  rw [disable]
  split
  · exact commit_reports ..
  · exact refuse_reports ..

theorem replace_reports (g : FeatureGraph) (f f' : String) :
    manager.Reports g (g.replace f f') := by
  rw [replace]
  split
  · exact commit_reports ..
  · exact refuse_reports ..

/-- An operation leaves features, groups and edges alone and never enables two members of a group. -/
structure Keeps (g : FeatureGraph) (o : Outcome FeatureGraph) : Prop where
  features : o.manager.features = g.features
  groups : o.manager.groups = g.groups
  edges : o.manager.edges = g.edges
  conflict : g.conflict g.enabled = false → o.manager.conflict o.manager.enabled = false

theorem refuse_keeps (g : FeatureGraph) (requested error : String) :
    g.Keeps (g.refuse requested error) := ⟨rfl, rfl, rfl, id⟩

theorem commit_keeps (g : FeatureGraph) (requested : String) (on : List String) :
    g.Keeps (g.commit requested on) := by
  rw [commit]
  split
  · exact refuse_keeps ..
  · next h =>
      refine ⟨rfl, rfl, rfl, fun _ => ?_⟩
      show g.conflict on = false
      simpa using h

theorem enable_keeps (g : FeatureGraph) (f : String) : g.Keeps (g.enable f) := by
  rw [enable]
  split
  · exact commit_keeps ..
  · exact refuse_keeps ..

theorem disable_keeps (g : FeatureGraph) (f : String) : g.Keeps (g.disable f) := by
  rw [disable]
  split
  · exact commit_keeps ..
  · exact refuse_keeps ..

theorem replace_keeps (g : FeatureGraph) (f f' : String) : g.Keeps (g.replace f f') := by
  rw [replace]
  split
  · exact commit_keeps ..
  · exact refuse_keeps ..

/-- What every operation keeps, the managers operated on keep. -/
theorem operated_induction {g m : FeatureGraph} {P : FeatureGraph → Prop} (hg : P g)
    (hstep : ∀ m o, P m → m.Keeps o → P o.manager) (hm : manager.Operated g m) : P m := by
  induction hm with
  | graph => exact hg
  | enable f _ ih => exact hstep _ _ ih (enable_keeps ..)
  | disable f _ ih => exact hstep _ _ ih (disable_keeps ..)
  | replace f f' _ ih => exact hstep _ _ ih (replace_keeps ..)

theorem conflict_eq_false {g : FeatureGraph} {on members : List String}
    (h : g.conflict on = false) (hm : members ∈ g.groups) {a b : String} (ha : a ∈ members)
    (hb : b ∈ members) (hona : a ∈ on) (honb : b ∈ on) : a = b := by
  by_contra hne
  rw [conflict, List.any_eq_false] at h
  apply h members hm
  simp only [List.any_eq_true, Bool.and_eq_true, bne_iff_ne, List.contains_iff_mem]
  exact ⟨a, ha, b, hb, ⟨hne, hona⟩, honb⟩

/-- A graph in which nothing is enabled yet keeps the contract for its groups. -/
theorem contract {g : FeatureGraph} (hg : g.enabled = []) : manager.Contract g g.groups where
  graph_disabled f := by
    show g.enabled.contains f = false
    rw [hg]
    rfl
  enable_reports := enable_reports
  disable_reports := disable_reports
  replace_reports := replace_reports
  exclusive m hm members hmem a ha b hb hona honb := by
    have hkept : m.groups = g.groups ∧ m.conflict m.enabled = false := by
      apply operated_induction (P := fun m => m.groups = g.groups ∧ m.conflict m.enabled = false)
        _ _ hm
      · exact ⟨rfl, by simp [conflict, hg]⟩
      · rintro m o ⟨hgroups, hquiet⟩ hkeeps
        exact ⟨hkeeps.groups.trans hgroups, hkeeps.conflict hquiet⟩
    apply conflict_eq_false hkept.2 (hkept.1 ▸ hmem) ha hb
    · exact List.contains_iff_mem.mp hona
    · exact List.contains_iff_mem.mp honb

end FeatureGraph

end FatpBalancer
