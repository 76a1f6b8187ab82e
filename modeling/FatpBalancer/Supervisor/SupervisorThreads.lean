/-
# The feature supervisor under concurrent calls

The manager commits an operation under its lock and runs the observer after releasing it, and
`mActiveAlert` is written later still.  So a call decides what to write at one point and writes it
at later ones, and another call can come in between.

What the supervisor *settles* to, once every write that has been decided is carried out in the order
of the commits, is always the sequential supervisor of the same operations.  As long as no write
overtakes an earlier one to the same place, carrying a write out does not change where things
settle, and when every call has returned nothing is left to settle.

`settled` carries out every decided write in the order of the commits; it is a function of the
state, so that nothing needs to be said about the future.  The step lemma has two parts: a commit
settles as the sequential supervisor steps, and a write changes nothing in what things settle to
unless it overtakes another one to the same place.
-/
import FatpBalancer.Lib.Table
import FatpBalancer.Supervisor.FeatureSupervisor

universe u v

namespace FatpBalancer

open Writes

variable {F : Type u} [FloatOps F] {M : Type v}

/-! ## Calls and their steps -/

/-- Where a call of `applyChanges` or `setFeatureEnabled` stands. -/
inductive CallPc
  /-- `applyChanges`, before it reads `mActiveAlert` -/
  | applying (alertName : String)
  /-- before `mManager.replace` -/
  | replacing (current target : String)
  /-- `setFeatureEnabled`, before the manager's operation -/
  | setting (feature : String) (enabled : Bool)
  /-- in the observer, the manager's lock released; then the operation returns `result`, and
  `applyChanges` goes on with its target -/
  | observing (changes : List FeatureChange) (result : Except String Unit) (target : Option String)
  /-- before the store to `mActiveAlert` -/
  | storing (target : String)
  | returned (result : Except String Unit)

structure SupervisorThreads (M : Type v) (F : Type u) [FloatOps F] where
  supervisor : FeatureSupervisor M F
  calls : List CallPc := []
  /-- history: the calls whose operation the manager has carried out, in that order -/
  commits : List Nat := []

inductive SupervisorEvent
  | applyChanges (alertName : String)
  | setFeatureEnabled (feature : String) (enabled : Bool)
  /-- the next step of this call -/
  | step (i : Nat)

/-- A write that a call still owes. -/
inductive Owed
  | observe (ch : FeatureChange)
  | store (target : String)

/-- Carry an owed write out. -/
def FeatureSupervisor.deliver (s : FeatureSupervisor M F) : Owed → FeatureSupervisor M F
  | .observe ch => { s with mBalancer := s.mBalancer.observe ch }
  | .store target => { s with mActiveAlert := FeatureSupervisor.normalised target }

/-- After the observer: on success `applyChanges` stores its target. -/
def CallPc.observed : Except String Unit → Option String → CallPc
  | .ok (), some target => .storing target
  | result, _ => .returned result

namespace SupervisorThreads

def setCall (s : SupervisorThreads M F) (i : Nat) (pc : CallPc) : SupervisorThreads M F :=
  { s with calls := s.calls.set i pc }

/-- The manager carries an operation out for call `i`. -/
def commit (s : SupervisorThreads M F) (i : Nat) (o : Outcome M) (target : Option String) :
    SupervisorThreads M F where
  supervisor :=
    { s.supervisor with
      mManager := o.manager
      switched := s.supervisor.switched ++ o.committed.map (·.name) }
  calls := s.calls.set i (.observing o.committed o.result target)
  commits := s.commits ++ [i]

def deliver (s : SupervisorThreads M F) (i : Nat) (a : Owed) (pc : CallPc) :
    SupervisorThreads M F :=
  { s.setCall i pc with supervisor := s.supervisor.deliver a }

/-- One step of call `i`, which stands at the given point. -/
def stepCall (fm : FeatureManager M) (s : SupervisorThreads M F) (i : Nat) :
    CallPc → Option (SupervisorThreads M F)
  | .applying alertName =>
      let target := FeatureSupervisor.currentAlert alertName
      let current := FeatureSupervisor.currentAlert s.supervisor.mActiveAlert
      some (s.setCall i (if current = target then .returned (.ok ()) else .replacing current target))
  | .replacing current target =>
      some (s.commit i (fm.replace s.supervisor.mManager current target) (some target))
  | .setting feature enabled =>
      if isPolicyFeature feature || isAlertFeature feature then
        some (s.setCall i (.returned (.error FeatureSupervisor.refusal)))
      else if enabled then some (s.commit i (fm.enable s.supervisor.mManager feature) none)
      else some (s.commit i (fm.disable s.supervisor.mManager feature) none)
  | .observing (ch :: changes) result target =>
      some (s.deliver i (.observe ch) (.observing changes result target))
  | .observing [] result target => some (s.setCall i (.observed result target))
  | .storing target => some (s.deliver i (.store target) (.returned (.ok ())))
  | .returned _ => none

def step (fm : FeatureManager M) (s : SupervisorThreads M F) :
    SupervisorEvent → Option (SupervisorThreads M F)
  | .applyChanges alertName => some { s with calls := s.calls ++ [.applying alertName] }
  | .setFeatureEnabled feature enabled =>
      some { s with calls := s.calls ++ [.setting feature enabled] }
  | .step i => s.calls[i]?.bind (s.stepCall fm i)

end SupervisorThreads

/-- A supervisor on a fresh balancer, called by any number of threads once it is constructed. -/
def supervisorThreads (fm : FeatureManager M) (balancer : GovernedBalancer F)
    (affinityMatrix : Bool) : Machine (SupervisorThreads M F) SupervisorEvent where
  init := { supervisor := .create fm balancer affinityMatrix }
  step := SupervisorThreads.step fm

/-! ## Owed writes -/

/-- What the call still writes after its commit, in order. -/
def CallPc.owed : CallPc → List Owed
  | .observing changes (.ok ()) (some target) => changes.map .observe ++ [.store target]
  | .observing changes _ _ => changes.map .observe
  | .storing target => [.store target]
  | _ => []

/-- What a write goes to. -/
inductive Place
  | setting (x : Setting)
  | activeAlert
  deriving DecidableEq

/-- None for a change that the observer ignores. -/
def Owed.place? : Owed → Option Place
  | .observe ch => ch.setting?.map .setting
  | .store _ => some .activeAlert

theorem CallPc.owed_observing_cons (ch : FeatureChange) (changes : List FeatureChange)
    (result : Except String Unit) (target : Option String) :
    (observing (ch :: changes) result target).owed =
      .observe ch :: (observing changes result target).owed := by
  rcases result with _ | ⟨⟩ <;> cases target <;> rfl

theorem CallPc.owed_observed (result : Except String Unit) (target : Option String) :
    (observed result target).owed = (observing [] result target).owed := by
  rcases result with _ | ⟨⟩ <;> cases target <;> rfl

/-- Changes of different settings commute. -/
theorem GovernedBalancer.observe_comm (b : GovernedBalancer F) {c d : FeatureChange}
    (h : c.setting? = d.setting? → d.setting? = none) :
    (b.observe c).observe d = (b.observe d).observe c := by
  simp only [observe_eq]
  cases hx : c.setting? with
  | none => rfl
  | some x =>
      cases hy : d.setting? with
      | none => rfl
      | some y =>
          have hne : x ≠ y := by
            rintro rfl
            simp [hx, hy] at h
          exact write_comm _ hne c d

/-- Writes to different places commute. -/
theorem FeatureSupervisor.deliver_comm {a c : Owed} (h : a.place? = c.place? → c.place? = none) :
    Commute (FeatureSupervisor.deliver (M := M) (F := F)) a c := by
  intro s
  rcases a with ch | t <;> rcases c with ch' | t'
  · have hset : ch.setting? = ch'.setting? → ch'.setting? = none := by
      intro heq
      have hnone := h (by simp only [Owed.place?, heq])
      simpa [Owed.place?] using hnone
    show { s with mBalancer := (s.mBalancer.observe ch).observe ch' } =
      { s with mBalancer := (s.mBalancer.observe ch').observe ch }
    rw [GovernedBalancer.observe_comm _ hset]
  · rfl
  · rfl
  · simp [Owed.place?] at h

/-! ## Settling -/

namespace FeatureSupervisor

/-- The supervisor, once these writes are carried out. -/
abbrev settled (l : List Owed) (s : FeatureSupervisor M F) : FeatureSupervisor M F :=
  settle deliver l s

/-- Owed writes leave the manager alone and do not read it. -/
theorem settled_manager (l : List Owed) (s : FeatureSupervisor M F) (m : M) (w : List String) :
    settled l { s with mManager := m, switched := w } =
      { settled l s with mManager := m, switched := w } := by
  induction l generalizing s with
  | nil => rfl
  | cons a l ih =>
      calc settled (a :: l) { s with mManager := m, switched := w }
          = settled l { s.deliver a with mManager := m, switched := w } := by cases a <;> rfl
        _ = { settled l (s.deliver a) with mManager := m, switched := w } := ih _

theorem mManager_settled (l : List Owed) (s : FeatureSupervisor M F) :
    (settled l s).mManager = s.mManager :=
  settle_holds (P := fun t : FeatureSupervisor M F => t.mManager = s.mManager)
    (fun a _ t ht => by cases a <;> exact ht) rfl

theorem switched_settled (l : List Owed) (s : FeatureSupervisor M F) :
    (settled l s).switched = s.switched :=
  settle_holds (P := fun t : FeatureSupervisor M F => t.switched = s.switched)
    (fun a _ t ht => by cases a <;> exact ht) rfl

/-- The changes of an operation, all carried over. -/
theorem settled_observe (changes : List FeatureChange) (s : FeatureSupervisor M F) :
    settled (changes.map .observe) s =
      { s with mBalancer := settle GovernedBalancer.observe changes s.mBalancer } := by
  induction changes generalizing s with
  | nil => rfl
  | cons ch changes ih =>
      show settled (changes.map .observe) (s.deliver (.observe ch)) = _
      rw [ih]
      rfl

/-- What `applyChanges` leaves in `mActiveAlert`. -/
def alertAfter (s : FeatureSupervisor M F) : Except String Unit → Option String → String
  | .ok (), some target => normalised target
  | _, _ => s.mActiveAlert

/-- **Deciding is doing.**  When the manager carries an operation out, what the supervisor settles
to is what the sequential supervisor makes of the operation. -/
theorem settled_commit (l : List Owed) (s : FeatureSupervisor M F) (o : Outcome M)
    (target : Option String) :
    settled (l ++ (CallPc.observing o.committed o.result target).owed)
        { s with mManager := o.manager, switched := s.switched ++ o.committed.map (·.name) } =
      { (settled l s).operate o with
        mActiveAlert := (settled l s).alertAfter o.result target } := by
  have hoperate : settled (o.committed.map .observe) { settled l s with
      mManager := o.manager, switched := s.switched ++ o.committed.map (·.name) } =
        (settled l s).operate o := by
    rw [settled_observe, operate, ← switched_settled l s, GovernedBalancer.foldl_onBatch]
  have hfirst := settled_manager l s o.manager (s.switched ++ o.committed.map (·.name))
  calc _ = settled (CallPc.observing o.committed o.result target).owed (settled l { s with
          mManager := o.manager, switched := s.switched ++ o.committed.map (·.name) }) :=
        settle_append ..
    _ = settled (CallPc.observing o.committed o.result target).owed { settled l s with
          mManager := o.manager, switched := s.switched ++ o.committed.map (·.name) } := by
        rw [hfirst]
    _ = _ := by
        rcases o.result with e | ⟨⟩
        · exact hoperate
        · cases target with
          | none => exact hoperate
          | some t =>
              calc settled (o.committed.map .observe ++ [.store t]) _
                  = settled [.store t] (settled (o.committed.map .observe) _) := settle_append ..
                _ = settled [.store t] ((settled l s).operate o) := congrArg _ hoperate

end FeatureSupervisor

namespace SupervisorThreads

/-- What call `i` still writes. -/
def owedBy (s : SupervisorThreads M F) (i : Nat) : List Owed := s.calls[i]?.elim [] CallPc.owed

/-- Everything that has been decided and not yet been written, in the order of the commits. -/
def pending (s : SupervisorThreads M F) : List Owed := s.commits.flatMap s.owedBy

/-- The supervisor, once everything that has been decided is written. -/
def settled (s : SupervisorThreads M F) : FeatureSupervisor M F :=
  FeatureSupervisor.settled s.pending s.supervisor

end SupervisorThreads

/-- The call still has its operation before it. -/
def CallPc.deciding : CallPc → Bool
  | .applying _ | .replacing .. | .setting .. => true
  | .observing .. | .storing _ | .returned _ => false

/-- Among the names the graph knows, an alert. -/
def AlertName (name : String) : Prop :=
  name ∈ FeatureSupervisor.kAllFeatures → isAlertFeature name = true

/-- The write the call makes in its next step. -/
def CallPc.nextWrite : CallPc → Option Owed
  | .observing (ch :: _) _ _ => some (.observe ch)
  | .storing target => some (.store target)
  | _ => none

namespace SupervisorThreads

/-- No write overtakes: when a call writes to a place, no call that committed before it still owes
that place a write.  And no feature of another kind is passed off as an alert. -/
def InOrder (s : SupervisorThreads M F) : SupervisorEvent → Prop
  | .applyChanges alertName => AlertName alertName
  | .setFeatureEnabled _ _ => True
  | .step i => ∀ c ∈ s.calls[i]?.bind CallPc.nextWrite, ∀ j ∈ s.commits.takeWhile (· ≠ i),
      ∀ a ∈ s.owedBy j, a.place? = c.place? → c.place? = none

instance (s : SupervisorThreads M F) (e : SupervisorEvent) : Decidable (s.InOrder e) :=
  match e with
  | .applyChanges _ => inferInstanceAs (Decidable (_ ∈ _ → _ = true))
  | .setFeatureEnabled _ _ => inferInstanceAs (Decidable True)
  | .step i => inferInstanceAs (Decidable (∀ c ∈ s.calls[i]?.bind CallPc.nextWrite, _))

/-- How the calls stand to the order of the commits. -/
structure Ledger (s : SupervisorThreads M F) : Prop where
  nodup : s.commits.Nodup
  known : ∀ i ∈ s.commits, i < s.calls.length
  uncommitted : ∀ i pc, s.calls[i]? = some pc → pc.deciding = true → i ∉ s.commits
  committed : ∀ i pc, s.calls[i]? = some pc → pc.owed ≠ [] → i ∈ s.commits

/-- The operation a step has the manager carry out, with what `applyChanges` stores after it. -/
inductive Decides (fm : FeatureManager M) (s : SupervisorThreads M F) :
    Outcome M → Option String → Prop
  | replace {i : Nat} {current target : String} :
      s.calls[i]? = some (.replacing current target) →
      Decides fm s (fm.replace s.supervisor.mManager current target) (some target)
  | enable {f : String} : isPolicyFeature f = false → isAlertFeature f = false →
      Decides fm s (fm.enable s.supervisor.mManager f) none
  | disable {f : String} : isPolicyFeature f = false → isAlertFeature f = false →
      Decides fm s (fm.disable s.supervisor.mManager f) none

variable {fm : FeatureManager M} {s s' : SupervisorThreads M F}

theorem owedBy_of_getElem? {i : Nat} {pc : CallPc} (h : s.calls[i]? = some pc) :
    s.owedBy i = pc.owed := by
  rw [owedBy, h]
  rfl

/-- The other calls owe what they owed. -/
theorem elim_set_ne {calls : List CallPc} {i j : Nat} (pc : CallPc) (h : j ≠ i) :
    (calls.set i pc)[j]?.elim [] CallPc.owed = calls[j]?.elim [] CallPc.owed := by
  rw [List.getElem?_set_ne (Ne.symm h)]

/-- A call that moves on without a commit leaves the ledger right, if what it decides and owes at its
new point fits the commits. -/
theorem Ledger.set_call (hs : s.Ledger) {i : Nat} {pc : CallPc}
    (hcalls : s'.calls = s.calls.set i pc) (hcommits : s'.commits = s.commits)
    (hdec : pc.deciding = true → i ∉ s.commits) (howed : pc.owed ≠ [] → i ∈ s.commits) :
    s'.Ledger := by
  refine ⟨hcommits ▸ hs.nodup, ?_, ?_, ?_⟩
  · intro j hj
    rw [hcalls, List.length_set]
    exact hs.known j (hcommits ▸ hj)
  · intro j pc' hj hdec'
    rw [hcalls] at hj
    rw [hcommits]
    rcases Table.getElem?_set_cases hj with ⟨rfl, rfl⟩ | ⟨_, hold⟩
    · exact hdec hdec'
    · exact hs.uncommitted j pc' hold hdec'
  · intro j pc' hj howed'
    rw [hcalls] at hj
    rw [hcommits]
    rcases Table.getElem?_set_cases hj with ⟨rfl, rfl⟩ | ⟨_, hold⟩
    · exact howed howed'
    · exact hs.committed j pc' hold howed'

/-! ## The four kinds of step -/

/-- A new call owes nothing. -/
theorem settled_call (hs : s.Ledger) {pc : CallPc} (hpc : pc.deciding = true) :
    ({ s with calls := s.calls ++ [pc] } : SupervisorThreads M F).Ledger ∧
      ({ s with calls := s.calls ++ [pc] } : SupervisorThreads M F).settled = s.settled := by
  refine ⟨⟨hs.nodup, ?_, ?_, ?_⟩, ?_⟩
  · intro i hi
    have hlt := hs.known i hi
    simp only [List.length_append, List.length_singleton]
    omega
  · intro j pc' hj hdec
    rcases Table.getElem?_concat_cases hj with hold | ⟨rfl, rfl⟩
    · exact hs.uncommitted j pc' hold hdec
    · intro hmem
      exact absurd (hs.known _ hmem) (lt_irrefl _)
  · intro j pc' hj howed
    rcases Table.getElem?_concat_cases hj with hold | ⟨rfl, rfl⟩
    · exact hs.committed j pc' hold howed
    · cases pc' <;> first | exact absurd rfl howed | cases hpc
  · have hpending : ({ s with calls := s.calls ++ [pc] } : SupervisorThreads M F).pending =
        s.pending := by
      apply List.flatMap_congr
      intro i hi
      show (s.calls ++ [pc])[i]?.elim [] CallPc.owed = _
      rw [List.getElem?_append_left (hs.known i hi)]
      rfl
    rw [settled, hpending]
    rfl

/-- A step that neither decides nor writes. -/
theorem settled_setCall (hs : s.Ledger) {i : Nat} {pc pc' : CallPc} (hi : s.calls[i]? = some pc)
    (howed : pc'.owed = pc.owed) (hdec : pc'.deciding = true → pc.deciding = true) :
    (s.setCall i pc').Ledger ∧ (s.setCall i pc').settled = s.settled := by
  refine ⟨hs.set_call rfl rfl (fun h => hs.uncommitted i pc hi (hdec h))
    (fun h => hs.committed i pc hi (howed ▸ h)), ?_⟩
  have hpending : (s.setCall i pc').pending = s.pending := by
    apply List.flatMap_congr
    intro j _
    show (s.calls.set i pc')[j]?.elim [] CallPc.owed = _
    by_cases hj : j = i
    · subst hj
      rw [List.getElem?_set_self (List.getElem?_eq_some_iff.mp hi).1, owedBy_of_getElem? hi]
      exact howed
    · exact elim_set_ne pc' hj
  rw [settled, hpending]
  rfl

/-- The step in which the manager carries an operation out. -/
theorem settled_decide (hs : s.Ledger) {i : Nat} {pc : CallPc} (hi : s.calls[i]? = some pc)
    (hdec : pc.deciding = true) (o : Outcome M) (target : Option String) :
    (s.commit i o target).Ledger ∧
      (s.commit i o target).settled = { s.settled.operate o with
        mActiveAlert := s.settled.alertAfter o.result target } := by
  have hfresh := hs.uncommitted i pc hi hdec
  have hlt := (List.getElem?_eq_some_iff.mp hi).1
  refine ⟨⟨?_, ?_, ?_, ?_⟩, ?_⟩
  · show (s.commits ++ [i]).Nodup
    rw [List.nodup_append]
    refine ⟨hs.nodup, List.nodup_singleton i, ?_⟩
    rintro j hj _ hj' rfl
    exact hfresh (List.mem_singleton.mp hj' ▸ hj)
  · intro j hj
    show j < (s.calls.set i _).length
    rw [List.length_set]
    rcases List.mem_append.mp hj with hold | hnew
    · exact hs.known j hold
    · exact List.mem_singleton.mp hnew ▸ hlt
  · intro j pc' hj hdec'
    rcases Table.getElem?_set_cases hj with ⟨rfl, rfl⟩ | ⟨hne, hold⟩
    · cases hdec'
    · show j ∉ s.commits ++ [i]
      simp [hs.uncommitted j pc' hold hdec', hne]
  · intro j pc' hj howed
    show j ∈ s.commits ++ [i]
    rcases Table.getElem?_set_cases hj with ⟨rfl, rfl⟩ | ⟨_, hold⟩
    · simp
    · exact List.mem_append_left _ (hs.committed j pc' hold howed)
  · have hpending : (s.commit i o target).pending =
        s.pending ++ (CallPc.observing o.committed o.result target).owed := by
      show (s.commits ++ [i]).flatMap _ = _
      rw [List.flatMap_append, List.flatMap_singleton]
      congr 1
      · apply List.flatMap_congr
        intro j hj
        exact elim_set_ne _ fun heq => hfresh (heq ▸ hj)
      · exact owedBy_of_getElem? (List.getElem?_set_self hlt)
    rw [settled, hpending]
    exact FeatureSupervisor.settled_commit s.pending s.supervisor o target

/-- The step that carries a write out, when it overtakes no other to the same place. -/
theorem settled_write (hs : s.Ledger) {i : Nat} {pc pc' : CallPc} {c : Owed}
    (hi : s.calls[i]? = some pc) (howed : pc.owed = c :: pc'.owed) (hdec : pc'.deciding = false)
    (horder : ∀ j ∈ s.commits.takeWhile (· ≠ i), ∀ a ∈ s.owedBy j,
      a.place? = c.place? → c.place? = none) :
    (s.deliver i c pc').Ledger ∧ (s.deliver i c pc').settled = s.settled := by
  have hlt := (List.getElem?_eq_some_iff.mp hi).1
  have hmem : i ∈ s.commits := hs.committed i pc hi (by simp [howed])
  refine ⟨hs.set_call rfl rfl (fun h => absurd h (by simp [hdec])) (fun _ => hmem), ?_⟩
  -- the writes of the calls before `i`, of `i` itself, and of those after it
  obtain ⟨before, after, hsplit⟩ := List.append_of_mem hmem
  have hnodup := hs.nodup
  rw [hsplit, List.nodup_append] at hnodup
  have hbefore : ∀ j ∈ before, j ≠ i := by
    intro j hj heq
    exact hnodup.2.2 j hj i (List.mem_cons_self ..) heq
  have hafter : ∀ j ∈ after, j ≠ i := by
    rintro j hj rfl
    exact (List.nodup_cons.mp hnodup.2.1).1 hj
  have htake : s.commits.takeWhile (· ≠ i) = before := by
    rw [hsplit, List.takeWhile_append_of_pos (by simpa using hbefore)]
    simp
  have hold : s.pending = before.flatMap s.owedBy ++ c :: (pc'.owed ++ after.flatMap s.owedBy) := by
    rw [pending, hsplit, List.flatMap_append, List.flatMap_cons, owedBy_of_getElem? hi, howed]
    rfl
  have hothers : ∀ l : List Nat, (∀ j ∈ l, j ≠ i) →
      l.flatMap (s.deliver i c pc').owedBy = l.flatMap s.owedBy := fun l hl =>
    List.flatMap_congr fun j hj => elim_set_ne pc' (hl j hj)
  have hnew : (s.deliver i c pc').pending =
      before.flatMap s.owedBy ++ (pc'.owed ++ after.flatMap s.owedBy) := by
    have hself : (s.deliver i c pc').owedBy i = pc'.owed :=
      owedBy_of_getElem? (List.getElem?_set_self hlt)
    show s.commits.flatMap (s.deliver i c pc').owedBy = _
    rw [hsplit, List.flatMap_append, List.flatMap_cons, hothers before hbefore,
      hothers after hafter, hself]
  rw [settled, settled, hnew, hold]
  apply settle_early
  intro a ha
  obtain ⟨j, hj, ha⟩ := List.mem_flatMap.mp ha
  exact FeatureSupervisor.deliver_comm (horder j (htake ▸ hj) a ha)

/-- **Every step settles to the sequential supervisor.**  It leaves what the supervisor settles to
alone, or the manager carries out one operation. -/
theorem settled_step (hs : s.Ledger) {e : SupervisorEvent} (hok : s.InOrder e)
    (h : step fm s e = some s') :
    s'.Ledger ∧ (s'.settled = s.settled ∨ ∃ o target, s.Decides fm o target ∧
      s'.settled = { s.settled.operate o with
        mActiveAlert := s.settled.alertAfter o.result target }) := by
  cases e with
  | applyChanges alertName =>
      obtain rfl := Option.some.inj h
      exact (settled_call hs rfl).imp_right .inl
  | setFeatureEnabled feature enabled =>
      obtain rfl := Option.some.inj h
      exact (settled_call hs rfl).imp_right .inl
  | step i =>
      obtain ⟨pc, hi, h⟩ := Option.bind_eq_some_iff.mp h
      rw [InOrder, hi] at hok
      cases pc with
      | applying alertName =>
          obtain rfl := Option.some.inj h
          refine (settled_setCall hs hi ?_ fun _ => rfl).imp_right .inl
          split <;> rfl
      | replacing current target =>
          obtain rfl := Option.some.inj h
          refine (settled_decide hs hi rfl _ _).imp_right fun hsettled => .inr ⟨_, _, ?_, hsettled⟩
          exact .replace hi
      | setting feature enabled =>
          simp only [stepCall] at h
          split_ifs at h with hrefused henabled
          · obtain rfl := Option.some.inj h
            refine (settled_setCall hs hi ?_ fun _ => rfl).imp_right .inl
            rfl
          · obtain rfl := Option.some.inj h
            rw [Bool.not_eq_true, Bool.or_eq_false_iff] at hrefused
            refine (settled_decide hs hi rfl _ _).imp_right fun hsettled => .inr ⟨_, _, ?_, hsettled⟩
            exact .enable hrefused.1 hrefused.2
          · obtain rfl := Option.some.inj h
            rw [Bool.not_eq_true, Bool.or_eq_false_iff] at hrefused
            refine (settled_decide hs hi rfl _ _).imp_right fun hsettled => .inr ⟨_, _, ?_, hsettled⟩
            exact .disable hrefused.1 hrefused.2
      | observing changes result target =>
          cases changes with
          | nil =>
              obtain rfl := Option.some.inj h
              refine (settled_setCall hs hi (CallPc.owed_observed ..) ?_).imp_right .inl
              rcases result with e | ⟨⟩ <;> cases target <;> exact id
          | cons ch changes =>
              obtain rfl := Option.some.inj h
              exact (settled_write hs hi (CallPc.owed_observing_cons ..) rfl
                (hok _ rfl)).imp_right .inl
      | storing target =>
          obtain rfl := Option.some.inj h
          exact (settled_write hs hi rfl rfl (hok _ rfl)).imp_right .inl
      | returned result => cases h

end SupervisorThreads

/-! ## The active alert -/

/-- What the supervisor relies on for its alerts: the graph's Entails edges lead from alerts to
their consequences, and a replacement that succeeds has enabled its target, a feature of the graph. -/
structure AlertContract (fm : FeatureManager M) (graph : M) : Prop where
  idle : fm.isEnabled (fm.enable graph kAlertNone).manager kAlertNone = true
  replaced : ∀ m f g, fm.Operated graph m → (fm.replace m f g).result = .ok () →
    fm.isEnabled (fm.replace m f g).manager g = true
  registered : ∀ m f g, fm.Operated graph m → (fm.replace m f g).result = .ok () →
    g ∈ FeatureSupervisor.kAllFeatures
  enable_keeps : ∀ m f a, fm.Operated graph m → isAlertFeature f = false →
    isAlertFeature a = true → fm.isEnabled (fm.enable m f).manager a = fm.isEnabled m a
  disable_keeps : ∀ m f a, fm.Operated graph m → isAlertFeature f = false →
    isAlertFeature a = true → fm.isEnabled (fm.disable m f).manager a = fm.isEnabled m a

/-- `activeAlert()` names the enabled alert, `""` standing for the idle one. -/
def NamesAlert (fm : FeatureManager M) (m : M) (mActiveAlert : String) : Prop :=
  ∀ a, isAlertFeature a = true →
    (fm.isEnabled m a = true ↔ a = FeatureSupervisor.currentAlert mActiveAlert)

theorem currentAlert_normalised {target : String} (h : isAlertFeature target = true) :
    FeatureSupervisor.currentAlert (FeatureSupervisor.normalised target) = target := by
  rw [FeatureSupervisor.normalised]
  split
  · next hnone => rw [hnone]; rfl
  · rw [FeatureSupervisor.currentAlert, if_neg]
    rintro rfl
    exact absurd h (by decide)

theorem AlertName.currentAlert {alertName : String} (h : AlertName alertName) :
    AlertName (FeatureSupervisor.currentAlert alertName) := by
  rw [FeatureSupervisor.currentAlert]
  split
  · intro _
    decide
  · exact h

/-- The enabled member of the alert group is the only one. -/
theorem NamesAlert.of_enabled {fm : FeatureManager M} {m : M} {alert target : String}
    (hex : fm.MutuallyExclusive m alertGroup) (hon : fm.isEnabled m target = true)
    (htarget : isAlertFeature target = true)
    (halert : FeatureSupervisor.currentAlert alert = target) : NamesAlert fm m alert := by
  intro a ha
  rw [halert]
  constructor
  · intro hona
    exact hex _ ((isAlertFeature_iff _).mp ha) _ ((isAlertFeature_iff _).mp htarget) hona hon
  · rintro rfl
    exact hon

/-- Bits that agree on the alerts name the same one. -/
theorem NamesAlert.congr {fm : FeatureManager M} {m m' : M} {alert : String}
    (h : NamesAlert fm m alert)
    (hsame : ∀ a, isAlertFeature a = true → fm.isEnabled m' a = fm.isEnabled m a) :
    NamesAlert fm m' alert := by
  intro a ha
  rw [hsame a ha]
  exact h a ha

/-- A call of `applyChanges` is for an alert, or for no feature at all. -/
def CallPc.Documented : CallPc → Prop
  | .applying alertName => AlertName alertName
  | .replacing _ target => AlertName target
  | _ => True

namespace SupervisorThreads

variable {fm : FeatureManager M} {s s' : SupervisorThreads M F}

def Documented (s : SupervisorThreads M F) : Prop := ∀ pc ∈ s.calls, pc.Documented

/-- What the supervisor settles to is in step with its manager. -/
structure Sound (fm : FeatureManager M) (s : SupervisorThreads M F) : Prop where
  ledger : s.Ledger
  steers : s.settled.Steers fm
  documented : s.Documented
  alert : NamesAlert fm s.settled.mManager s.settled.mActiveAlert

theorem Documented.call (h : s.Documented) {pc : CallPc} (hpc : pc.Documented) :
    ∀ pc' ∈ s.calls ++ [pc], pc'.Documented := by
  intro pc' hpc'
  rcases List.mem_append.mp hpc' with hold | hnew
  · exact h pc' hold
  · exact List.mem_singleton.mp hnew ▸ hpc

theorem Documented.set (h : s.Documented) (i : Nat) {pc : CallPc} (hpc : pc.Documented) :
    ∀ pc' ∈ s.calls.set i pc, pc'.Documented := by
  intro pc' hpc'
  rcases List.mem_or_eq_of_mem_set hpc' with hold | rfl
  · exact h pc' hold
  · exact hpc

theorem Documented.step (h : s.Documented) {e : SupervisorEvent} (hok : s.InOrder e)
    (hstep : step fm s e = some s') : s'.Documented := by
  cases e with
  | applyChanges alertName =>
      obtain rfl := Option.some.inj hstep
      exact h.call hok
  | setFeatureEnabled feature enabled =>
      obtain rfl := Option.some.inj hstep
      exact h.call trivial
  | step i =>
      obtain ⟨pc, hi, hstep⟩ := Option.bind_eq_some_iff.mp hstep
      have hpc := h pc (List.mem_of_getElem? hi)
      cases pc with
      | applying alertName =>
          obtain rfl := Option.some.inj hstep
          apply h.set
          split
          · trivial
          · exact AlertName.currentAlert hpc
      | replacing current target =>
          obtain rfl := Option.some.inj hstep
          exact h.set i trivial
      | setting feature enabled =>
          simp only [stepCall] at hstep
          split_ifs at hstep <;> obtain rfl := Option.some.inj hstep <;> exact h.set i trivial
      | observing changes result target =>
          cases changes with
          | nil =>
              obtain rfl := Option.some.inj hstep
              apply h.set
              rcases result with e | ⟨⟩ <;> cases target <;> trivial
          | cons ch changes =>
              obtain rfl := Option.some.inj hstep
              exact h.set i trivial
      | storing target =>
          obtain rfl := Option.some.inj hstep
          exact h.set i trivial
      | returned result => cases hstep

/-! ## Runs -/

/-- The operation a step decides reports what it changes and is one of the manager's. -/
theorem Decides.reports (hfm : fm.Contract (FeatureSupervisor.buildGraph fm) supervisorGroups)
    (hop : fm.Operated (FeatureSupervisor.buildGraph fm) s.supervisor.mManager) {o : Outcome M}
    {target : Option String} (h : s.Decides fm o target) :
    fm.Reports s.supervisor.mManager o ∧
      fm.Operated (FeatureSupervisor.buildGraph fm) o.manager := by
  cases h with
  | replace _ => exact ⟨hfm.replace_reports .., .replace _ _ hop⟩
  | enable _ _ => exact ⟨hfm.enable_reports .., .enable _ hop⟩
  | disable _ _ => exact ⟨hfm.disable_reports .., .disable _ hop⟩

/-- The operation a step decides keeps `mActiveAlert`, once stored, the enabled alert. -/
theorem Decides.namesAlert (hfm : fm.Contract (FeatureSupervisor.buildGraph fm) supervisorGroups)
    (hal : AlertContract fm (FeatureSupervisor.buildGraph fm)) (hs : s.Sound fm) {o : Outcome M}
    {target : Option String} (h : s.Decides fm o target) :
    NamesAlert fm o.manager (s.settled.alertAfter o.result target) := by
  have hmanager : s.settled.mManager = s.supervisor.mManager :=
    FeatureSupervisor.mManager_settled ..
  have hop := hs.steers.operated
  have halert := hs.alert
  rw [hmanager] at hop halert
  obtain ⟨hreports, hop'⟩ := h.reports hfm hop
  cases h with
  | replace hi =>
      next i current target =>
      cases hr : (fm.replace s.supervisor.mManager current target).result with
      | error e => exact halert.congr fun a _ => (hreports.atomic e hr).2 a
      | ok u =>
          have htarget : isAlertFeature target = true :=
            hs.documented _ (List.mem_of_getElem? hi) (hal.registered _ _ _ hop hr)
          apply NamesAlert.of_enabled (hfm.exclusive _ hop' _ (by simp [supervisorGroups]))
            (hal.replaced _ _ _ hop hr) htarget
          exact currentAlert_normalised htarget
  | enable _ hf =>
      have hsame := halert.congr fun a ha => hal.enable_keeps _ _ a hop hf ha
      cases hr : (fm.enable s.supervisor.mManager _).result <;> exact hsame
  | disable _ hf =>
      have hsame := halert.congr fun a ha => hal.disable_keeps _ _ a hop hf ha
      cases hr : (fm.disable s.supervisor.mManager _).result <;> exact hsame

/-- **The step lemma.** -/
theorem Sound.step (hfm : fm.Contract (FeatureSupervisor.buildGraph fm) supervisorGroups)
    (hal : AlertContract fm (FeatureSupervisor.buildGraph fm)) (hs : s.Sound fm)
    {e : SupervisorEvent} (hok : s.InOrder e) (h : step fm s e = some s') : s'.Sound fm := by
  obtain ⟨hledger, hsettled⟩ := settled_step hs.ledger hok h
  have hdocumented := hs.documented.step hok h
  rcases hsettled with hsame | ⟨o, target, hdecides, hdone⟩
  · exact ⟨hledger, hsame ▸ hs.steers, hdocumented, hsame ▸ hs.alert⟩
  · have hmanager : s.settled.mManager = s.supervisor.mManager :=
      FeatureSupervisor.mManager_settled ..
    obtain ⟨hreports, hop⟩ := hdecides.reports hfm (hmanager ▸ hs.steers.operated)
    refine ⟨hledger, ?_, hdocumented, ?_⟩
    · rw [hdone]
      exact (hs.steers.operate hfm (hmanager ▸ hreports) hop).activeAlert _
    · rw [hdone]
      exact hdecides.namesAlert hfm hal hs

end SupervisorThreads

/-- `applyChanges` or `setFeatureEnabled` has returned. -/
def CallPc.isReturned : CallPc → Bool
  | .returned _ => true
  | _ => false

/-- **In order, in step.**  In every run in which no write overtakes an earlier one to the same
place, once all calls have returned every setting that was ever changed, the installed policy and
the active alert are those of the manager's enabled set. -/
theorem in_step_of_inOrder {fm : FeatureManager M}
    (hfm : fm.Contract (FeatureSupervisor.buildGraph fm) supervisorGroups)
    (hal : AlertContract fm (FeatureSupervisor.buildGraph fm)) (cfg : BalancerConfig F)
    (policy : SchedulingPolicy) (composite : CompositePolicyConfig) (affinityMatrix : Bool)
    {s : SupervisorThreads M F}
    (hs : (supervisorThreads fm (.create cfg policy composite) affinityMatrix).Reach
      SupervisorThreads.InOrder s)
    (hreturned : ∀ pc ∈ s.calls, pc.isReturned = true) :
    (∀ x : Toggle, x.feature ∈ s.supervisor.switched →
      InStep fm s.supervisor.mManager s.supervisor.mBalancer x) ∧
    PolicyInStep fm s.supervisor.mManager s.supervisor.mBalancer ∧
    NamesAlert fm s.supervisor.mManager s.supervisor.mActiveAlert := by
  have hsound : s.Sound fm := by
    apply Machine.Reach.invariant (I := SupervisorThreads.Sound fm) _ _ hs
    · have hsteers := FeatureSupervisor.Steers.create hfm cfg policy composite affinityMatrix
      refine ⟨⟨List.nodup_nil, by simp [supervisorThreads], by simp [supervisorThreads],
        by simp [supervisorThreads]⟩, hsteers, by rintro pc ⟨⟩, ?_⟩
      exact .of_enabled (hfm.exclusive _ hsteers.operated _ (by simp [supervisorGroups])) hal.idle
        (by decide) rfl
    · intro s s' e _ hs hok h
      exact hs.step hfm hal hok h
  -- a returned call owes nothing
  have hpending : s.pending = [] := by
    rw [SupervisorThreads.pending, List.flatMap_eq_nil_iff]
    intro i _
    rw [SupervisorThreads.owedBy]
    cases hi : s.calls[i]? with
    | none => rfl
    | some pc =>
        have hpc := hreturned pc (List.mem_of_getElem? hi)
        cases pc <;> first | rfl | cases hpc
  have hsettled : s.settled = s.supervisor := by
    rw [SupervisorThreads.settled, hpending]
    rfl
  obtain ⟨-, hsteers, -, halert⟩ := hsound
  rw [hsettled] at hsteers halert
  exact ⟨hsteers.switched, hsteers.policy, halert⟩

/-! ## On the reference manager -/

namespace FeatureGraph

theorem commit_isEnabled {g : FeatureGraph} {requested a : String} {on : List String}
    (h : on.contains a = g.enabled.contains a) :
    manager.isEnabled (g.commit requested on).manager a = manager.isEnabled g a := by
  rw [commit]
  split
  · rfl
  · exact h

/-- No edge of the supervisor's graph leads to an alert. -/
theorem not_mem_entailed {g : FeatureGraph} (hg : g.edges = FeatureSupervisor.kEntails)
    (f : String) {a : String} (ha : isAlertFeature a = true) : a ∉ g.entailed f := by
  intro hmem
  have htargets : ∀ edge ∈ FeatureSupervisor.kEntails, isAlertFeature edge.2 = false := by decide
  obtain ⟨edge, hedge, rfl⟩ := List.mem_map.mp hmem
  have hnot := htargets edge (hg ▸ (List.mem_filter.mp hedge).1)
  rw [ha] at hnot
  cases hnot

theorem enable_keeps_alert {g : FeatureGraph} (hg : g.edges = FeatureSupervisor.kEntails)
    {f a : String} (hf : isAlertFeature f = false) (ha : isAlertFeature a = true) :
    manager.isEnabled (g.enable f).manager a = manager.isEnabled g a := by
  have hne : a ≠ f := by
    rintro rfl
    exact absurd (ha.symm.trans hf) (by decide)
  have hent := not_mem_entailed hg f ha
  rw [enable]
  split
  · apply commit_isEnabled
    rw [Bool.eq_iff_iff, List.contains_iff_mem, List.contains_iff_mem, List.mem_union_iff,
      List.mem_cons]
    tauto
  · rfl

theorem disable_keeps_alert {g : FeatureGraph} (hg : g.edges = FeatureSupervisor.kEntails)
    {f a : String} (hf : isAlertFeature f = false) (ha : isAlertFeature a = true) :
    manager.isEnabled (g.disable f).manager a = manager.isEnabled g a := by
  have hne : a ≠ f := by
    rintro rfl
    exact absurd (ha.symm.trans hf) (by decide)
  have hent := not_mem_entailed hg f ha
  rw [disable]
  split
  · apply commit_isEnabled
    rw [Bool.eq_iff_iff, List.contains_iff_mem, List.contains_iff_mem, without, List.mem_filter]
    simp [hne, hent]
  · rfl

/-- A replacement that succeeds found its target in the graph, and has enabled it. -/
theorem replace_ok {g : FeatureGraph} {f f' : String} (h : (g.replace f f').result = .ok ()) :
    manager.isEnabled (g.replace f f').manager f' = true ∧ f' ∈ g.features := by
  rw [replace] at h ⊢
  split at h
  · next hall =>
      rw [if_pos hall]
      rw [commit] at h ⊢
      split at h
      · cases h
      · next hquiet =>
          rw [if_neg hquiet]
          constructor
          · show List.contains _ f' = true
            rw [List.contains_iff_mem, List.mem_union_iff]
            exact .inr (List.mem_cons_self ..)
          · simp only [Bool.and_eq_true, List.contains_iff_mem] at hall
            exact hall.1.2
  · cases h

end FeatureGraph

theorem supervisorGraph_alertContract :
    AlertContract FeatureGraph.manager (FeatureSupervisor.buildGraph FeatureGraph.manager) := by
  have hgraph : ∀ m, FeatureGraph.manager.Operated
      (FeatureSupervisor.buildGraph FeatureGraph.manager) m →
        m.edges = FeatureSupervisor.kEntails ∧ m.features = FeatureSupervisor.kAllFeatures := by
    intro m hm
    apply FeatureGraph.operated_induction (P := fun m : FeatureGraph =>
      m.edges = FeatureSupervisor.kEntails ∧ m.features = FeatureSupervisor.kAllFeatures)
      ⟨rfl, rfl⟩ _ hm
    rintro m o ⟨hedges, hfeatures⟩ hkeeps
    exact ⟨hkeeps.edges.trans hedges, hkeeps.features.trans hfeatures⟩
  refine ⟨by decide, ?_, ?_, ?_, ?_⟩
  · intro m f g _ hok
    exact (FeatureGraph.replace_ok hok).1
  · intro m f g hm hok
    exact (hgraph m hm).2 ▸ (FeatureGraph.replace_ok hok).2
  · intro m f a hm hf ha
    exact FeatureGraph.enable_keeps_alert (hgraph m hm).1 hf ha
  · intro m f a hm hf ha
    exact FeatureGraph.disable_keeps_alert (hgraph m hm).1 hf ha

/-- Two calls that cross, and an alert raised at the same time, written in the order of the
commits. -/
def crossingCalls : List SupervisorEvent :=
  [.setFeatureEnabled kFeatureAging true, .setFeatureEnabled kFeatureAging false,
    .applyChanges kAlertOverload, .step 0, .step 2, .step 1, .step 2, .step 0, .step 1, .step 0,
    .step 1] ++ List.replicate 7 (.step 2)

theorem in_step_of_inOrder_crossing :
    ∃ s, (supervisorThreads FeatureGraph.manager emptyBalancer false).Reach
        SupervisorThreads.InOrder s ∧
      (kFeatureAging ∈ s.supervisor.switched ∧
        InStep FeatureGraph.manager s.supervisor.mManager s.supervisor.mBalancer .aging) ∧
      NamesAlert FeatureGraph.manager s.supervisor.mManager s.supervisor.mActiveAlert := by
  obtain ⟨s, hs, hend⟩ := (supervisorThreads FeatureGraph.manager emptyBalancer false).exists_reach
    SupervisorThreads.InOrder crossingCalls
    (fun s => s.calls.all CallPc.isReturned && s.supervisor.switched.contains kFeatureAging)
    (by decide +kernel)
  rw [Bool.and_eq_true, List.all_eq_true, List.contains_iff_mem] at hend
  obtain ⟨htoggles, -, halert⟩ := in_step_of_inOrder supervisorGraph_contract
    supervisorGraph_alertContract _ _ _ _ hs hend.1
  exact ⟨s, hs, ⟨hend.2, htoggles .aging hend.2⟩, halert⟩

/-- The notification of the first commit arrives after that of the second, and stays. -/
theorem stale_notification_stays :
    FeatureGraph.manager.Contract (FeatureSupervisor.buildGraph FeatureGraph.manager)
        supervisorGroups ∧
      AlertContract FeatureGraph.manager (FeatureSupervisor.buildGraph FeatureGraph.manager) ∧
      ∃ s, (supervisorThreads FeatureGraph.manager emptyBalancer false).Reach Machine.anyEvent s ∧
        (s.calls.all CallPc.isReturned && s.supervisor.switched.contains kFeatureAging &&
          s.supervisor.mBalancer.isAgingEnabled &&
          !FeatureGraph.manager.isEnabled s.supervisor.mManager kFeatureAging) = true :=
  ⟨supervisorGraph_contract, supervisorGraph_alertContract,
    (supervisorThreads FeatureGraph.manager emptyBalancer false).exists_reach Machine.anyEvent
      [.setFeatureEnabled kFeatureAging true, .setFeatureEnabled kFeatureAging false,
        .step 0, .step 1, .step 1, .step 1, .step 0, .step 0] _ (by decide +kernel)⟩

end FatpBalancer
