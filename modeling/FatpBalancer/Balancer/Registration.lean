/-
# Registrations under way

A dispatch is registered by one thread: the `submit` call it came from, or the drain thread.  Until
that thread publishes the registration state, the callback leaves a completed job there; what is
published carries the dispatch's own handle and is past the aging step.

`Registers` says what a registration finds of its dispatch at each stage, `Dispatch.Published` what
is true of a dispatch whose registration state is published.  A registration step changes its own
dispatch only; of every other step `Dispatch.Kept` says what it leaves of a dispatch, so that the
two cases of `Move.register_or_kept` are all there is to prove.
-/
import FatpBalancer.Balancer.Provenance

universe u

namespace FatpBalancer

open Machine

variable {F : Type u} [FloatOps F] {cfg : BalancerConfig F} {inp : Input} {ev : Event}
  {s s' : State F}

/-! ## Registrations and their dispatches

The thread that has had a job accepted is the only one to write the registration state, until it
publishes it. -/

/-- How far a registration has come with the flags of its dispatch. -/
def RegisterStage.unpublished : RegisterStage → Bool
  | .finalize _ => false
  | _ => true

/-- The registration is past the aging step. -/
def RegisterStage.settled : RegisterStage → Bool
  | .publish | .finalize _ => true
  | _ => false

/-- A registration returns after it has published, or after finalising an early-completed job. -/
theorem RegisterMove.settled_of_none {r : Register} {r' : Option Register}
    (h : RegisterMove cfg inp s r s' r') (hnone : r' = none) : r.stage.settled = true := by
  cases h with
  | noDispatch hstage | publish d hstage | finalize f hstage =>
      rw [hstage]
      rfl
  | _ => cases hnone

/-- The dispatch a registration is about, as that registration finds it. -/
structure Registers (s : State F) (who : Option CallId) (r : Register) (d : Dispatch) : Prop where
  dispatch : s.dispatches[r.dispatch]? = some d
  handle : d.handle = r.handle
  nodeId : d.nodeId = r.nodeId
  job : d.capturedJob = r.job
  submitter : ∀ i, who = some i → d.call = i
  held : who = none → ∃ c handle, s.calls[d.call]? = some c ∧ c.pc.heldHandle? = some handle
  published : r.stage.unpublished = true → d.regState.published = false
  settled : d.settled = r.stage.settled
  routed : r.stage = .insert → d.routed = false

/-- What is published is settled, and carries the dispatch's own handle. -/
structure Dispatch.Published (d : Dispatch) : Prop where
  handle : d.regState.published = true → d.regState.handle = some d.handle
  settled : d.regState.published = true → d.settled = true

/-- Every registration under way finds its dispatch as it expects it. -/
structure RegisteringInv (s : State F) : Prop where
  registers : ∀ {who r}, s.registerOf who = some r → ∃ d, Registers s who r d
  published : ∀ {k : Nat} {d : Dispatch}, s.dispatches[k]? = some d → d.Published

/-- Two threads never register the same dispatch. -/
theorem RegisteringInv.unique (h : RegisteringInv s) {who who' : Option CallId} {r r' : Register}
    (hr : s.registerOf who = some r) (hr' : s.registerOf who' = some r')
    (hk : r.dispatch = r'.dispatch) : who = who' := by
  obtain ⟨d, hd⟩ := h.registers hr
  obtain ⟨d', hd'⟩ := h.registers hr'
  obtain rfl : d = d' := Option.some.inj (hd.dispatch.symm.trans (hk ▸ hd'.dispatch))
  have hheld : ∀ {i r}, s.registerOf (some i) = some r → d.call = i →
      ¬∃ c handle, s.calls[d.call]? = some c ∧ c.pc.heldHandle? = some handle := by
    rintro i r hr rfl ⟨c, handle, hc, hheld⟩
    simp only [State.registerOf, hc, Option.bind_some] at hr
    cases hpc : c.pc <;> simp [hpc, SubmitPc.register?, SubmitPc.heldHandle?] at hr hheld
  cases who with
  | none =>
      cases who' with
      | none => rfl
      | some j => exact absurd (hd.held rfl) (hheld hr' (hd'.submitter j rfl))
  | some i =>
      cases who' with
      | none => exact absurd (hd'.held rfl) (hheld hr (hd.submitter i rfl))
      | some j => rw [← hd.submitter i rfl, ← hd'.submitter j rfl]

/-- What a step that is not a registration step leaves of a dispatch. -/
structure Dispatch.Kept (d d' : Dispatch) : Prop where
  published : d'.regState.published = d.regState.published
  handle : d'.regState.handle = d.regState.handle
  settled : d'.settled = d.settled
  routed : d'.routed = true → d.routed = true


/-- A published dispatch stays published. -/
theorem Dispatch.Published.kept {d d' : Dispatch} (h : d.Published) (hkept : d.Kept d')
    (hhandle : d'.handle = d.handle) : d'.Published where
  handle hp := by rw [hkept.handle, h.handle (hkept.published ▸ hp), hhandle]
  settled hp := by rw [hkept.settled, h.settled (hkept.published ▸ hp)]

/-- A dispatch that is not touched is kept. -/
theorem Dispatch.Kept.refl (d : Dispatch) : d.Kept d := ⟨rfl, rfl, rfl, id⟩

/-- So are all of them when the table is the same. -/
theorem kept_of_eq {l l' : List Dispatch} {k : Nat} {d d' : Dispatch} (hd : l[k]? = some d)
    (hd' : l'[k]? = some d') (heq : l' = l) : d.Kept d' := by
  obtain rfl : d = d' := Option.some.inj (hd.symm.trans (heq ▸ hd'))
  exact .refl d

/-- A modification of the flags keeps the rest. -/
theorem modifyDispatch_kept {j : Option Nat} {g : Dispatch → Dispatch} {k : Nat} {d d' : Dispatch}
    (hd' : (modifyDispatch s j g).dispatches[k]? = some d') (hd : s.dispatches[k]? = some d)
    (hg : ∀ d : Dispatch, d.Kept (g d)) : d.Kept d' := by
  cases j with
  | none => exact kept_of_eq hd hd' rfl
  | some j =>
      simp only [modifyDispatch, List.getElem?_modify, hd] at hd'
      obtain rfl := Option.some.inj hd'
      dsimp only
      split
      · exact hg d
      · exact .refl d

/-- Finalisation writes flags only. -/
theorem FinalizeMove.kept {f : Finalize} {f' : Option Finalize} (h : FinalizeMove s f s' f')
    {k : Nat} {d d' : Dispatch} (hd : s.dispatches[k]? = some d)
    (hd' : s'.dispatches[k]? = some d') : d.Kept d' := by
  cases h with
  | learn | skip | count | held | release => exact kept_of_eq hd hd' rfl
  | untrack => exact modifyDispatch_kept hd' hd fun _ => ⟨rfl, rfl, rfl, id⟩
  | unroute handle => exact modifyDispatch_kept hd' hd fun _ => ⟨rfl, rfl, rfl, nofun⟩

theorem Dispatch.Kept.of_marks {d d' : Dispatch} (h : d'.marks = d.marks) : d.Kept d' :=
  ⟨congrArg Marks.published h, congrArg Marks.handle h, congrArg Marks.settled h,
    fun hr => (congrArg Marks.routed h).symm.trans hr⟩

/-- Two steps in a row. -/
theorem Dispatch.Kept.trans {d₁ d₂ d₃ : Dispatch} (h : d₁.Kept d₂) (h' : d₂.Kept d₃) :
    d₁.Kept d₃ :=
  ⟨h'.published.trans h.published, h'.handle.trans h.handle, h'.settled.trans h.settled,
    fun hr => h.routed (h'.routed hr)⟩

theorem getElem?_marks {l l' : List Dispatch}
    (h : l'.map Dispatch.marks = l.map Dispatch.marks) {k : Nat} {d' : Dispatch}
    (hd' : l'[k]? = some d') : ∃ d, l[k]? = some d ∧ d'.marks = d.marks := by
  have hk := congrArg (·[k]?) h
  simp only [List.getElem?_map, hd', Option.map_some] at hk
  obtain ⟨d, hd, hmarks⟩ := Option.map_eq_some_iff.mp hk.symm
  exact ⟨d, hd, hmarks.symm⟩

/-- A step is a step of one registration, or leaves every dispatch registered as far as it was. -/
theorem Move.register_or_kept (h : Move cfg ev s s') :
    (∃ who r t r' calls drain, s.registerOf who = some r ∧ s'.registerOf who = r' ∧
      RegisterMove cfg ev.input s r t r' ∧ s' = { t with calls := calls, drain := drain }) ∨
    ∀ (k : Nat) (d d' : Dispatch), s.dispatches[k]? = some d → s'.dispatches[k]? = some d' →
      d.Kept d' := by
  cases h.kind with
  | finalize f t f' calls dispatches cancels aging drain hf hm hmarks hs' =>
      refine .inr fun k d d' hd hd' => ?_
      rw [hs'] at hd'
      obtain ⟨x, hx, hsame⟩ := getElem?_marks hmarks hd'
      exact (hm.kept hd hx).trans (.of_marks hsame)
  | register who r t r' calls drain hr hr' hm hstage hs' =>
      exact .inl ⟨who, r, t, r', calls, drain, hr, hr', hm, hs'⟩
  | quiet hq => exact .inr fun k d d' hd hd' => .of_marks (hq.marks hd hd')

/-- What one registration step does to a dispatch: nothing registered changes, or it is the dispatch
this thread registers. -/
theorem RegisterMove.kept {r : Register} {r' : Option Register}
    (h : RegisterMove cfg inp s r s' r') {k : Nat} {d d' : Dispatch}
    (hd : s.dispatches[k]? = some d) (hd' : s'.dispatches[k]? = some d') :
    d.Kept d' ∨ k = r.dispatch ∧ r.stage.unpublished = true := by
  by_cases hk : k = r.dispatch
  · subst hk
    cases h with
    | insert hstage | agingOn hstage | agingOff hstage | track hstage | noDispatch hstage
    | publish x hstage | publishEarly x job hstage => exact .inr ⟨rfl, by rw [hstage]; rfl⟩
    | finalize f hstage hf => exact .inl (hf.kept hd hd')
  · left
    cases h with
    | insert | agingOff | track =>
        simp only [modifyDispatch, List.getElem?_modify_ne _ _ (Ne.symm hk), hd] at hd'
        obtain rfl := Option.some.inj hd'
        exact .refl d
    | agingOn | noDispatch => exact kept_of_eq hd hd' rfl
    | publish | publishEarly =>
        rw [List.getElem?_set_ne (Ne.symm hk), hd] at hd'
        obtain rfl := Option.some.inj hd'
        exact .refl d
    | finalize f hstage hf => exact hf.kept hd hd'

/-- A registration whose thread does not move goes on to find its dispatch. -/
theorem Registers.held_next {who : Option CallId} {r : Register} {d : Dispatch}
    (h : Registers s who r d) (hm : Move cfg ev s s') (hnone : who = none) :
    ∃ c handle, s'.calls[d.call]? = some c ∧ c.pc.heldHandle? = some handle := by
  obtain ⟨c, handle, hc, hheld⟩ := h.held hnone
  obtain ⟨c', hc', -, hkeep⟩ := hm.call_next hc
  exact ⟨c', handle, hc', hkeep handle hheld⟩

/-- The registration step itself, seen from the dispatch it registers. -/
theorem RegisterMove.registers {who : Option CallId} {r r' : Register} {o : Option Register}
    {d d' : Dispatch} (h : RegisterMove cfg inp s r s' o) (ho : o = some r')
    (hr : Registers s who r d) (hd' : s'.dispatches[r.dispatch]? = some d') :
    r' = { r with stage := r'.stage } ∧
      (r'.stage.unpublished = true → d'.regState.published = false) ∧
      d'.settled = r'.stage.settled ∧ r'.stage ≠ .insert := by
  have hd := hr.dispatch
  have hk : r.dispatch < s.dispatches.length := (List.getElem?_eq_some_iff.mp hd).1
  have hpublished := hr.published
  have hsettled := hr.settled
  cases h with
  | noDispatch | publish => cases ho
  | insert hstage | agingOff hstage | track hstage =>
      obtain rfl := Option.some.inj ho
      simp only [modifyDispatch, Table.modify_eq_set hd, List.getElem?_set_self hk] at hd'
      obtain rfl := Option.some.inj hd'
      rw [hstage] at hpublished hsettled
      exact ⟨rfl, hpublished, by first | rfl | exact hsettled, by rintro ⟨⟩⟩
  | agingOn hstage =>
      obtain rfl := Option.some.inj ho
      obtain rfl := Option.some.inj (hd.symm.trans hd')
      rw [hstage] at hpublished hsettled
      exact ⟨rfl, hpublished, hsettled, by rintro ⟨⟩⟩
  | publishEarly x job hstage hx =>
      obtain rfl := Option.some.inj ho
      obtain rfl := Option.some.inj (hx.symm.trans hd)
      rw [List.getElem?_set_self hk] at hd'
      obtain rfl := Option.some.inj hd'
      rw [hstage] at hsettled
      exact ⟨rfl, by rintro ⟨⟩, hsettled, by rintro ⟨⟩⟩
  | finalize f hstage hf =>
      obtain ⟨f', -, rfl⟩ := Option.map_eq_some_iff.mp ho
      have hkept := hf.kept hd hd'
      rw [hstage] at hsettled
      exact ⟨rfl, by rintro ⟨⟩, hkept.settled.trans hsettled, by rintro ⟨⟩⟩

/-- Publication leaves the dispatch as `Published` asks. -/
theorem RegisterMove.published {who : Option CallId} {r : Register} {o : Option Register}
    {d d' : Dispatch} (h : RegisterMove cfg inp s r s' o) (hr : Registers s who r d)
    (hd' : s'.dispatches[r.dispatch]? = some d') (hp : d.Published) : d'.Published := by
  have hd := hr.dispatch
  have hk : r.dispatch < s.dispatches.length := (List.getElem?_eq_some_iff.mp hd).1
  have hpublished := hr.published
  have hsettled := hr.settled
  cases h with
  | insert hstage | agingOff hstage | track hstage =>
      simp only [modifyDispatch, Table.modify_eq_set hd, List.getElem?_set_self hk] at hd'
      obtain rfl := Option.some.inj hd'
      exact ⟨hp.handle, by first | exact hp.settled | exact fun _ => rfl⟩
  | agingOn | noDispatch =>
      obtain rfl := Option.some.inj (hd.symm.trans hd')
      exact hp
  | publish x hstage hx | publishEarly x job hstage hx =>
      obtain rfl := Option.some.inj (hx.symm.trans hd)
      rw [List.getElem?_set_self hk] at hd'
      obtain rfl := Option.some.inj hd'
      rw [hstage] at hsettled
      exact ⟨fun _ => congrArg some hr.handle.symm, fun _ => hsettled⟩
  | finalize f hstage hf =>
      obtain ⟨y, hy, hcore⟩ := getElem?_core hf.dispatches_core hd
      obtain rfl := Option.some.inj (hy.symm.trans hd')
      exact hp.kept (hf.kept hd hd') (Dispatch.sameCore hcore).handle

/-- A registration whose dispatch keeps what is registered of it goes on. -/
theorem Registers.kept_next {who : Option CallId} {r : Register} {d d' : Dispatch}
    (hr : Registers s who r d) (hm : Move cfg ev s s') (hd' : s'.dispatches[r.dispatch]? = some d')
    (hkept : d.Kept d') : Registers s' who r d' := by
  obtain ⟨d₁, hd₁, hmove⟩ := hm.dispatch_next hr.dispatch
  obtain rfl := Option.some.inj (hd₁.symm.trans hd')
  obtain ⟨hcall, hjob, hhandle, hnode⟩ := hmove.same
  refine ⟨hd', hhandle.trans hr.handle, hnode.trans hr.nodeId, hjob.trans hr.job,
    fun i hi => hcall.trans (hr.submitter i hi), fun hnone => ?_,
    fun hun => hkept.published.trans (hr.published hun), hkept.settled.trans hr.settled,
    fun hins => ?_⟩
  · rw [hcall]
    exact hr.held_next hm hnone
  · -- only this registration makes the dispatch routed
    apply Bool.eq_false_iff.mpr
    intro htrue
    have hrouted := hkept.routed htrue
    rw [hr.routed hins] at hrouted
    cases hrouted

/-- A registration takes a step of its own. -/
theorem Registers.step_next {who : Option CallId} {r r' : Register} {t : State F}
    {calls : List Call} {drain : DrainPc} {d : Dispatch} (hr : Registers s who r d)
    (hm : Move cfg ev s s') (hrm : RegisterMove cfg ev.input s r t (some r'))
    (hs' : s' = { t with calls := calls, drain := drain }) : ∃ d', Registers s' who r' d' := by
  obtain ⟨d', hd', hmove⟩ := hm.dispatch_next hr.dispatch
  obtain ⟨hcall, hjob, hhandle, hnode⟩ := hmove.same
  have ht : t.dispatches[r.dispatch]? = some d' := by rwa [hs'] at hd'
  obtain ⟨hr', hpublished, hsettled, hstage⟩ := hrm.registers rfl hr ht
  rw [hr'] at hpublished hsettled ⊢
  refine ⟨d', hd', hhandle.trans hr.handle, hnode.trans hr.nodeId, hjob.trans hr.job,
    fun i hi => hcall.trans (hr.submitter i hi), fun hnone => ?_, hpublished, hsettled,
    fun hins => absurd hins hstage⟩
  rw [hcall]
  exact hr.held_next hm hnone

/-- A dispatch that a node has just accepted is registered by its submitter. -/
theorem Accepts.registers {who : Option CallId} {r : Register} {d : Dispatch}
    (hacc : Accepts s who d r s') (hheld : HeldInv s) (hm : Move cfg ev s s') :
    Registers s' who r d := by
  obtain rfl := hacc.register
  have hd : s'.dispatches[s.dispatches.length]? = some d := by simp [hacc.dispatches]
  refine ⟨hd, rfl, rfl, rfl, fun i hi => ?_, fun hnone => ?_, fun _ => ?_, hacc.fresh.settled,
    fun _ => hacc.fresh.routed⟩
  · subst hi
    exact hacc.offers.2
  · subst hnone
    obtain ⟨entry, hpc, -, hcall⟩ := hacc.offers
    obtain ⟨c, hc, hhandle⟩ := (hheld.drain (by rw [hpc]; rfl)).next hm
    exact ⟨c, entry.holdHandle, hcall ▸ hc, hhandle⟩
  · rw [hacc.fresh.regState]

/-- A registration after a step was there before, has made a step, or is of a job just accepted. -/
theorem RegisteringInv.next (h : RegisteringInv s) (hheld : HeldInv s) (hm : Move cfg ev s s') :
    RegisteringInv s' := by
  refine ⟨fun {who r'} hr => ?_, fun {k d'} hd' => ?_⟩
  · rcases hm.registering hr with hold | ⟨r, t, calls, drain, hrun, hrm, hs'⟩ | ⟨d, hacc⟩
    · obtain ⟨d, hd⟩ := h.registers hold
      obtain ⟨d', hd', -⟩ := hm.dispatch_next hd.dispatch
      rcases hm.register_or_kept with ⟨who₂, r₂, t, o, calls, drain, hr₂, ho, hrm, hs'⟩ | hkept
      · have ht : t.dispatches[r'.dispatch]? = some d' := by rwa [hs'] at hd'
        rcases hrm.kept hd.dispatch ht with hkept | ⟨hk, -⟩
        · exact ⟨d', hd.kept_next hm hd' hkept⟩
        · -- two registrations of one dispatch are one
          obtain rfl := h.unique hold hr₂ hk
          obtain rfl := Option.some.inj (hold.symm.trans hr₂)
          rw [hr] at ho
          subst ho
          exact hd.step_next hm hrm hs'
      · exact ⟨d', hd.kept_next hm hd' (hkept _ d d' hd.dispatch hd')⟩
    · obtain ⟨d, hd⟩ := h.registers hrun
      exact hd.step_next hm hrm hs'
    · exact ⟨d, hacc.registers hheld hm⟩
  · rcases hm.dispatches.1 k d' hd' with ⟨d, hd, hmove⟩ | ⟨-, hfresh⟩
    · have hkept : d.Kept d' → d'.Published := fun hkept =>
        (h.published hd).kept hkept hmove.same.2.2.1
      rcases hm.register_or_kept with ⟨who, r, t, o, calls, drain, hr, -, hrm, hs'⟩ | hall
      · have ht : t.dispatches[k]? = some d' := by rwa [hs'] at hd'
        rcases hrm.kept hd ht with hk | ⟨rfl, -⟩
        · exact hkept hk
        · obtain ⟨d₀, hd₀⟩ := h.registers hr
          obtain rfl := Option.some.inj (hd₀.dispatch.symm.trans hd)
          exact hrm.published hd₀ ht (h.published hd)
      · exact hkept (hall k d d' hd hd')
    · constructor <;> rw [hfresh.regState] <;> nofun

/-- In every reachable state, under any assumption on the steps. -/
theorem registeringInv_reach {ok : State F → Event → Prop} (hs : (balancer cfg).Reach ok s) :
    RegisteringInv s := by
  refine hs.invariant ⟨fun {who r} hr => ?_, fun hd => by cases hd⟩ fun _ hr h _ hstep =>
    h.next (heldInv_reach hr) (step_move hstep)
  cases who <;> cases hr

end FatpBalancer
