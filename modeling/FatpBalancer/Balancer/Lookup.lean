/-
# Finding a job by its handle

The routing map holds one entry for each dispatch that is registered and not yet erased, and it is
the dispatch's own entry, as long as no handle is minted for which a dispatch or an entry is left.
A dispatched job is then found under the handle its submitter got back from the node; a held job is
found under its holding handle until the drain thread takes it out of the queue, and never again.

`Indexes` is the general part: a map that holds the values of the routed dispatches under their keys
keeps doing so when a dispatch is inserted or erased, provided no two of them have the same key.
`RoutedInv` applies it to the routing map, and the tracking of job ids uses it again.  The provision
is `UniqueHandles`: nodes mint their handles without knowing of each other, so that two of them may
mint the same one, and the condition says of a run that they do not while it matters.

`LiveInv` adds that a live dispatch, once entered, is not erased by anyone else, and `NodesInv` that
its node is one of the balancer's, so that a lookup ends at a node that can be asked to cancel.
-/
import FatpBalancer.Balancer.Routing

universe u

namespace FatpBalancer

open Machine

variable {F : Type u} [FloatOps F] {cfg : BalancerConfig F} {inp : Input} {ev : Event}
  {s s' t : State F}

/-! ## Maps that index the routed dispatches

Stated for a key and a value that are functions of the dispatch, since the routing state is spread
over several maps with the same life cycle. -/

section Index

variable {K V : Type} [DecidableEq K] {key : Dispatch → K} {value : Dispatch → V}
  {l l' : List Dispatch} {m m' : HashMap K V}

/-- The map holds the value of each routed dispatch under its key, and nothing else. -/
structure Indexes (key : Dispatch → K) (value : Dispatch → V) (l : List Dispatch)
    (m : HashMap K V) : Prop where
  own : ∀ {k : Nat} {d : Dispatch}, l[k]? = some d → d.routed = true →
    m.lookup (key d) = some (value d)
  owned : ∀ {x : K} {v : V}, m.lookup x = some v →
    ∃ (k : Nat) (d : Dispatch), l[k]? = some d ∧ d.routed = true ∧ key d = x ∧ value d = v

/-- Dispatches keep their key and value, and new ones are not routed. -/
structure Continues (key : Dispatch → K) (value : Dispatch → V) (l l' : List Dispatch) : Prop where
  next : ∀ {k : Nat} {d : Dispatch}, l[k]? = some d →
    ∃ d', l'[k]? = some d' ∧ key d' = key d ∧ value d' = value d
  cases : ∀ {k : Nat} {d' : Dispatch}, l'[k]? = some d' → d'.routed = false ∨
    ∃ d, l[k]? = some d ∧ key d' = key d ∧ value d' = value d

/-- A step that leaves the map and the routed dispatches alone. -/
theorem Indexes.kept (h : Indexes key value l m) (hl : Continues key value l l')
    (hm : ∀ x, m'.lookup x = m.lookup x)
    (hrouted : ∀ {k : Nat} {d d' : Dispatch}, l[k]? = some d → l'[k]? = some d' →
      d'.routed = d.routed) : Indexes key value l' m' where
  own hd' hr := by
    rcases hl.cases hd' with hnot | ⟨d, hd, hkey, hvalue⟩
    · rw [hnot] at hr
      cases hr
    · rw [hm, hkey, hvalue]
      exact h.own hd (hrouted hd hd' ▸ hr)
  owned hx := by
    obtain ⟨k, d, hd, hr, hkey, hvalue⟩ := h.owned (hm _ ▸ hx)
    obtain ⟨d', hd', hkey', hvalue'⟩ := hl.next hd
    exact ⟨k, d', hd', hrouted hd hd' ▸ hr, hkey'.trans hkey, hvalue'.trans hvalue⟩

/-- A dispatch that becomes routed is inserted under its key, which no other routed dispatch bears.
-/
theorem Indexes.insert (h : Indexes key value l m) (hl : Continues key value l l') {k₀ : Nat}
    {d₀ : Dispatch} (hd₀ : l[k₀]? = some d₀) (habsent : m.lookup (key d₀) = none)
    (hm : ∀ x, m'.lookup x = if x = key d₀ then some (value d₀) else m.lookup x)
    (hrouted : ∀ {k : Nat} {d d' : Dispatch}, l[k]? = some d → l'[k]? = some d' →
      d'.routed = if k = k₀ then true else d.routed) : Indexes key value l' m' where
  own {k d'} hd' hr := by
    rcases hl.cases hd' with hnot | ⟨d, hd, hkey, hvalue⟩
    · rw [hnot] at hr
      cases hr
    · rw [hm, hkey, hvalue]
      by_cases hk : k = k₀
      · obtain rfl : d = d₀ := Option.some.inj (hd.symm.trans (hk ▸ hd₀))
        rw [if_pos rfl]
      -- an entry that was there is not under the new key
      · rw [hrouted hd hd', if_neg hk] at hr
        have hown := h.own hd hr
        rw [if_neg ?_, hown]
        intro heq
        rw [heq, habsent] at hown
        cases hown
  owned {x v} hx := by
    rw [hm] at hx
    split at hx
    · next heq =>
        -- the new entry is that of the new position
        obtain ⟨d', hd', hkey, hvalue⟩ := hl.next hd₀
        refine ⟨k₀, d', hd', ?_, hkey.trans heq.symm, hvalue.trans (Option.some.inj hx)⟩
        rw [hrouted hd₀ hd', if_pos rfl]
    · obtain ⟨k, d, hd, hr, hkey, hvalue⟩ := h.owned hx
      obtain ⟨d', hd', hkey', hvalue'⟩ := hl.next hd
      exact ⟨k, d', hd', by rw [hrouted hd hd', hr, ite_self], hkey'.trans hkey,
        hvalue'.trans hvalue⟩

/-- A dispatch that stops being routed takes its key with it. -/
theorem Indexes.erase (h : Indexes key value l m) (hl : Continues key value l l') {k₀ : Nat}
    {d₀ : Dispatch} (hd₀ : l[k₀]? = some d₀)
    (honly : ∀ {k : Nat} {d : Dispatch}, l[k]? = some d → d.routed = true → key d = key d₀ →
      k = k₀)
    (hm : ∀ x, m'.lookup x = if x = key d₀ then none else m.lookup x)
    (hrouted : ∀ {k : Nat} {d d' : Dispatch}, l[k]? = some d → l'[k]? = some d' →
      d'.routed = if k = k₀ then false else d.routed) : Indexes key value l' m' where
  own {k d'} hd' hr := by
    rcases hl.cases hd' with hnot | ⟨d, hd, hkey, hvalue⟩
    · rw [hnot] at hr
      cases hr
    · rw [hrouted hd hd'] at hr
      split at hr
      · cases hr
      -- another position has another key
      · next hk => rw [hm, hkey, hvalue, if_neg (fun heq => hk (honly hd hr heq)), h.own hd hr]
  owned {x v} hx := by
    rw [hm] at hx
    split at hx
    · cases hx
    · next hne =>
        obtain ⟨k, d, hd, hr, hkey, hvalue⟩ := h.owned hx
        obtain ⟨d', hd', hkey', hvalue'⟩ := hl.next hd
        refine ⟨k, d', hd', ?_, hkey'.trans hkey, hvalue'.trans hvalue⟩
        rw [hrouted hd hd', if_neg ?_, hr]
        rintro rfl
        exact hne (hkey.symm.trans (congrArg key (Option.some.inj (hd.symm.trans hd₀))))

end Index

/-- No step changes the key or the value of a dispatch. -/
theorem Move.continues (hm : Move cfg ev s s') {K V : Type} (key : Dispatch → K)
    (value : Dispatch → V)
    (hsame : ∀ (k : Nat) (d d' : Dispatch), DispatchMove k d d' → key d' = key d ∧ value d' = value d) :
    Continues key value s.dispatches s'.dispatches where
  next hd := by
    obtain ⟨d', hd', hmove⟩ := hm.dispatch_next hd
    exact ⟨d', hd', hsame _ _ _ hmove⟩
  cases hd' := by
    rcases hm.dispatches.1 _ _ hd' with ⟨d, hd, hmove⟩ | ⟨-, hfresh⟩
    · exact .inr ⟨d, hd, hsame _ _ _ hmove⟩
    · exact .inl hfresh.routed

/-- A node's step leaves the handle and the job of its dispatch alone. -/
theorem DispatchMove.info {k : Nat} {d d' : Dispatch} (h : DispatchMove k d d') :
    d'.info = d.info := by
  obtain ⟨-, hjob, -, hnode⟩ := h.same
  rw [Dispatch.info, hjob, hnode]
  rfl

/-! ## The entries of the routing map

A registration inserts the entry and `eraseRoutingState` takes it out again, both under the raw node
handle.  A second dispatch under the same handle would share the entry, so the handles have to be
told apart. -/

/-- The dispatch has an entry in the routing map, or may still get one. -/
def Pending (s : State F) (d : Dispatch) : Prop := d.routed = true ∨ closed s d = false

/-- The routing map holds the routed dispatches, and pending handles are told apart. -/
structure RoutedInv (s : State F) : Prop where
  handles : Indexes Dispatch.handle Dispatch.info s.dispatches s.m.mHandleToJobInfo
  unique : OneBears s.dispatches (Pending s)

/-- The dispatch a registration is about to enter is not in the map, and no other is under its
handle. -/
theorem RoutedInv.absent (h : RoutedInv s) {who : Option CallId} {r : Register} {d : Dispatch}
    (hr : Registers s who r d) (hstage : r.stage = .insert) :
    s.m.mHandleToJobInfo.lookup d.handle = none := by
  cases hroute : s.m.mHandleToJobInfo.lookup d.handle with
  | none => rfl
  | some info =>
      obtain ⟨k, d', hd', hrouted, hhandle, -⟩ := h.handles.owned hroute
      obtain rfl := h.unique hd' hr.dispatch hhandle (.inl hrouted) (.inr (hr.open hstage))
      obtain rfl := Option.some.inj (hd'.symm.trans hr.dispatch)
      rw [hr.routed hstage] at hrouted
      cases hrouted

/-- A dispatch that is pending after a step was pending before it. -/
theorem Move.pending_back (hm : Move cfg ev s s') (hr : RegisteringInv s) {k : Nat}
    {d d' : Dispatch} (hd : s.dispatches[k]? = some d) (hd' : s'.dispatches[k]? = some d')
    (hmove : DispatchMove k d d') (hp : Pending s' d') : Pending s d := by
  rcases hp with hrouted | hopen
  · cases hm.routes with
    | kept _ _ hsame => exact .inl (hsame hd hd' ▸ hrouted)
    | insert who r hrun hstage _ _ hsame =>
        by_cases hk : k = r.dispatch
        · subst hk
          obtain ⟨d₀, hd₀⟩ := hr.registers hrun
          obtain rfl := Option.some.inj (hd₀.dispatch.symm.trans hd)
          exact .inr (hd₀.open hstage)
        · rw [hsame hd hd', if_neg hk] at hrouted
          exact .inl hrouted
    | erase f handle hf hstage hsome _ _ hsame =>
        rw [hsame hd hd'] at hrouted
        split at hrouted
        · cases hrouted
        · exact .inl hrouted
  · exact .inr (hm.closed_back hmove hopen)

/-- Insertion and erasure are the two steps that touch the map. -/
theorem RoutedInv.next (h : RoutedInv s) (hm : Move cfg ev s s') (hr : RegisteringInv s)
    (hf : FinalizingInv s) (ha : AccountingInv s)
    (hmint : ∀ mint ∈ s.nodeMints ev, ∀ (k : Nat) (d : Dispatch), s.dispatches[k]? = some d →
      d.handle = mint.2 → ¬Pending s d) : RoutedInv s' where
  handles := by
    have hl := hm.continues Dispatch.handle Dispatch.info fun _ _ _ hmove =>
      ⟨hmove.same.2.2.1, hmove.info⟩
    cases hm.routes with
    | kept hhandles _ hsame => exact h.handles.kept hl (fun x => by rw [hhandles]) hsame
    | insert who r hrun hstage hhandles _ hsame =>
        obtain ⟨d, hd⟩ := hr.registers hrun
        have habsent := h.absent hd hstage
        refine h.handles.insert hl hd.dispatch habsent (fun x => ?_) hsame
        rw [hd.handle] at habsent ⊢
        rw [hhandles, insertRoutingState, HashMap.put_of_absent habsent,
          HashMap.lookup_insert_eq, Dispatch.info, hd.job, hd.nodeId]
    | erase f handle hfin hstage hsome hhandles _ hsame =>
        obtain ⟨k, d, hk, hd, -, rfl, hopen⟩ := hf.routed_dispatch ha hfin hsome
        refine h.handles.erase hl hd (fun hd' hr' heq => h.unique hd' hd heq (.inl hr') (.inr hopen))
          (fun x => ?_) fun hd hd' => ?_
        · rw [hhandles]
          split
          · next heq => rw [heq, lookup_eraseRoutingState_self]
          · next hne => exact lookup_eraseRoutingState_ne _ hne
        · rw [hsame hd hd', hk]
          simp only [Option.some.injEq, eq_comm]
  unique := h.unique.next hm (fun _ _ _ hd hd' hmove => hm.pending_back hr hd hd' hmove) hmint

/-- The step mints a node handle without the holding bit, which no dispatch that is not closed bears
and for which no routing entry is left. -/
def UniqueHandles (s : State F) (ev : Event) : Prop :=
  ∀ mint ∈ s.nodeMints ev, isHoldingHandle mint.2 = false ∧ freeOnNodes s mint.2 = true ∧
    s.m.mHandleToJobInfo.lookup mint.2 = none

instance (s : State F) (ev : Event) : Decidable (UniqueHandles s ev) :=
  inferInstanceAs (Decidable (∀ mint ∈ s.nodeMints ev, _ ∧ _))

/-- In every state of a run in which handles are unique. -/
theorem routedInv_reach (hs : (balancer cfg).Reach UniqueHandles s) : RoutedInv s := by
  refine hs.invariant (I := RoutedInv)
    ⟨⟨fun hd => (by cases hd), fun hroute => (by cases hroute)⟩, fun _ _ _ _ hd => (by cases hd)⟩
    fun ev hr h hok hstep => ?_
  refine h.next (step_move hstep) (registeringInv_reach hr) (finalizingInv_reach hr.unguarded)
    (accountingInv_reach hr) fun mint hmint k d hd hhandle hp => ?_
  obtain ⟨-, hfree, hroute⟩ := hok mint hmint
  rcases hp with hrouted | hopen
  · rw [← hhandle, h.handles.own hd hrouted] at hroute
    cases hroute
  · rw [closed_of_freeOnNodes (hhandle ▸ hfree) hd] at hopen
    cases hopen

/-! ## Live dispatches stay in the map

The entry of a dispatch is erased by the finalisation of its own job, and that runs only after the
node has let go of it. -/

/-- A dispatch that is live after a step was live before. -/
theorem DispatchMove.live_back {k : Nat} {d d' : Dispatch} (h : DispatchMove k d d')
    (hlive : d'.side = .live) : d.side = .live := by
  cases h with
  | flags d' hcore => exact (Dispatch.sameCore hcore).side.symm.trans hlive
  | finalize f f' d' hside hcore => cases f' <;> cases hlive
  | publish handle => exact hlive
  | _ => cases hlive

/-- A live dispatch that has been entered into the routing map is still there. -/
structure LiveInv (s : State F) : Prop where
  registering : ∀ {who : Option CallId} {r : Register} {d : Dispatch}, s.registerOf who = some r →
    s.dispatches[r.dispatch]? = some d → d.side = .live → r.stage ≠ .insert → d.routed = true
  settled : ∀ {k : Nat} {d : Dispatch}, s.dispatches[k]? = some d → d.side = .live →
    d.settled = true → d.routed = true

/-- A step that erases the entry of a dispatch finds it past its life on the node. -/
theorem Move.routed_live (hm : Move cfg ev s s') (hf : FinalizingInv s) {k : Nat}
    {d d' : Dispatch} (hd : s.dispatches[k]? = some d) (hd' : s'.dispatches[k]? = some d')
    (hlive : d.side = .live) (hrouted : d.routed = true) : d'.routed = true := by
  cases hm.routes with
  | kept _ _ hsame => rw [hsame hd hd', hrouted]
  | insert who r hrun hstage _ _ hsame => rw [hsame hd hd', hrouted, ite_self]
  | erase f handle hfin hstage hsome _ _ hsame =>
      rw [hsame hd hd', if_neg ?_, hrouted]
      intro hk
      obtain ⟨d₀, hd₀, hfd⟩ := (hf.finalizes hfin).dispatched k hk
      obtain rfl := Option.some.inj (hd.symm.trans hd₀)
      have hleft := hfd.left
      rw [Dispatch.left, hlive] at hleft
      cases hleft

/-- Whether the tracking of a job is settled changes in the two stages that decide it, for the dispatch
under registration. -/
theorem RegisterMove.settled_cases {r : Register} {r' : Option Register}
    (h : RegisterMove cfg inp s r t r') {k : Nat} {d d' : Dispatch}
    (hd : s.dispatches[k]? = some d) (hd' : t.dispatches[k]? = some d') :
    d'.settled = d.settled ∨
      d'.settled = true ∧ k = r.dispatch ∧ (r.stage = .checkAging ∨ r.stage = .track) := by
  cases h with
  | insert =>
      rw [getElem?_modifyDispatch hd' hd rfl]
      split <;> exact .inl rfl
  | agingOn | noDispatch => exact .inl (by rw [Option.some.inj (hd.symm.trans hd')])
  | agingOff hstage =>
      rw [getElem?_modifyDispatch hd' hd rfl]
      split
      · next hk => exact .inr ⟨rfl, (Option.some.inj hk).symm, .inl hstage⟩
      · exact .inl rfl
  | track hstage =>
      rw [getElem?_modifyDispatch hd' hd rfl]
      split
      · next hk => exact .inr ⟨rfl, (Option.some.inj hk).symm, .inr hstage⟩
      · exact .inl rfl
  | publish x hstage hx | publishEarly x job hstage hx =>
      left
      rcases Table.getElem?_set_cases hd' with ⟨rfl, rfl⟩ | ⟨-, hd'⟩
      · rw [Option.some.inj (hd.symm.trans hx)]
        rfl
      · rw [Option.some.inj (hd.symm.trans hd')]
  | finalize f hstage hf => exact .inl (hf.kept hd hd').settled

/-- A step settles a dispatch only in the aging step of its registration. -/
theorem Move.settled_cases (hm : Move cfg ev s s') {k : Nat} {d d' : Dispatch}
    (hd : s.dispatches[k]? = some d) (hd' : s'.dispatches[k]? = some d') :
    d'.settled = d.settled ∨ d'.settled = true ∧ ∃ who r, s.registerOf who = some r ∧
      k = r.dispatch ∧ (r.stage = .checkAging ∨ r.stage = .track) := by
  rcases hm.register_or_kept with ⟨who, r, t, r', calls, drain, hr, -, hrm, rfl⟩ | hkept
  · rcases hrm.settled_cases hd hd' with heq | ⟨htrue, hk, hstage⟩
    · exact .inl heq
    · exact .inr ⟨htrue, who, r, hr, hk, hstage⟩
  · exact .inl (hkept k d d' hd hd').settled

/-- The insertion marks its dispatch as routed. -/
theorem RegisterMove.routed_of_insert {r : Register} {r' : Option Register}
    (h : RegisterMove cfg inp s r t r') (hins : r.stage = .insert) {d d' : Dispatch}
    (hd : s.dispatches[r.dispatch]? = some d) (hd' : t.dispatches[r.dispatch]? = some d') :
    d'.routed = true := by
  cases h with
  | insert => rw [getElem?_modifyDispatch hd' hd rfl, if_pos rfl]
  | agingOn hstage | agingOff hstage | track hstage | noDispatch hstage | publish x hstage
  | publishEarly x job hstage | finalize f hstage =>
      rw [hins] at hstage
      cases hstage

/-- A live dispatch past its insertion stays in the map. -/
theorem LiveInv.next (h : LiveInv s) (hm : Move cfg ev s s') (hr : RegisteringInv s)
    (hf : FinalizingInv s) : LiveInv s' where
  registering {who r' d'} hrun hd' hlive hstage := by
    rcases hm.registering hrun with hold | ⟨r, t, calls, drain, hold, hrm, hs'⟩ | ⟨d, hacc⟩
    · obtain ⟨d, hd⟩ := hr.registers hold
      obtain ⟨d₁, hd₁, hmove⟩ := hm.dispatch_next hd.dispatch
      obtain rfl := Option.some.inj (hd₁.symm.trans hd')
      have hlive := hmove.live_back hlive
      exact hm.routed_live hf hd.dispatch hd' hlive (h.registering hold hd.dispatch hlive hstage)
    · obtain ⟨d, hd⟩ := hr.registers hold
      obtain ⟨d₁, hd₁, hmove⟩ := hm.dispatch_next hd.dispatch
      have ht : t.dispatches[r.dispatch]? = some d₁ := by rwa [hs'] at hd₁
      obtain ⟨hr', -⟩ := hrm.registers rfl hd ht
      rw [hr'] at hd'
      obtain rfl := Option.some.inj (hd₁.symm.trans hd')
      -- the insertion itself routes the dispatch; later stages find it routed
      by_cases hins : r.stage = .insert
      · exact hrm.routed_of_insert hins hd.dispatch ht
      · have hlive := hmove.live_back hlive
        exact hm.routed_live hf hd.dispatch hd' hlive (h.registering hold hd.dispatch hlive hins)
    · rw [hacc.register] at hstage
      exact absurd rfl hstage
  settled {k d'} hd' hlive hsettled := by
    rcases hm.dispatches.1 k d' hd' with ⟨d, hd, hmove⟩ | ⟨-, hfresh⟩
    · have hlive := hmove.live_back hlive
      refine hm.routed_live hf hd hd' hlive ?_
      rcases hm.settled_cases hd hd' with heq | ⟨-, who, r, hrun, rfl, hstage⟩
      · exact h.settled hd hlive (heq.symm.trans hsettled)
      · refine h.registering hrun hd hlive fun hins => ?_
        rw [hins] at hstage
        rcases hstage with hstage | hstage <;> cases hstage
    · rw [hfresh.settled] at hsettled
      cases hsettled

/-- In every state of a run in which handles are unique. -/
theorem liveInv_reach {ok : State F → Event → Prop} (hs : (balancer cfg).Reach ok s) :
    LiveInv s := by
  refine hs.invariant (I := LiveInv) ⟨fun {who} _ _ hr => ?_, fun hd => by cases hd⟩
    fun ev hr h _ hstep => h.next (step_move hstep) (registeringInv_reach hr)
      (finalizingInv_reach hr.unguarded)
  cases who <;> cases hr

/-! ## The nodes of the balancer

`submit` and the drain loop look the selected node up among the balancer's own, so that no dispatch
bears the identity of another one. -/

/-- The node a `submit` call is offering its job to. -/
def SubmitPc.node? : SubmitPc → Option NodeId
  | .assignId nodeId | .nodeSubmit nodeId _ => some nodeId
  | _ => none

/-- The node the drain thread is offering its job to. -/
def DrainPc.node? : DrainPc → Option NodeId
  | .nodeSubmit nodeId _ => some nodeId
  | _ => none

/-- Jobs are offered to nodes of the balancer only. -/
structure NodesInv (cfg : BalancerConfig F) (s : State F) : Prop where
  calls : ∀ {i : CallId} {c : Call} {nodeId : NodeId}, s.calls[i]? = some c →
    c.pc.node? = some nodeId → findNode cfg nodeId = some nodeId
  drain : ∀ {nodeId : NodeId}, s.drain.node? = some nodeId → findNode cfg nodeId = some nodeId
  dispatches : ∀ {k : Nat} {d : Dispatch}, s.dispatches[k]? = some d →
    findNode cfg d.nodeId = some d.nodeId

/-- The call was offering its job to this node before, or has just found it. -/
theorem SubmitMove.node_cases {i : CallId} {c : Call} (h : SubmitMove cfg inp s i c s') :
    ∃ c', s'.calls = s.calls.set i c' ∧ ∀ nodeId, c'.pc.node? = some nodeId →
      c.pc.node? = some nodeId ∨ findNode cfg nodeId = some nodeId := by
  cases h with
  | selected nodeId hpc hnode =>
      exact ⟨_, rfl, fun x hx => by cases hx; exact .inr hnode⟩
  | assignId nodeId hpc => exact ⟨_, rfl, fun x hx => by rw [hpc]; exact .inl hx⟩
  | advance ac pc hpc hpc' =>
      refine ⟨_, rfl, fun x hx => ?_⟩
      rcases hpc' with hpc' | rfl
      · cases pc <;> simp_all [SubmitPc.node?, SubmitPc.gated]
      · cases hx
  | @register r t r' hpc hr =>
      refine ⟨{ c with pc := r'.elim (.returned (.ok r.handle)) .register }, ?_, fun x hx => ?_⟩
      · rw [State.submitAt, hr.sameOutside.calls]
      · cases r' <;> cases hx
  | _ => exact ⟨_, rfl, fun x hx => by cases hx⟩

/-- Every offer begins with a lookup. -/
theorem NodesInv.next (h : NodesInv cfg s) (hm : Move cfg ev s s') : NodesInv cfg s' where
  calls {i c' nodeId} hc' hnode := by
    rcases hm.call_back hc' with hentered | ⟨c, hc, rfl | ⟨-, hm⟩⟩
    · rw [hentered] at hnode
      cases hnode
    · exact h.calls hc hnode
    · obtain ⟨c₁, hcalls, hcases⟩ := hm.node_cases
      obtain rfl := call_of_set hc hc' hcalls
      exact (hcases nodeId hnode).elim (h.calls hc) id
  drain {nodeId} hnode := by
    rcases hm.drain_cases with heq | hm
    · exact h.drain (heq ▸ hnode)
    · cases hm with
      | selected entry nodeId' hpc hfound =>
          cases hnode
          exact hfound
      | @dropping f t f' hpc hf => cases f' <;> cases hnode
      | @register r t r' hpc hr => cases r' <;> cases hnode
      | _ => cases hnode
  dispatches {k d'} hd' := by
    rcases hm.dispatches.1 k d' hd' with ⟨d, hd, hmove⟩ | ⟨hnone, -⟩
    · rw [hmove.same.2.2.2]
      exact h.dispatches hd
    · obtain ⟨-, ⟨i, c, job, hc, hpc, -⟩ | ⟨entry, hpc, -⟩⟩ := hm.fresh hnone hd'
      · exact h.calls hc (by rw [hpc]; rfl)
      · exact h.drain (by rw [hpc]; rfl)

/-- In every reachable state, under any assumption on the steps. -/
theorem nodesInv_reach {ok : State F → Event → Prop} (hs : (balancer cfg).Reach ok s) :
    NodesInv cfg s :=
  hs.invariant (I := NodesInv cfg)
    ⟨fun hc => (by cases hc), fun hnode => (by cases hnode), fun hd => (by cases hd)⟩
    fun _ _ h _ hstep => h.next (step_move hstep)

end FatpBalancer
