/-
# Round robin

The policy advances a 32-bit cursor with every call and starts its search at the cursor's value
modulo the number of nodes.  Calls of several threads interleave between the two: the cursor is
advanced in one atomic step, and what a call answers depends on the value it took alone.

`calls` is the machine of all callers of one policy object: a call takes a value of the cursor in
one step and answers in another, so that the values are handed out in the order of the first steps.
Which nodes `k` calls return is therefore a matter of `k` successive values, whatever the
interleaving.  The cursor wraps at 2³² and is then taken modulo the number of nodes, and the two
need not fit together.
-/
import FatpBalancer.Lib.Machine
import FatpBalancer.Lib.WrappedCycle
import FatpBalancer.Policies.Selection
import Mathlib.Data.List.Perm.Subperm

universe u

namespace FatpBalancer

namespace RoundRobin

/-! ## One call

The source searches from the cursor's position to the end of the view and then from its beginning.
-/

/-- The search for the next node that accepts the job, once round from `start`. -/
def searchFrom (job : Job) (nodes : List LoadMetrics) (start : Nat) : Except SelectError NodeId :=
  let found := (List.range nodes.length).findSome? fun i =>
    nodes[(start + i) % nodes.length]?.bind fun m =>
      if nodeAcceptsPriority m.state job.priority then some m.nodeId else none
  match found with
  | some n => .ok n
  | none => .error .noneEligible

/-- The answer and the cursor after the call; an empty cluster does not advance it. -/
def selectNode {F : Type u} [FloatOps F] (mCursor : Nat) (job : Job) (view : ClusterView F) :
    Except SelectError NodeId × Nat :=
  if view.nodes.isEmpty then (.error .noNodes, mCursor)
  else (searchFrom job view.nodes (mCursor % view.nodes.length), fetchAdd32 mCursor)

/-- The search succeeds when some node accepts the job. -/
theorem searchFrom_ok_iff {job : Job} {nodes : List LoadMetrics} {start : Nat} :
    (∃ n, searchFrom job nodes start = .ok n) ↔ AffinityRouting.eligible job nodes ≠ [] := by
  have hfound : (List.range nodes.length).findSome? (fun i =>
      nodes[(start + i) % nodes.length]?.bind fun m =>
        if nodeAcceptsPriority m.state job.priority then some m.nodeId else none) = none ↔
      AffinityRouting.eligible job nodes = [] := by
    rw [List.findSome?_eq_none_iff, Selection.eligible_eq_nil_iff]
    constructor
    · intro hnone m hm
      obtain ⟨p, hp, hget⟩ := List.mem_iff_getElem.mp hm
      -- the search comes past the position `p`
      have hturn : (start + (p + nodes.length - start % nodes.length) % nodes.length) %
          nodes.length = p := by
        have hstart : start % nodes.length < nodes.length := Nat.mod_lt _ (by omega)
        rw [Nat.add_mod, Nat.mod_mod, ← Nat.add_mod]
        have hsum : start + (p + nodes.length - start % nodes.length) =
            p + nodes.length * (start / nodes.length + 1) := by
          have hdecomp := Nat.div_add_mod start nodes.length
          rw [Nat.mul_add]
          omega
        rw [hsum, Nat.add_mul_mod_self_left, Nat.mod_eq_of_lt hp]
      have hstep := hnone ((p + nodes.length - start % nodes.length) % nodes.length)
        (List.mem_range.mpr (Nat.mod_lt _ (by omega)))
      rw [hturn, List.getElem?_eq_getElem hp, hget] at hstep
      simpa using hstep
    · intro hnone i _
      cases hget : nodes[(start + i) % nodes.length]? with
      | none => rfl
      | some m =>
          have hm := hnone m (List.mem_of_getElem? hget)
          simp [hm]
  rw [ne_eq, ← hfound]
  unfold searchFrom
  dsimp only
  cases (List.range nodes.length).findSome? (fun i =>
      nodes[(start + i) % nodes.length]?.bind fun m =>
        if nodeAcceptsPriority m.state job.priority then some m.nodeId else none) with
  | none => simp
  | some n => simp

theorem searchFrom_eq_error {job : Job} {nodes : List LoadMetrics} {start : Nat} {e : SelectError}
    (h : searchFrom job nodes start = .error e) : e = .noneEligible := by
  unfold searchFrom at h
  dsimp only at h
  split at h
  · cases h
  · cases h
    rfl

/-- Where every node accepts the job the search ends where it starts. -/
theorem searchFrom_of_accepts {job : Job} {nodes : List LoadMetrics} {start : Nat}
    (haccepts : ∀ m ∈ nodes, nodeAcceptsPriority m.state job.priority = true)
    (hstart : start < nodes.length) :
    searchFrom job nodes start = .ok (nodes[start].nodeId) := by
  have hfirst : (List.range nodes.length).findSome? (fun i =>
      nodes[(start + i) % nodes.length]?.bind fun m =>
        if nodeAcceptsPriority m.state job.priority then some m.nodeId else none) =
      some nodes[start].nodeId := by
    obtain ⟨n, hn⟩ : ∃ n, nodes.length = n + 1 := ⟨nodes.length - 1, by omega⟩
    have hget : nodes[(start + 0) % nodes.length]? = some nodes[start] := by
      rw [Nat.add_zero, Nat.mod_eq_of_lt hstart, List.getElem?_eq_getElem hstart]
    have hhere := haccepts nodes[start] (List.getElem_mem hstart)
    conv => lhs; arg 2; rw [hn, List.range_succ_eq_map]
    rw [List.findSome?_cons, hget]
    simp [hhere]
  unfold searchFrom
  dsimp only
  rw [hfirst]

/-! ## Calls of several threads

A call has begun, has taken its value, or has returned; only the second of these steps is atomic on
the cursor. -/

inductive Call
  /-- past the `fetch_add`, with the position to start from -/
  | searching (start : Nat)
  | returned (result : Except SelectError NodeId)

/-- The cursor and the calls in the order in which they advanced it. -/
structure Calls where
  mCursor : Nat
  calls : List Call := []

inductive CallEvent
  /-- some thread enters `selectNode` and advances the cursor -/
  | fetchAdd
  /-- the thread of call `k` returns -/
  | search (k : Nat)

namespace Calls

def step (job : Job) (nodes : List LoadMetrics) (s : Calls) : CallEvent → Option Calls
  | .fetchAdd => some {
      mCursor := fetchAdd32 s.mCursor
      calls := s.calls ++ [.searching (s.mCursor % nodes.length)] }
  | .search k =>
      match s.calls[k]? with
      | some (.searching start) => some { s with
          calls := s.calls.set k (.returned (searchFrom job nodes start)) }
      | _ => none

end Calls

/-- All interleavings of calls for one job on one view that is not empty. -/
def calls (mCursor : Nat) (job : Job) (nodes : List LoadMetrics) : Machine Calls CallEvent where
  init := { mCursor }
  step := Calls.step job nodes

section

variable {mCursor : Nat} {job : Job} {nodes : List LoadMetrics}

/-- The position call `i` starts from. -/
def startOf (mCursor : Nat) (nodes : List LoadMetrics) (i : Nat) : Nat :=
  WrappedCycle.place (2 ^ 32) nodes.length mCursor i

/-- What each call holds depends on its turn alone. -/
structure InTurn (mCursor : Nat) (job : Job) (nodes : List LoadMetrics) (s : Calls) : Prop where
  cursor : s.mCursor = (mCursor + s.calls.length) % 2 ^ 32
  held : ∀ i (x : Call), s.calls[i]? = some x → x = .searching (startOf mCursor nodes i) ∨
    x = .returned (searchFrom job nodes (startOf mCursor nodes i))

theorem InTurn.step {s s' : Calls} (hs : InTurn mCursor job nodes s) {e : CallEvent}
    (h : s.step job nodes e = some s') : InTurn mCursor job nodes s' := by
  cases e with
  | fetchAdd =>
      obtain rfl := Option.some.inj h
      constructor
      · show fetchAdd32 s.mCursor = _
        rw [hs.cursor, fetchAdd32, Nat.mod_add_mod, List.length_append]
        rfl
      · intro i x hx
        rcases Nat.lt_or_ge i s.calls.length with hlt | hge
        · rw [List.getElem?_append_left hlt] at hx
          exact hs.held i x hx
        · rw [List.getElem?_append_right hge] at hx
          obtain ⟨hi, hx⟩ := List.getElem?_eq_some_iff.mp hx
          have hlast : i = s.calls.length := by
            simp only [List.length_singleton] at hi
            omega
          subst hlast
          left
          rw [← hx, List.getElem_singleton, hs.cursor]
          rfl
  | search k =>
      rw [Calls.step] at h
      split at h
      · next start hk =>
          obtain rfl := Option.some.inj h
          constructor
          · show s.mCursor = (mCursor + (s.calls.set k _).length) % 2 ^ 32
            rw [List.length_set]
            exact hs.cursor
          · intro i x hx
            rw [List.getElem?_set] at hx
            split at hx
            · next heq =>
                subst heq
                have hstart : start = startOf mCursor nodes k := by
                  rcases hs.held k _ hk with hsearch | hreturn
                  · exact Call.searching.inj hsearch
                  · cases hreturn
                split at hx
                · obtain rfl := Option.some.inj hx
                  right
                  rw [hstart]
                · cases hx
            · exact hs.held i x hx
      · cases h

theorem inTurn_of_reach (hcursor : mCursor < 2 ^ 32) {s : Calls}
    (hs : (RoundRobin.calls mCursor job nodes).Reach Machine.anyEvent s) :
    InTurn mCursor job nodes s := by
  apply hs.invariant
  · exact ⟨(Nat.mod_eq_of_lt hcursor).symm, fun i x hx => by simp [RoundRobin.calls] at hx⟩
  · intro s s' e _ hi _ h
    exact hi.step h

/-- `k` calls, one after the other. -/
theorem exists_reach (k : Nat) :
    ∃ s, (RoundRobin.calls mCursor job nodes).Reach Machine.anyEvent s ∧ s.calls.length = k ∧
      ∀ x ∈ s.calls, ∃ r, x = .returned r := by
  induction k with
  | zero => exact ⟨_, .init, rfl, nofun⟩
  | succ k ih =>
      obtain ⟨s, hreach, hlen, hreturned⟩ := ih
      have hfetched := Machine.Reach.step .fetchAdd hreach trivial rfl
      have hsearched : (RoundRobin.calls mCursor job nodes).Reach Machine.anyEvent
          { mCursor := fetchAdd32 s.mCursor
            calls := s.calls ++
              [.returned (searchFrom job nodes (s.mCursor % nodes.length))] } := by
        apply Machine.Reach.step (.search k) hfetched trivial
        show Calls.step job nodes _ (.search k) = _
        subst hlen
        simp [Calls.step]
      refine ⟨_, hsearched, by simp [hlen], fun x hx => ?_⟩
      rcases List.mem_append.mp hx with hx | hx
      · exact hreturned x hx
      · exact ⟨_, List.mem_singleton.mp hx⟩

/-- The identity of the node at a position. -/
def idAt (nodes : List LoadMetrics) (p : Nat) : NodeId := ((nodes.map LoadMetrics.nodeId)[p]?).getD 0

theorem range_map_idAt (nodes : List LoadMetrics) :
    (List.range nodes.length).map (idAt nodes) = nodes.map LoadMetrics.nodeId := by
  apply List.ext_getElem
  · simp
  · intro p hp hp'
    simp only [List.getElem_map, List.getElem_range, idAt]
    rw [List.getElem?_eq_getElem hp', Option.getD_some, List.getElem_map]

theorem startOf_lt (hne : nodes ≠ []) (i : Nat) : startOf mCursor nodes i < nodes.length :=
  Nat.mod_lt _ (List.length_pos_iff.mpr hne)

/-- The answers of `k` calls that have all returned. -/
theorem calls_eq (hne : nodes ≠ [])
    (haccepts : ∀ m ∈ nodes, nodeAcceptsPriority m.state job.priority = true) {s : Calls}
    (hs : InTurn mCursor job nodes s) (hreturned : ∀ x ∈ s.calls, ∃ r, x = .returned r) :
    s.calls = ((List.range s.calls.length).map fun i => idAt nodes (startOf mCursor nodes i)).map
      fun n => .returned (.ok n) := by
  apply List.ext_getElem
  · simp
  · intro i hi _
    have hcall := hs.held i _ (List.getElem?_eq_getElem hi)
    obtain ⟨r, hr⟩ := hreturned _ (List.getElem_mem hi)
    have hlt : startOf mCursor nodes i < nodes.length := startOf_lt hne i
    simp only [List.getElem_map, List.getElem_range]
    rcases hcall with hcall | hcall
    · rw [hcall] at hr
      cases hr
    · rw [hcall, searchFrom_of_accepts haccepts hlt]
      simp [idAt, hlt]

end

theorem returned_ok_injective : Function.Injective fun n : NodeId => Call.returned (.ok n) := by
  intro a b hab
  exact Except.ok.inj (Call.returned.inj hab)

/-! ## When every node has its turn

As many calls as there are nodes return each node once, unless the cursor wraps on the way to a
position that it does not fit. -/

/-- However `k` calls interleave, they return `k` nodes of the view, no entry of it twice, and so all
of them when there are as many. -/
def ReturnEachOnce (mCursor : Nat) (job : Job) (nodes : List LoadMetrics) (k : Nat) : Prop :=
  ∀ s, (calls mCursor job nodes).Reach Machine.anyEvent s → s.calls.length = k →
    (∀ x ∈ s.calls, ∃ r, x = .returned r) →
    ∃ ids : List NodeId, s.calls = ids.map (fun n => .returned (.ok n)) ∧
      ids.Subperm (nodes.map LoadMetrics.nodeId) ∧
      (k = nodes.length → ids.Perm (nodes.map LoadMetrics.nodeId))

/-- The `k` values of the cursor do not pass its wrap, or the wrap fits the length of the view, or
the nodes before it are still ahead after it. -/
def KeepsTurn (mCursor n k : Nat) : Prop :=
  mCursor + k ≤ 2 ^ 32 ∨ n ∣ 2 ^ 32 ∨ k ≤ 2 ^ 32 % n

/-- **Every node has its turn when the cursor's wrap does not show.** -/
theorem returnEachOnce_iff {mCursor : Nat} {job : Job} {nodes : List LoadMetrics} {k : Nat}
    (hcursor : mCursor < 2 ^ 32) (hne : nodes ≠ [])
    (haccepts : ∀ m ∈ nodes, nodeAcceptsPriority m.state job.priority = true)
    (hk : k ≤ nodes.length) :
    (KeepsTurn mCursor nodes.length k → ReturnEachOnce mCursor job nodes k) ∧
      ((nodes.map LoadMetrics.nodeId).Nodup → ReturnEachOnce mCursor job nodes k →
        KeepsTurn mCursor nodes.length k) := by
  unfold KeepsTurn
  rw [← WrappedCycle.distinct_iff hcursor hk]
  constructor
  · intro hdistinct s hs hlen hreturned
    have hstarts : ((List.range k).map (startOf mCursor nodes)).Subperm
        (List.range nodes.length) := by
      apply List.Nodup.subperm
      · apply List.Nodup.map_on _ List.nodup_range
        intro i hi j hj heq
        rw [List.mem_range] at hi hj
        rcases Nat.lt_trichotomy i j with hlt | rfl | hgt
        · exact absurd heq (hdistinct i j hlt hj)
        · rfl
        · exact absurd heq.symm (hdistinct j i hgt hi)
      · intro p hp
        obtain ⟨i, -, rfl⟩ := List.mem_map.mp hp
        exact List.mem_range.mpr (startOf_lt hne i)
    have hids : ((List.range k).map fun i => idAt nodes (startOf mCursor nodes i)).Subperm
        (nodes.map LoadMetrics.nodeId) := by
      obtain ⟨l, hperm, hsub⟩ := hstarts
      rw [← range_map_idAt nodes]
      refine ⟨l.map (idAt nodes), ?_, hsub.map _⟩
      have hmapped := hperm.map (idAt nodes)
      rwa [List.map_map] at hmapped
    have hcalls := calls_eq hne haccepts (inTurn_of_reach hcursor hs) hreturned
    rw [hlen] at hcalls
    refine ⟨_, hcalls, hids, fun hall => hids.perm_of_length_le ?_⟩
    simp [hall]
  · intro hnodup hreturn i j hlt hj heq
    obtain ⟨s, hs, hlen, hreturned⟩ : ∃ s, (calls mCursor job nodes).Reach Machine.anyEvent s ∧
        s.calls.length = k ∧ ∀ x ∈ s.calls, ∃ r, x = .returned r := exists_reach k
    obtain ⟨ids, hcalls, hids, -⟩ := hreturn s hs hlen hreturned
    have hcalls' := calls_eq hne haccepts (inTurn_of_reach hcursor hs) hreturned
    rw [hlen, hcalls] at hcalls'
    obtain rfl := (List.map_injective_iff.mpr returned_ok_injective) hcalls'
    have hnodup' : ((List.range k).map fun i => idAt nodes (startOf mCursor nodes i)).Nodup := by
      obtain ⟨l, hperm, hsub⟩ := hids
      exact hperm.nodup_iff.mp (hsub.nodup hnodup)
    have hinj' := List.inj_on_of_nodup_map hnodup' (List.mem_range.mpr (hlt.trans hj))
      (List.mem_range.mpr hj) (congrArg (idAt nodes) heq)
    omega

/-- Three calls from 0 on return three nodes. -/
theorem returnEachOnce_iff_three :
    ReturnEachOnce 0 {} [AffinityRouting.idleNode 1 0, AffinityRouting.idleNode 2 0,
      AffinityRouting.idleNode 3 0] 3 :=
  (returnEachOnce_iff (by decide) (by decide) (by decide) (by decide)).1 (.inl (by decide))

/-- **A node is skipped at the wrap.**  The cursor stands at its last value, which names the first of
three nodes, and so does 0. -/
theorem node_skipped_at_wrap :
    ¬ReturnEachOnce (2 ^ 32 - 1) {} [AffinityRouting.idleNode 1 0, AffinityRouting.idleNode 2 0,
      AffinityRouting.idleNode 3 0] 3 := by
  intro hreturn
  have hs : (calls (2 ^ 32 - 1) {} [AffinityRouting.idleNode 1 0, AffinityRouting.idleNode 2 0,
      AffinityRouting.idleNode 3 0]).Reach Machine.anyEvent
        { mCursor := 2, calls := [1, 1, 2].map fun n => .returned (.ok n) } :=
    Machine.Reach.init.run [.fetchAdd, .search 0, .fetchAdd, .fetchAdd, .search 2, .search 1] rfl
  obtain ⟨ids, hids, ⟨l, hperm, hsub⟩, -⟩ := hreturn _ hs rfl (by simp)
  obtain rfl := (List.map_injective_iff.mpr returned_ok_injective) hids
  have hnodup : [1, 1, 2].Nodup := hperm.nodup_iff.mp (hsub.nodup (by decide))
  exact absurd hnodup (by decide)

end RoundRobin

end FatpBalancer
