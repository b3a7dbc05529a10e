import Unotu.Filter.Effects

/-!
# Every parameter has an owner

A parameter that was allocated belongs to the filter node that caches it, or to the caller that
has not handed it over yet. Runs in which callers hand over only what is theirs, and in which
drawing meets no cached output, lose track of no parameter.
-/

set_option autoImplicit false

namespace Unotu.Filter

open Unotu.Graph

namespace World

/-- The parameters that callers have allocated and not handed over, after one more step. -/
def unclaimedAfter (w : World) (L : List ParamId) : FilterOp → List ParamId
  | .newParameter _ => w.nextParam :: L
  | .cachedOutputSet n (some p) => if w.heap.isLive n then L.filter (· ≠ p) else L
  | _ => L

def stepUnclaimed (s : World × List ParamId) (op : FilterOp) :
    Except Stopped (World × List ParamId) :=
  (s.1.step op).map fun w' => (w', s.1.unclaimedAfter s.2 op)

/-- The store holds the unclaimed parameters and the cached outputs of the living nodes, and
nothing else; every parameter has one owner, and no filter node outlives its graph node. -/
structure Accounts (w : World) (L : List ParamId) : Prop where
  stored_iff : ∀ p, (∃ P, w.store p = some P) ↔
    p ∈ L ∨ ∃ n, w.heap.isLive n ∧ w.cachedOutputOf (.data n) = some p
  unclaimed : ∀ p ∈ L, ∀ f, w.cachedOutputOf f ≠ some p
  sole : ∀ f g p, w.cachedOutputOf f = some p → w.cachedOutputOf g = some p → f = g
  homed : ∀ n node, w.filters (.data n) = some node → w.heap.isLive n

variable {w w' : World} {M : Multigraph NodeId EdgeId}

/-- What every step keeps. -/
structure Tended (w : World) (L : List ParamId) : Prop where
  built : ∃ M, w.Built M
  homed : ∀ n node, w.filters (.data n) = some node → w.heap.isLive n
  loose : ∀ p, w.Loose p ↔ p ∈ L

theorem Tended.accounts {L : List ParamId} (h : w.Tended L) : w.Accounts L := by
  obtain ⟨M, hbuilt⟩ := h.built
  have hsole : ∀ f g p, w.cachedOutputOf f = some p → w.cachedOutputOf g = some p → f = g := by
    intro f g p hf hg
    obtain ⟨node, hnode, hp⟩ := Option.bind_eq_some_iff.mp hf
    obtain ⟨node', hnode', hp'⟩ := Option.bind_eq_some_iff.mp hg
    exact hbuilt.owned.sole f g node node' p hnode hnode' hp hp'
  refine ⟨?_, ?_, hsole, h.homed⟩
  · intro p
    constructor
    · intro hstored
      by_cases hcached : ∃ f, w.cachedOutputOf f = some p
      · obtain ⟨f, hf⟩ := hcached
        obtain ⟨node, hnode, hp⟩ := Option.bind_eq_some_iff.mp hf
        cases f with
        | data n => exact .inr ⟨n, h.homed n node hnode, hf⟩
        | copy k =>
          rw [hbuilt.noCopy k] at hnode
          cases hnode
      · exact .inl ((h.loose p).mp ⟨hstored, fun f hf => hcached ⟨f, hf⟩⟩)
    · intro hp
      rcases hp with hp | ⟨n, -, hp⟩
      · exact ((h.loose p).mpr hp).1
      · obtain ⟨node, hnode, hcached⟩ := Option.bind_eq_some_iff.mp hp
        exact hbuilt.owned.stored _ node p hnode hcached
  · intro p hp
    exact ((h.loose p).mpr hp).2

/-! ## One step -/

theorem Loose.congr (hstore : w'.store = w.store)
    (hcached : ∀ f, w'.cachedOutputOf f = w.cachedOutputOf f) (p : ParamId) :
    w'.Loose p ↔ w.Loose p := by
  simp only [Loose, hstore, hcached]

/-- All but the creation of a filter node change the graph only, and no node is created. -/
theorem build_rest (h : w.Built M) {op : BuildOp} (hop : ∀ n Data, op ≠ .makeFilter n Data)
    (hw : w.build op = .ok w') :
    w'.filters = w.filters ∧ w'.store = w.store ∧ ∀ n, w'.heap.isLive n ↔ w.heap.isLive n := by
  have hsame := build_congr (v := w) rfl hop hw
  rw [hw] at hsame
  have heq : w' = { w with heap := w'.heap } := Except.ok.inj hsame
  obtain ⟨v, M', hv, hbuilt, hstep⟩ := build_spec h op
  rw [hw] at hv
  cases hv
  have hnodes : M'.nodes = M.nodes := by
    cases hstep with
    | connected => rfl
    | created => exact absurd rfl (hop _ _)
    | kept => rfl
  have hfilters := congrArg World.filters heq
  have hstore := congrArg World.store heq
  refine ⟨hfilters, hstore, ?_⟩
  intro n
  rw [hbuilt.represents.nodes, hnodes, h.represents.nodes]

theorem Tended.makeFilter {L : List ParamId} (h : w.Tended L) (n : NodeId) (Data : FilterNode) :
    (w.makeFilter n Data).Tended L := by
  obtain ⟨M, hbuilt⟩ := h.built
  by_cases hunused : w.heap.nodes n = .unused
  · obtain ⟨hmade, hfilters⟩ := makeFilter_built hbuilt hunused Data
    have hnone : w.filters (.data n) = none := by
      cases hdata : w.filters (.data n) with
      | none => rfl
      | some node =>
        have hn := (hbuilt.represents.nodes n).mp (h.homed n node hdata)
        exact absurd hn (hbuilt.represents.notMem_of_unused hunused)
    have hstore : (w.makeFilter n Data).store = w.store := by
      simp only [World.makeFilter, hunused, setFilter]
    refine ⟨⟨_, hmade⟩, ?_, ?_⟩
    · intro m node hm
      rw [hmade.represents.nodes]
      rw [hfilters] at hm
      split at hm
      · rename_i hmn
        exact .inl hmn
      · exact .inr ((hbuilt.represents.nodes m).mp (h.homed m node hm))
    · intro p
      rw [← h.loose]
      apply Loose.congr hstore
      intro f
      cases f with
      | copy k =>
        rw [cachedOutputOf, cachedOutputOf, hbuilt.noCopy, hmade.noCopy]
      | data m =>
        rw [cachedOutputOf, cachedOutputOf, hfilters]
        split
        · rename_i hmn
          rw [hmn, hnone]
          rfl
        · rfl
  · rwa [makeFilter_of_used hunused]

theorem Tended.build {L : List ParamId} (h : w.Tended L) {op : BuildOp}
    (hw : w.build op = .ok w') : w'.Tended L := by
  obtain ⟨M, hbuilt⟩ := h.built
  obtain ⟨v, M', hv, hbuilt', -⟩ := build_spec hbuilt op
  rw [hw] at hv
  cases hv
  cases op with
  | makeFilter n Data =>
    cases hw
    exact h.makeFilter n Data
  | makeGraph | nodeAdd | connectTo =>
    obtain ⟨hfilters, hstore, hlive⟩ := build_rest hbuilt (by simp) hw
    refine ⟨⟨M', hbuilt'⟩, ?_, ?_⟩
    · intro n node hn
      rw [hfilters] at hn
      exact (hlive n).mpr (h.homed n node hn)
    · intro p
      rw [← h.loose]
      apply Loose.congr hstore
      intro f
      rw [cachedOutputOf, cachedOutputOf, hfilters]

theorem Tended.newParameter {L : List ParamId} (h : w.Tended L) (P : Parameter) :
    (w.newParameter P).1.Tended (w.nextParam :: L) := by
  obtain ⟨M, hbuilt⟩ := h.built
  refine ⟨⟨M, newParameter_built hbuilt P⟩, h.homed, ?_⟩
  intro p
  rw [newParameter_loose hbuilt.owned, h.loose, List.mem_cons]

/-- Nothing but cached outputs has changed, and these account for all that is loose. -/
theorem Tended.keeps {L L' : List ParamId} (h : w.Tended L) (hk : Keeps w w') (howned : w'.Owned)
    (hloose : ∀ p, w'.Loose p ↔ p ∈ L') : w'.Tended L' := by
  obtain ⟨M, hbuilt⟩ := h.built
  refine ⟨⟨M, hbuilt.keeps hk howned⟩, ?_, hloose⟩
  intro n node hn
  have hmap := hk.filters (.data n)
  rw [hn] at hmap
  obtain ⟨node', hnode', -⟩ := Option.map_eq_some_iff.mp hmap.symm
  rw [hk.heap]
  exact h.homed n node' hnode'

theorem Tended.cachedOutputSet {L : List ParamId} (h : w.Tended L) {n : NodeId}
    (hn : w.heap.isLive n) {c c' : Option ParamId}
    (hc : ∀ p, c = some p → (∃ Q, w.store p = some Q) ∧
      ∀ f node, w.filters f = some node → node.cachedOutput ≠ some p)
    (hw : w.cachedOutputSet (.data n) c = .ok (w', c')) :
    w'.Tended (w.unclaimedAfter L (.cachedOutputSet n c)) := by
  obtain ⟨M, hbuilt⟩ := h.built
  obtain ⟨node, hnode⟩ := hbuilt.exists_data hn
  have hreplaces := cachedOutputSet_replaces hbuilt.owned hnode hw
  obtain ⟨v, hv, howned, hkeeps, -⟩ := cachedOutputSet_spec hbuilt.owned hnode hc
  rw [hv] at hw
  cases hw
  apply h.keeps hkeeps howned
  intro p
  rw [hreplaces.loose, h.loose]
  cases c with
  | none => simp [unclaimedAfter]
  | some q =>
    simp only [unclaimedAfter, if_pos hn, List.mem_filter, decide_eq_true_eq, ne_eq,
      Option.some.injEq]
    exact and_congr_right fun _ => not_congr eq_comm

theorem destroy_frame (h : w.Built M) {n : NodeId} (hn : w.heap.isLive n)
    (hw : w.destroy n = .ok w') :
    w'.heap = (leaveGraph w.heap n).dropNode n ∧ w.Replaces w' (.data n) none ∧
      ∀ f, w'.filters f = if f = .data n then none else w.filters f := by
  obtain ⟨node, hnode⟩ := h.exists_data hn
  have howned : World.Owned { w with heap := (leaveGraph w.heap n).dropNode n } :=
    ⟨h.owned.stored, h.owned.sole, h.owned.fresh⟩
  have hreplaces := destroyFilter_replaces howned hw
  obtain ⟨v, hv, -, hheap, hfilters⟩ := destroyFilter_spec howned (f := .data n) hnode
  rw [World.destroy, hv] at hw
  cases hw
  exact ⟨hheap, ⟨hreplaces.cached, hreplaces.store⟩, hfilters⟩

theorem Tended.destroy {L : List ParamId} (h : w.Tended L) {n : NodeId} (hn : w.heap.isLive n)
    (hw : w.destroy n = .ok w') : w'.Tended L := by
  obtain ⟨M, hbuilt⟩ := h.built
  obtain ⟨v, hv, hbuilt'⟩ := destroy_built hbuilt hn
  obtain ⟨-, hreplaces, hfilters⟩ := destroy_frame hbuilt hn hw
  rw [hw] at hv
  cases hv
  refine ⟨⟨_, hbuilt'⟩, ?_, ?_⟩
  · intro m node hm
    rw [hfilters] at hm
    split at hm
    · cases hm
    · rename_i hne
      rw [hbuilt'.represents.nodes]
      refine ⟨(hbuilt.represents.nodes m).mp (h.homed m node hm), ?_⟩
      intro hmn
      exact hne (congrArg FilterId.data hmn)
  · intro p
    rw [hreplaces.loose, ← h.loose]
    simp only [ne_eq, reduceCtorEq, not_false_eq_true, and_true]

theorem Tended.step {L : List ParamId} (h : w.Tended L) {op : FilterOp}
    (hc : w.OwnersCondition op) (hw : w.step op = .ok w') :
    w'.Tended (w.unclaimedAfter L op) := by
  obtain ⟨M, hbuilt⟩ := h.built
  cases op with
  | build op =>
    simp only [World.step] at hw
    split at hw
    · rename_i hv
      cases hw
      exact h.build hv
    · cases hw
  | newParameter P =>
    cases hw
    exact h.newParameter P
  | cachedOutputSet n c =>
    simp only [World.step] at hw
    split at hw
    · rename_i hn
      cases hset : w.cachedOutputSet (.data n) c with
      | error stopped =>
        rw [hset] at hw
        cases hw
      | ok result =>
        rw [hset] at hw
        cases hw
        exact h.cachedOutputSet hn (hc hn) hset
    · rename_i hn
      cases hw
      cases c with
      | none => exact h
      | some p =>
        simp only [unclaimedAfter, if_neg hn]
        exact h
  | outputGet n depth =>
    simp only [World.step] at hw
    split at hw
    · rename_i hn
      have heffect := evaluateFilter_evaluated hbuilt.ready hn hw
      apply h.keeps heffect.keeps heffect.ready.owned
      intro p
      rw [heffect.loose]
      exact h.loose p
    · cases hw
      exact h
  | onRefresh g =>
    simp only [World.step] at hw
    split at hw
    · rename_i hg
      rw [onRefresh_eq hbuilt (hc hg)] at hw
      cases hw
      exact h
    · cases hw
      exact h
  | destroy n =>
    simp only [World.step] at hw
    split at hw
    · rename_i hn
      exact h.destroy hn hw
    · cases hw
      exact h

theorem empty_tended : World.empty.Tended [] where
  built := ⟨_, empty_built⟩
  homed n node hn := by simp [World.empty] at hn
  loose p := by simp [Loose, World.empty]

/-! ## Runs -/

theorem step_of_stepUnclaimed {s t : World × List ParamId} {op : FilterOp}
    (h : stepUnclaimed s op = .ok t) :
    s.1.step op = .ok t.1 ∧ t.2 = s.1.unclaimedAfter s.2 op := by
  unfold stepUnclaimed at h
  cases hstep : s.1.step op with
  | error stopped =>
    rw [hstep] at h
    cases h
  | ok w' =>
    rw [hstep] at h
    cases h
    exact ⟨rfl, rfl⟩

/-- In every run whose steps meet the condition on owners, each parameter in the store is cached
by one living node or unclaimed, at any time. -/
theorem run_accounts {ops : List FilterOp}
    (h : Runs.EveryStep stepUnclaimed (fun s op => s.1.OwnersCondition op) (World.empty, []) ops) :
    Runs.Along stepUnclaimed (fun s => s.1.Accounts s.2) (World.empty, []) ops := by
  have hall : Runs.Along stepUnclaimed (fun s => s.1.Tended s.2) (World.empty, []) ops := by
    refine Runs.along_of_everyStep stepUnclaimed ?_ empty_tended h
    intro s op t hs hc ht
    obtain ⟨hstep, hunclaimed⟩ := step_of_stepUnclaimed ht
    rw [hunclaimed]
    exact hs.step hc hstep
  intro before s hbefore hs
  exact (hall before s hbefore hs).accounts

/-- A literal is evaluated while the caller holds a parameter, cleared, and destroyed. -/
def evaluatedAndDestroyed : List FilterOp :=
  [.build (.makeGraph 0), .build (.makeFilter 0 fnBooleanLiteral), .build (.nodeAdd 0 0),
    .newParameter (.boolean false), .outputGet 0 1, .cachedOutputSet 0 none, .outputGet 0 1,
    .destroy 0]

theorem run_accounts_evaluatedAndDestroyed :
    Runs.Along stepUnclaimed (fun s => s.1.Accounts s.2) (World.empty, [])
      evaluatedAndDestroyed := by
  apply run_accounts
  apply Runs.everyStep_of_forall
  simp [evaluatedAndDestroyed, OwnersCondition]

end World

end Unotu.Filter
