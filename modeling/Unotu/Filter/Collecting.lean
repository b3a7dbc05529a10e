import Unotu.Filter.Chain

/-!
# The parameters that a node collects

`InputParametersGet` keeps the pointer that each predecessor returns while it evaluates the
next one. The evaluation of a later predecessor starts again from its own inputs, and where
an earlier one is among them, its cached output is deleted and replaced behind the vector.
-/

set_option autoImplicit false

namespace Unotu.Filter

open Unotu.Graph Relation

/-- No predecessor is an input, direct or not, of one that comes after it. -/
def Shape.EarlierIndependent (S : Shape) (ps : List NodeId) : Prop :=
  ps.Pairwise fun p q => ¬ TransGen S.Pred p q

namespace World

/-- `InputParametersGet` when the set of predecessors is iterated in the order `ps`. -/
def collectInOrder (w : World) (depth : Nat) (ps : List NodeId) :
    Except Stopped (World × List (Option ParamId)) :=
  collectOutputs (outputGet depth) w (ps.map .obj)

/-- Each pointer is the `CachedOutput` that its predecessor has now, and of a parameter that is
still there. -/
def CollectedLive (w : World) (ps : List NodeId) (Output : List (Option ParamId)) : Prop :=
  List.Forall₂ (fun p P => ∃ q Parameter, P = some q ∧ w.cachedOutputOf (.data p) = some q ∧
    w.store q = some Parameter) ps Output

/-- Whenever `InputParametersGet` returns, it returns live pointers. -/
def CollectsLive (w : World) (ps : List NodeId) : Prop :=
  ∀ depth w' Output, w.collectInOrder depth ps = .ok (w', Output) → w'.CollectedLive ps Output

variable {w : World}

theorem collectInOrder_cons {w' : World} {depth : Nat} {p : NodeId} {ps : List NodeId}
    {Output : List (Option ParamId)}
    (h : w.collectInOrder depth (p :: ps) = .ok (w', Output)) :
    ∃ w₁ P Output', w.outputGet depth (.data p) = .ok (w₁, P) ∧
      w₁.collectInOrder depth ps = .ok (w', Output') ∧ Output = P :: Output' := by
  simp only [collectInOrder, List.map_cons, collectOutputs, bind, Except.bind] at h
  cases hcall : w.outputGet depth (.data p) with
  | error e => simp [hcall] at h
  | ok r =>
    simp only [hcall] at h
    cases hcalls : collectOutputs (outputGet depth) r.1 (ps.map .obj) with
    | error e => simp [hcalls] at h
    | ok r' =>
      simp only [hcalls] at h
      cases h
      exact ⟨r.1, r.2, r'.2, rfl, hcalls, rfl⟩

/-- A collected pointer survives the evaluations after it exactly when they do not come by its
node. -/
theorem collected_survives_iff {w₁ w' : World} (howned : w₁.Owned) {c : List NodeId}
    (h : Refreshed w₁ w' c) {p : NodeId} {q : ParamId} (hq : w₁.cachedOutputOf (.data p) = some q) :
    (∃ q' Parameter, some q = some q' ∧ w'.cachedOutputOf (.data p) = some q' ∧
      w'.store q' = some Parameter) ↔ p ∉ c := by
  constructor
  · rintro ⟨q', Parameter, heq, hcached, -⟩ hp
    cases heq
    obtain ⟨r, hr, hle, -⟩ := h.renewed p hp
    rw [hcached] at hr
    cases hr
    -- the new identity was not in use when the pointer was collected
    exact Nat.lt_irrefl q (Nat.lt_of_lt_of_le (howned.cached_lt hq) hle)
  · intro hp
    have hsame := h.others (.data p) fun m hm heq => hp (FilterId.data.inj heq ▸ hm)
    obtain ⟨node, hnode, hcached⟩ := Option.bind_eq_some_iff.mp hq
    obtain ⟨P, hP⟩ := howned.stored _ node q hnode hcached
    exact ⟨q, P, rfl, hsame.cachedOutputOf.trans hq, (hsame.2 q hq).trans hP⟩

/-- One call: what is collected is live exactly when no earlier chain is part of a later one. -/
theorem collectInOrder_spec (h : w.Ready) {chain : NodeId → List NodeId} {ps : List NodeId}
    (hc : ∀ p ∈ ps, w.shape.Chain p (chain p)) (hlive : ∀ p ∈ ps, w.heap.isLive p) {depth : Nat}
    {w' : World} {Output : List (Option ParamId)}
    (hcall : w.collectInOrder depth ps = .ok (w', Output)) :
    Refreshed w w' (ps.flatMap chain) ∧
      (w'.CollectedLive ps Output ↔ ps.Pairwise fun p q => p ∉ chain q) := by
  induction ps generalizing w Output with
  | nil =>
    cases hcall
    exact ⟨Refreshed.refl h.owned, iff_of_true .nil .nil⟩
  | cons p ps ih =>
    obtain ⟨w₁, P, Output', hfirst, hrest, rfl⟩ := collectInOrder_cons hcall
    obtain ⟨hrefreshed, q, rfl, hq⟩ := outputGet_chain_ok h (hc p List.mem_cons_self)
      (hlive p List.mem_cons_self) hfirst
    have hlater : Refreshed w₁ w' (ps.flatMap chain) ∧
        (w'.CollectedLive ps Output' ↔ ps.Pairwise fun p q => p ∉ chain q) := by
      apply ih (h.keeps hrefreshed.keeps hrefreshed.owned) _ _ hrest
      · intro m hm
        rw [hrefreshed.keeps.shape]
        exact hc m (List.mem_cons_of_mem p hm)
      · intro m hm
        rw [hrefreshed.keeps.heap]
        exact hlive m (List.mem_cons_of_mem p hm)
    obtain ⟨hrefreshed', hiff⟩ := hlater
    refine ⟨hrefreshed.trans hrefreshed', ?_⟩
    rw [CollectedLive, List.forall₂_cons, collected_survives_iff hrefreshed.owned hrefreshed' hq,
      List.pairwise_cons]
    apply and_congr _ hiff
    simp only [List.mem_flatMap, not_exists, not_and]

theorem pairwise_chain_iff {S : Shape} {chain : NodeId → List NodeId} {ps : List NodeId}
    (hc : ∀ p ∈ ps, S.Chain p (chain p)) (hnodup : ps.Nodup) :
    (ps.Pairwise fun p q => p ∉ chain q) ↔ S.EarlierIndependent ps := by
  have hreach : ∀ p q, p ≠ q → q ∈ ps → (p ∉ chain q ↔ ¬ TransGen S.Pred p q) := by
    intro p q hne hq
    rw [(hc q hq).mem_iff p, reflTransGen_iff_eq_or_transGen]
    constructor
    · intro h htrans
      exact h (Or.inr htrans)
    · rintro h (heq | htrans)
      · exact hne heq.symm
      · exact h htrans
  constructor
  · intro h
    refine (hnodup.and h).imp_of_mem ?_
    rintro p q - hq ⟨hne, hp⟩
    exact (hreach p q hne hq).mp hp
  · intro h
    refine (hnodup.and h).imp_of_mem ?_
    rintro p q - hq ⟨hne, hp⟩
    exact (hreach p q hne hq).mpr hp

theorem collectsLive_iff {d : NodeData} (h : w.Laid d) {n : NodeId} (hn : w.heap.isLive n)
    (hfed : w.shape.FedByLiterals n) {ps : List NodeId} (hps : ps.Perm (w.shape.preds n)) :
    (∃ depth w' Output, w.collectInOrder depth ps = .ok (w', Output)) ∧
      (w.CollectsLive ps ↔ w.shape.EarlierIndependent ps) := by
  obtain ⟨chain, hall⟩ := h.exists_chains hn hfed
  have hc : ∀ p ∈ ps, w.shape.Chain p (chain p) := fun p hp => hall p (hps.mem_iff.mp hp)
  have hlive : ∀ p ∈ ps, w.heap.isLive p := fun p hp =>
    isLive_of_mem_preds h.ready.sound hn (hps.mem_iff.mp hp)
  have hnodup : ps.Nodup := hps.nodup_iff.mpr (h.preds_nodup hn)
  have hreturns : ∃ depth w' Output, w.collectInOrder depth ps = .ok (w', Output) := by
    obtain ⟨w', Output, hcall, -⟩ :=
      collectOutputs_chains h.ready hc hlive fun p hp => length_le_flatten chain hp
    exact ⟨_, w', Output, hcall⟩
  refine ⟨hreturns, ?_⟩
  rw [← pairwise_chain_iff hc hnodup]
  constructor
  · intro hcollects
    obtain ⟨depth, w', Output, hcall⟩ := hreturns
    exact (collectInOrder_spec h.ready hc hlive hcall).2.mp (hcollects depth w' Output hcall)
  · intro hindependent depth w' Output hcall
    exact (collectInOrder_spec h.ready hc hlive hcall).2.mpr hindependent

/-- In every state that a run reaches, a node that is fed by literals collects live pointers in
the order `ps` exactly when no predecessor in it depends on an earlier one. -/
theorem run_collectsLive_iff (ops : List PlaceOp) :
    Runs.Along (perform .filterNodePointer) (fun w => ∀ n, w.heap.isLive n →
      w.shape.FedByLiterals n →
        (∀ node, w.filters (.data n) = some node → ∀ depth,
          inputParametersGet (outputGet depth) w node = w.collectInOrder depth (w.shape.preds n)) ∧
        ∀ ps, ps.Perm (w.shape.preds n) →
          (∃ depth w' Output, w.collectInOrder depth ps = .ok (w', Output)) ∧
          (w.CollectsLive ps ↔ w.shape.EarlierIndependent ps)) World.empty ops := by
  intro before w _ hrun n hn hfed
  have h := run_laid hrun
  refine ⟨?_, ?_⟩
  · intro node hnode depth
    obtain ⟨node', hnode', hparent⟩ := h.ready.wired n hn
    rw [hnode] at hnode'
    cases hnode'
    exact inputParametersGet_eq h.ready.sound hn hparent _
  · intro ps hps
    exact collectsLive_iff h hn hfed hps

/-- A literal that feeds another one and, next to it, the same node. -/
def sharedInput : List PlaceOp :=
  [.build (.makeGraph 0), .build (.makeFilter 0 fnBooleanLiteral),
    .build (.makeFilter 1 fnBooleanLiteral), .build (.makeFilter 2 fnOut),
    .build (.nodeAdd 0 0), .build (.nodeAdd 0 1), .build (.nodeAdd 0 2),
    .build (.connectTo 0 (.obj 1) 0), .build (.connectTo 0 (.obj 2) 1),
    .build (.connectTo 1 (.obj 2) 2)]

/-- The evaluation of the second literal deletes what the first one returned. -/
theorem shared_input_is_deleted :
    ∃ w, Runs.run (perform .filterNodePointer) World.empty sharedInput = .ok w ∧
      w.heap.isLive 2 ∧ w.shape.FedByLiterals 2 ∧
      ∃ node w', w.filters (.data 2) = some node ∧
        inputParametersGet (outputGet 2) w node = .ok (w', [some 0, some 2]) ∧
        w'.cachedOutputOf (.data 0) = some 1 ∧ w'.store 0 = none ∧
        ¬ w'.CollectedLive (w.shape.preds 2) [some 0, some 2] := by
  have hrun : ∃ w, Runs.run (perform .filterNodePointer) World.empty sharedInput = .ok w ∧
      w.heap.isLive 2 ∧ (w.shape.kind 0 = .fnBooleanLiteral ∧ w.shape.preds 0 = []) ∧
      (w.shape.kind 1 = .fnBooleanLiteral ∧ w.shape.preds 1 = [0]) ∧ w.shape.preds 2 = [0, 1] ∧
      ∃ node w', w.filters (.data 2) = some node ∧
        inputParametersGet (outputGet 2) w node = .ok (w', [some 0, some 2]) ∧
        w'.cachedOutputOf (.data 0) = some 1 ∧ w'.store 0 = none :=
    ⟨_, rfl, rfl, ⟨rfl, rfl⟩, ⟨rfl, rfl⟩, rfl, _, _, rfl, rfl, rfl, rfl⟩
  obtain ⟨w, hw, hlive, ⟨hkind0, hpreds0⟩, ⟨hkind1, hpreds1⟩, hpreds2, node, w', hnode, hcall,
    hcached, hgone⟩ := hrun
  have hchain : w.shape.Chain 0 [0] := .start hkind0 hpreds0
  have hfed : w.shape.FedByLiterals 2 := by
    apply Shape.fedByLiterals_of_chains
    intro p hp
    have hcases : p = 0 ∨ p = 1 := by simpa [hpreds2] using hp
    rcases hcases with rfl | rfl
    · exact ⟨_, hchain⟩
    · exact ⟨_, .pass hkind1 hpreds1 hchain⟩
  refine ⟨w, hw, hlive, hfed, node, w', hnode, hcall, hcached, hgone, ?_⟩
  intro hcollected
  rw [hpreds2, CollectedLive, List.forall₂_cons] at hcollected
  obtain ⟨⟨q, Parameter, hq, -, hstored⟩, -⟩ := hcollected
  cases hq
  rw [hgone] at hstored
  cases hstored

end World

end Unotu.Filter
