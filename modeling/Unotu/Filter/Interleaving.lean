import Unotu.Filter.Parameters

/-!
# Evaluations in between do not show

A run interleaves constructions and destructions of nodes with evaluations, with drawing and
with parameters of the callers. What an evaluation returns depends on the former alone: leaving
all the others out of the run gives the same graph and the same answers.
-/

set_option autoImplicit false

namespace Unotu.Filter

open Unotu.Graph

/-- The steps that build or destroy a part of the graph. -/
def FilterOp.structural : FilterOp → Bool
  | .build _ | .destroy _ => true
  | .newParameter _ | .cachedOutputSet _ _ | .outputGet _ _ | .onRefresh _ => false

namespace World

variable {w w' v : World} {M : Multigraph NodeId EdgeId}

/-- What the caller of `OutputGet` sees: the value its pointer leads to, or why it stopped. -/
def outcome (w : World) (n : NodeId) (depth : Nat) : Except Stop Value :=
  match w.outputGet depth (.data n) with
  | .error (_, e) => .error e
  | .ok (w', P) =>
    match w'.castBoolean P with
    | .error (_, e) => .error e
    | .ok value => .ok value

theorem outcome_eq (h : w.Ready) {n : NodeId} (hn : w.heap.isLive n) (depth : Nat) :
    w.outcome n depth = (w.shape.evaluate depth n).getD (.error .stackOverflow) := by
  have hsim := outputGet_simulates h hn depth
  unfold outcome
  generalize w.outputGet depth (.data n) = r at hsim
  generalize w.shape.evaluate depth n = s at hsim
  cases hsim with
  | deep => rfl
  | stop => rfl
  | value ready keeps rel =>
    simp only [castBoolean_of_hasValue rel]
    rfl

/-- Cached outputs do not take part in an evaluation. -/
theorem Keeps.outcome_eq (hk : Keeps v w) (hv : v.Ready) (hw : w.Ready) {n : NodeId}
    (hn : w.heap.isLive n) (depth : Nat) : w.outcome n depth = v.outcome n depth := by
  have hn' : v.heap.isLive n := by
    rw [← hk.heap]
    exact hn
  rw [World.outcome_eq hw hn, World.outcome_eq hv hn', hk.shape]

/-! ## One step -/

/-- `v` is `w` without any parameter. -/
structure Strips (w v : World) : Prop where
  built : ∃ M, w.Built M
  bare : ∃ M, v.Built M
  keeps : Keeps v w
  uncached : ∀ f, v.cachedOutputOf f = none
  empty : ∀ p, v.store p = none

theorem Strips.makeFilter (h : w.Strips v) (n : NodeId) (Data : FilterNode) :
    (w.makeFilter n Data).Strips (v.makeFilter n Data) := by
  obtain ⟨M, hw⟩ := h.built
  obtain ⟨N, hv⟩ := h.bare
  by_cases hunused : w.heap.nodes n = .unused
  · have hunused' : v.heap.nodes n = .unused := by
      rw [← h.keeps.heap]
      exact hunused
    obtain ⟨hmade, hfilters⟩ := makeFilter_built hw hunused Data
    obtain ⟨hmade', hfilters'⟩ := makeFilter_built hv hunused' Data
    refine ⟨⟨_, hmade⟩, ⟨_, hmade'⟩, ⟨?_, ?_⟩, ?_, ?_⟩
    · simp only [World.makeFilter, hunused', setFilter, h.keeps.heap]
    · intro f
      cases f with
      | copy k => rw [hmade.noCopy, hmade'.noCopy]
      | data m =>
        rw [hfilters, hfilters']
        split
        · rfl
        · exact h.keeps.filters (.data m)
    · intro f
      cases f with
      | copy k =>
        rw [cachedOutputOf, hmade'.noCopy]
        rfl
      | data m =>
        rw [cachedOutputOf, hfilters']
        split
        · rfl
        · exact h.uncached (.data m)
    · simp only [World.makeFilter, hunused', setFilter]
      exact h.empty
  · have hunused' : v.heap.nodes n ≠ .unused := by
      rw [← h.keeps.heap]
      exact hunused
    rwa [makeFilter_of_used hunused, makeFilter_of_used hunused']

theorem Strips.build (h : w.Strips v) {op : BuildOp} (hw : w.build op = .ok w') :
    ∃ v', v.build op = .ok v' ∧ w'.Strips v' := by
  obtain ⟨M, hbuilt⟩ := h.built
  obtain ⟨N, hbare⟩ := h.bare
  obtain ⟨u, M', hu, hbuilt', -⟩ := build_spec hbuilt op
  rw [hw] at hu
  cases hu
  cases op with
  | makeFilter n Data =>
    cases hw
    exact ⟨_, rfl, h.makeFilter n Data⟩
  | makeGraph | nodeAdd | connectTo =>
    obtain ⟨hfilters, -, -⟩ := build_rest hbuilt (by simp) hw
    have hv := build_congr h.keeps.heap.symm (by simp) hw
    obtain ⟨u, N', hu, hbare', -⟩ := build_spec hbare _
    rw [hv] at hu
    cases hu
    refine ⟨_, hv, ⟨M', hbuilt'⟩, ⟨N', hbare'⟩, ⟨rfl, ?_⟩, h.uncached, h.empty⟩
    intro f
    rw [hfilters]
    exact h.keeps.filters f

theorem Strips.destroy (h : w.Strips v) {n : NodeId} (hn : w.heap.isLive n)
    (hw : w.destroy n = .ok w') : ∃ v', v.destroy n = .ok v' ∧ w'.Strips v' := by
  obtain ⟨M, hbuilt⟩ := h.built
  obtain ⟨N, hbare⟩ := h.bare
  have hn' : v.heap.isLive n := by
    rw [← h.keeps.heap]
    exact hn
  obtain ⟨u, hu, hbuilt'⟩ := destroy_built hbuilt hn
  rw [hw] at hu
  cases hu
  obtain ⟨v', hv, hbare'⟩ := destroy_built hbare hn'
  obtain ⟨hheap, -, hfilters⟩ := destroy_frame hbuilt hn hw
  obtain ⟨hheap', hreplaces, hfilters'⟩ := destroy_frame hbare hn' hv
  refine ⟨v', hv, ⟨_, hbuilt'⟩, ⟨_, hbare'⟩, ⟨?_, ?_⟩, ?_, ?_⟩
  · rw [hheap, hheap', h.keeps.heap]
  · intro f
    rw [hfilters, hfilters']
    split
    · rfl
    · exact h.keeps.filters f
  · intro f
    rw [hreplaces.cached, h.uncached f, ite_self]
  · intro p
    rw [hreplaces.store, h.empty p, ite_self]

/-- The other steps change nothing but cached outputs and parameters. -/
theorem step_keeps (h : w.Built M) {op : FilterOp} (hop : op.structural = false)
    (hc : w.OwnersCondition op) (hw : w.step op = .ok w') : Keeps w w' := by
  cases op with
  | build | destroy => cases hop
  | newParameter P =>
    cases hw
    exact ⟨rfl, fun _ => rfl⟩
  | cachedOutputSet n c =>
    simp only [step] at hw
    split at hw
    · rename_i hn
      obtain ⟨node, hnode⟩ := h.exists_data hn
      obtain ⟨u, hu, -, hkeeps, -⟩ := cachedOutputSet_spec h.owned hnode (hc hn)
      rw [hu] at hw
      cases hw
      exact hkeeps
    · cases hw
      exact .refl w
  | outputGet n depth =>
    simp only [step] at hw
    split at hw
    · rename_i hn
      exact (evaluateFilter_evaluated h.ready hn hw).keeps
    · cases hw
      exact .refl w
  | onRefresh g =>
    simp only [step] at hw
    split at hw
    · rename_i hg
      rw [onRefresh_eq h (hc hg)] at hw
      cases hw
      exact .refl w
    · cases hw
      exact .refl w

theorem Strips.structural (h : w.Strips v) {op : FilterOp} (hop : op.structural = true)
    (hw : w.step op = .ok w') : ∃ v', v.step op = .ok v' ∧ w'.Strips v' := by
  cases op with
  | newParameter | cachedOutputSet | outputGet | onRefresh => cases hop
  | build op =>
    simp only [step] at hw
    split at hw
    · rename_i hbuild
      cases hw
      obtain ⟨v', hv, hstrips⟩ := h.build hbuild
      exact ⟨v', by simp only [step, hv], hstrips⟩
    · cases hw
  | destroy n =>
    simp only [step] at hw
    by_cases hn : w.heap.isLive n
    · rw [if_pos hn] at hw
      obtain ⟨v', hv, hstrips⟩ := h.destroy hn hw
      rw [h.keeps.heap] at hn
      exact ⟨v', by simp only [step, if_pos hn, hv], hstrips⟩
    · rw [if_neg hn] at hw
      cases hw
      rw [h.keeps.heap] at hn
      exact ⟨v, by simp only [step, if_neg hn], h⟩

theorem Strips.rest (h : w.Strips v) {op : FilterOp} (hop : op.structural = false)
    (hc : w.OwnersCondition op) (hw : w.step op = .ok w') : w'.Strips v := by
  obtain ⟨M, hbuilt⟩ := h.built
  exact ⟨(step_staysBuilt hbuilt hc).after w' hw, h.bare,
    h.keeps.trans (step_keeps hbuilt hop hc hw), h.uncached, h.empty⟩

theorem empty_strips : World.empty.Strips World.empty where
  built := ⟨_, empty_built⟩
  bare := ⟨_, empty_built⟩
  keeps := .refl _
  uncached _ := rfl
  empty _ := rfl

/-! ## Runs -/

theorem Strips.run (h : w.Strips v) {ops : List FilterOp}
    (hc : Runs.EveryStep step OwnersCondition w ops) (hw : Runs.run step w ops = .ok w') :
    ∃ v', Runs.run step v (ops.filter FilterOp.structural) = .ok v' ∧ w'.Strips v' := by
  induction ops generalizing w v with
  | nil =>
    cases hw
    exact ⟨v, rfl, h⟩
  | cons op ops ih =>
    have hop : w.OwnersCondition op := hc [] op w (by simp) rfl
    cases hstep : w.step op with
    | error stopped => simp [Runs.run_cons_error step hstep] at hw
    | ok u =>
      rw [Runs.run_cons_ok step hstep] at hw
      have hrest := ((Runs.everyStep_cons step hstep ops).mp hc).2
      cases hkind : op.structural with
      | false =>
        rw [List.filter_cons_of_neg (by simp [hkind])]
        exact ih (h.rest hkind hop hstep) hrest hw
      | true =>
        obtain ⟨v', hv, hstrips⟩ := h.structural hkind hstep
        rw [List.filter_cons_of_pos hkind, Runs.run_cons_ok step hv]
        exact ih hstrips hrest hw

/-- The constructions and destructions of a run, without all that came between them, give the
same graph and filter nodes, no parameter at all, and the same answer for every node and depth. -/
theorem run_answers_alike {ops : List FilterOp}
    (hc : Runs.EveryStep step OwnersCondition World.empty ops) {w : World}
    (hw : Runs.run step World.empty ops = .ok w) :
    ∃ v, Runs.run step World.empty (ops.filter FilterOp.structural) = .ok v ∧ Keeps v w ∧
      (∀ p, v.store p = none) ∧
      ∀ n, w.heap.isLive n → ∀ depth, w.outcome n depth = v.outcome n depth := by
  obtain ⟨v, hv, hstrips⟩ := empty_strips.run hc hw
  obtain ⟨M, hbuilt⟩ := hstrips.built
  obtain ⟨N, hbare⟩ := hstrips.bare
  refine ⟨v, hv, hstrips.keeps, hstrips.empty, ?_⟩
  intro n hn depth
  exact hstrips.keeps.outcome_eq hbare.ready hbuilt.ready hn depth

theorem run_built_of_owners {ops : List FilterOp}
    (hc : Runs.EveryStep step OwnersCondition World.empty ops) {w : World}
    (hw : Runs.run step World.empty ops = .ok w) : ∃ M, w.Built M := by
  refine Runs.run_of_everyStep step (I := fun w => ∃ M, w.Built M) ?_ ⟨_, empty_built⟩ hc hw
  intro u op u' hu hop hu'
  obtain ⟨M, hbuilt⟩ := hu
  exact (step_staysBuilt hbuilt hop).after u' hu'

/-- However an evaluation in a run ends, it has renewed some cached outputs upstream of its node;
it has touched nothing else, and the parameters that nobody caches are those of before. -/
theorem run_evaluated {ops : List FilterOp}
    (hc : Runs.EveryStep step OwnersCondition World.empty ops) {w : World}
    (hw : Runs.run step World.empty ops = .ok w) {n : NodeId} (hn : w.heap.isLive n)
    (depth : Nat) : Evaluated (w.upstream n) w (endOf (w.outputGet depth (.data n))) := by
  obtain ⟨M, hbuilt⟩ := run_built_of_owners hc hw
  exact outputGet_evaluated hbuilt.ready hn depth

/-- A literal feeds an `OUT`, both are evaluated, and the literal is destroyed. -/
def evaluatedThenCut : List FilterOp :=
  [.build (.makeGraph 0), .build (.makeFilter 0 fnBooleanLiteral), .build (.makeFilter 1 fnOut),
    .build (.nodeAdd 0 0), .build (.nodeAdd 0 1), .build (.connectTo 0 (.obj 1) 0),
    .outputGet 1 2, .newParameter (.string []), .destroy 0, .outputGet 1 2]

theorem evaluatedThenCut_owners :
    Runs.EveryStep step OwnersCondition World.empty evaluatedThenCut := by
  apply Runs.everyStep_of_forall
  simp [evaluatedThenCut, OwnersCondition]

theorem evaluatedThenCut_run :
    ∃ w, Runs.run step World.empty evaluatedThenCut = .ok w ∧ w.heap.isLive 1 :=
  ⟨_, rfl, rfl⟩

theorem run_answers_alike_evaluatedThenCut :
    ∃ w v, Runs.run step World.empty evaluatedThenCut = .ok w ∧
      Runs.run step World.empty (evaluatedThenCut.filter FilterOp.structural) = .ok v ∧
      Keeps v w ∧ ∀ depth, w.outcome 1 depth = v.outcome 1 depth := by
  obtain ⟨w, hw, hlive⟩ := evaluatedThenCut_run
  obtain ⟨v, hv, hkeeps, -, hanswers⟩ := run_answers_alike evaluatedThenCut_owners hw
  exact ⟨w, v, hw, hv, hkeeps, hanswers 1 hlive⟩

theorem run_evaluated_evaluatedThenCut :
    ∃ w, Runs.run step World.empty evaluatedThenCut = .ok w ∧
      Evaluated (w.upstream 1) w (endOf (w.outputGet 2 (.data 1))) := by
  obtain ⟨w, hw, hlive⟩ := evaluatedThenCut_run
  exact ⟨w, hw, run_evaluated evaluatedThenCut_owners hw hlive 2⟩

end World

end Unotu.Filter
