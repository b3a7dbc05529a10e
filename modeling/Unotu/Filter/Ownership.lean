import Unotu.Filter.Drawing
import Unotu.Filter.Termination
import Unotu.Graph.Release

/-!
# The owner of a cached output

A cached output is deleted by `CachedOutputSet` and by the destructor of a filter node, so
each one must have a single owner. Evaluations, destructions and constructions keep that
in every order; drawing and foreign parameters keep it under an exact condition.
-/

set_option autoImplicit false

namespace Unotu.Filter

open Unotu.Graph

/-- The steps of a run. `newParameter` is an allocation by the caller of `CachedOutputSet`. -/
inductive FilterOp where
  | build (op : BuildOp)
  | newParameter (P : Parameter)
  | cachedOutputSet (n : NodeId) (Parameter : Option ParamId)
  | outputGet (n : NodeId) (depth : Nat)
  | onRefresh (g : GraphId)
  | destroy (n : NodeId)

namespace World

def leaveGraph (s : Heap Unit Unit) (n : NodeId) : Heap Unit Unit :=
  match s.graphGet n with
  | none => s
  | some g => s.nodeRemove g (.obj n)

/-- The node leaves its graph, its last pointer goes away, and its `Data` is destroyed. The last is
an assumption on the owner of the filter node: a graph node never deletes what it points to. -/
def destroy (w : World) (n : NodeId) : Except Stopped World :=
  World.destroyFilter { w with heap := (leaveGraph w.heap n).dropNode n } (.data n)

def step (w : World) : FilterOp → Except Stopped World
  | .build op =>
    match w.build op with
    | .ok w' => .ok w'
    | .error e => .error (w, e)
  | .newParameter P => .ok (w.newParameter P).1
  | .cachedOutputSet n P =>
    if w.heap.isLive n then (w.cachedOutputSet (.data n) P).map Prod.fst else .ok w
  | .outputGet n depth => if w.heap.isLive n then w.evaluateFilter (.data n) depth else .ok w
  | .onRefresh g => if g ∈ w.heap.graphs then w.onRefresh g else .ok w
  | .destroy n => if w.heap.isLive n then w.destroy n else .ok w

structure OneOwner (w : World) : Prop where
  stored : w.Stored
  sole : ∀ f, w.Sole f

def cachedOutputOf (w : World) (f : FilterId) : Option ParamId :=
  (w.filters f).bind FilterNode.cachedOutput

/-- What a step of a run owes to the owners: the world after it, or left behind by it, has
one owner for every cached output, nothing is deleted twice, an object that is destroyed
shares with nobody, and drawing changes neither the store nor a cached output. -/
structure KeepsOwners (w : World) (op : FilterOp) : Prop where
  after : ∀ w', w.step op = .ok w' → w'.OneOwner
  stopped : ∀ w' e, w.step op = .error (w', e) →
    w'.OneOwner ∧ (e = .stackOverflow ∨ ∃ message, e = .fault (.assertion message))
  destroyed : ∀ n, op = .destroy n → w.heap.isLive n → w.Sole (.data n)
  drawn : ∀ g, op = .onRefresh g → g ∈ w.heap.graphs →
    Runs.EveryStep draw DrawSafe w (w.refresh g) ∧
      ∃ w', w.onRefresh g = .ok w' ∧ w'.store = w.store ∧
        ∀ f, w'.cachedOutputOf f = w.cachedOutputOf f

/-- `CachedOutputSet` takes a parameter that is in the store and that nobody has, and drawing
meets no cached output. -/
def OwnersCondition (w : World) : FilterOp → Prop
  | .cachedOutputSet n P => w.heap.isLive n → ∀ p, P = some p → (∃ Q, w.store p = some Q) ∧
      ∀ f node, w.filters f = some node → node.cachedOutput ≠ some p
  | .onRefresh g => g ∈ w.heap.graphs → ∀ n ∈ w.heap.nodeGetAll g, w.DrawsUncached n
  | _ => True

variable {w : World} {M : Multigraph NodeId EdgeId}

theorem Owned.oneOwner (h : w.Owned) : w.OneOwner where
  stored := h.stored
  sole f g node node' p hf hg hp hp' := h.sole g f node' node p hg hf hp' hp

/-! ## Destruction -/

theorem destroyFilter_spec (h : w.Owned) {f : FilterId} {node : FilterNode}
    (hf : w.filters f = some node) :
    ∃ w', w.destroyFilter f = .ok w' ∧ w'.Owned ∧ w'.heap = w.heap ∧
      ∀ g, w'.filters g = if g = f then none else w.filters g := by
  have hnew : ∀ (node' : FilterNode) p, none = some node' → node'.cachedOutput = some p →
      (∃ P, w.store p = some P) ∧
        ∀ g node'', w.filters g = some node'' → node''.cachedOutput ≠ some p := by
    intro node' p hnode'
    cases hnode'
  obtain ⟨w₁, hdelete, howned, hheap, hfilters, -, -⟩ := replace_owned h hf hnew
  refine ⟨w₁.setFilter f none, ?_, howned, hheap, ?_⟩
  · simp only [destroyFilter, hf, hdelete]
    rfl
  · intro g
    rw [setFilter_filters, hfilters]

theorem dropNode_leaveGraph {s : Heap Unit Unit} (h : s.Represents M) (hp : s.Placed) {n : NodeId}
    (hn : s.isLive n) :
    ((leaveGraph s n).dropNode n).Placed ∧
      ((leaveGraph s n).dropNode n).Represents (M.removeNodes {n}) := by
  have hleft : (leaveGraph s n).Placed ∧ (leaveGraph s n).Represents M ∧
      ∀ g, ¬ (leaveGraph s n).InGraph n g := by
    unfold leaveGraph
    split
    · rename_i hnone
      refine ⟨hp, h, ?_⟩
      intro g hin
      have hg := (Heap.inGraph_iff.mp hin).2
      rw [Heap.graphGet] at hnone
      rw [hnone] at hg
      cases hg
    · rename_i g hg
      have hin : s.InGraph n g := Heap.inGraph_iff.mpr ⟨hn, hg⟩
      exact ⟨hp.nodeRemove g _, h.nodeRemove g _, hp.not_inGraph_nodeRemove hin⟩
  obtain ⟨hp', hrep, hout⟩ := hleft
  have hlive : (leaveGraph s n).isLive n := (hrep.nodes n).mpr ((h.nodes n).mp hn)
  have hrelease := Heap.release_spec (hrep.setHeld n false) (hp'.setHeld n false) (n := n) hout
  have hset : {m | m = n ∧ ((leaveGraph s n).setHeld n false).held m = false} = {n} := by
    ext m
    simp only [Set.mem_ofPred_eq, Set.mem_singleton_iff, Heap.setHeld]
    constructor
    · exact And.left
    · intro hm
      subst m
      exact ⟨rfl, Function.update_self ..⟩
  rw [hset] at hrelease
  rw [Heap.dropNode, if_pos hlive]
  exact ⟨hrelease.1, hrelease.2.1⟩

theorem destroy_built (h : w.Built M) {n : NodeId} (hn : w.heap.isLive n) :
    ∃ w', w.destroy n = .ok w' ∧ w'.Built (M.removeNodes {n}) := by
  obtain ⟨Data, hdata⟩ := h.exists_data hn
  obtain ⟨hp, hrep⟩ := dropNode_leaveGraph h.represents h.placed hn
  have hdropped := h.withHeap hp hrep Set.sdiff_subset
  obtain ⟨w', hw', howned, hheap, hfilters⟩ := destroyFilter_spec hdropped.owned hdata
  refine ⟨w', hw', ⟨?_, ?_, hdropped.finite, ?_, howned, ?_⟩⟩
  · rw [hheap]
    exact hp
  · rw [hheap]
    exact hrep
  · intro m hm
    rw [hheap] at hm
    have hne : m ≠ n := ((hrep.nodes m).mp hm).2
    obtain ⟨node, hnode, hparent⟩ := hdropped.wired m hm
    refine ⟨node, ?_, hparent⟩
    rw [hfilters, if_neg (by simpa using hne)]
    exact hnode
  · intro k
    rw [hfilters, if_neg (by simp)]
    exact h.noCopy k

/-! ## The other steps -/

theorem evaluateFilter_built (h : w.Built M) {n : NodeId} (hn : w.heap.isLive n) (depth : Nat) :
    (∀ w', w.evaluateFilter (.data n) depth = .ok w' → w'.Built M) ∧
      ∀ w' e, w.evaluateFilter (.data n) depth = .error (w', e) → w'.Built M ∧
        (e = .stackOverflow ∨ ∃ message, e = .fault (.assertion message)) := by
  have hsim := outputGet_simulates h.ready hn depth
  unfold evaluateFilter
  generalize w.outputGet depth (.data n) = call at hsim
  generalize hs : w.shape.evaluate depth n = s at hsim
  cases hsim with
  | deep ready keeps =>
    refine ⟨by simp, ?_⟩
    rintro w' e herror
    cases herror
    exact ⟨h.keeps keeps ready.owned, Or.inl rfl⟩
  | stop ready keeps =>
    rcases Shape.evaluate_error hs with ⟨What, Source, rfl⟩ | ⟨message, rfl⟩
    · refine ⟨?_, by simp⟩
      intro w' hok
      cases hok
      exact h.keeps keeps ready.owned
    · refine ⟨by simp, ?_⟩
      intro w' e herror
      cases herror
      exact ⟨h.keeps keeps ready.owned, Or.inr ⟨message, rfl⟩⟩
  | value ready keeps =>
    refine ⟨?_, by simp⟩
    intro w' hok
    cases hok
    exact h.keeps keeps ready.owned

/-- A pointer that `CachedOutputSet` takes over keeps single owners only if it is of a stored
parameter that nobody has. -/
theorem of_cachedOutputSet_oneOwner (h : w.Owned) {f : FilterId} {node : FilterNode}
    (hf : w.filters f = some node) {p : ParamId}
    (hafter : ∀ w' c, w.cachedOutputSet f (some p) = .ok (w', c) → w'.OneOwner) :
    (∃ Q, w.store p = some Q) ∧ ∀ g node', w.filters g = some node' → node'.cachedOutput ≠ some p := by
  obtain ⟨w₁, hdelete, -, hfilters, -, hgone, hstay⟩ := deleteParameter_owned h hf
  have hone := hafter (w₁.setFilter f (some { node with cachedOutput := some p })) (some p) (by
    simp only [cachedOutputSet, hf, hdelete]
    rfl)
  have hself : (w₁.setFilter f (some { node with cachedOutput := some p })).filters f =
      some { node with cachedOutput := some p } := by
    rw [setFilter_filters, if_pos rfl]
  obtain ⟨Q, hQ⟩ := hone.stored f _ p hself rfl
  have hstored : w₁.store p = some Q := hQ
  have hnode : node.cachedOutput ≠ some p := by
    intro hp
    rw [hgone p hp] at hstored
    cases hstored
  refine ⟨⟨Q, by rw [← hstay p hnode, hstored]⟩, ?_⟩
  intro g node' hg hp
  have hgf : g ≠ f := by
    intro heq
    subst g
    rw [hf] at hg
    cases hg
    exact hnode hp
  have hother : (w₁.setFilter f (some { node with cachedOutput := some p })).filters g =
      some node' := by
    rw [setFilter_filters, if_neg hgf, hfilters, hg]
  exact hgf (hone.sole f g _ node' p hself hother rfl hp)

/-! ## Steps and runs -/

theorem step_build (h : w.Built M) (op : BuildOp) :
    ∃ w' M', w.step (.build op) = .ok w' ∧ w'.Built M' := by
  obtain ⟨w', M', hw', hbuilt, -⟩ := build_spec h op
  exact ⟨w', M', by simp only [step, hw'], hbuilt⟩

theorem newParameter_built (h : w.Built M) (P : Parameter) : (w.newParameter P).1.Built M where
  placed := h.placed
  represents := h.represents
  finite := h.finite
  wired := h.wired
  owned := newParameter_owned h.owned P
  noCopy := h.noCopy

/-- The step goes on in a wired world, or is stopped in one by an assertion or a full stack. -/
structure StaysBuilt (w : World) (op : FilterOp) : Prop where
  after : ∀ w', w.step op = .ok w' → ∃ M, w'.Built M
  stopped : ∀ w' e, w.step op = .error (w', e) →
    (∃ M, w'.Built M) ∧ (e = .stackOverflow ∨ ∃ message, e = .fault (.assertion message))

theorem StaysBuilt.of_ok {op : FilterOp} {w' : World} (hw' : w.step op = .ok w')
    (h : w'.Built M) : w.StaysBuilt op := by
  refine ⟨?_, by simp [hw']⟩
  intro w'' hw''
  rw [hw'] at hw''
  cases hw''
  exact ⟨M, h⟩

theorem step_staysBuilt (h : w.Built M) {op : FilterOp} (hc : w.OwnersCondition op) :
    w.StaysBuilt op := by
  cases op with
  | build op =>
    obtain ⟨w', M', hw', hbuilt⟩ := step_build h op
    exact .of_ok hw' hbuilt
  | newParameter P => exact .of_ok rfl (newParameter_built h P)
  | cachedOutputSet n P =>
    by_cases hn : w.heap.isLive n
    · obtain ⟨node, hnode⟩ := h.exists_data hn
      obtain ⟨w', hset, howned, hkeeps, -⟩ := cachedOutputSet_spec h.owned hnode (hc hn)
      have hw' : w.step (.cachedOutputSet n P) = .ok w' := by
        simp only [step, if_pos hn, hset, Except.map]
      exact .of_ok hw' (h.keeps hkeeps howned)
    · exact .of_ok (if_neg hn) h
  | outputGet n depth =>
    by_cases hn : w.heap.isLive n
    · obtain ⟨hok, herror⟩ := evaluateFilter_built h hn depth
      have hstep : w.step (.outputGet n depth) = w.evaluateFilter (.data n) depth := if_pos hn
      refine ⟨?_, ?_⟩
      · intro w' hw'
        exact ⟨M, hok w' (hstep.symm.trans hw')⟩
      · intro w' e hw'
        obtain ⟨hbuilt, hstop⟩ := herror w' e (hstep.symm.trans hw')
        exact ⟨⟨M, hbuilt⟩, hstop⟩
    · exact .of_ok (if_neg hn) h
  | onRefresh g =>
    by_cases hg : g ∈ w.heap.graphs
    · exact .of_ok ((if_pos hg).trans (onRefresh_eq h (hc hg))) h
    · exact .of_ok (if_neg hg) h
  | destroy n =>
    by_cases hn : w.heap.isLive n
    · obtain ⟨w', hw', hbuilt⟩ := destroy_built h hn
      exact .of_ok ((if_pos hn).trans hw') hbuilt
    · exact .of_ok (if_neg hn) h

theorem keepsOwners_iff (h : w.Built M) (op : FilterOp) :
    w.KeepsOwners op ↔ w.OwnersCondition op := by
  constructor
  · intro hkeeps
    cases op with
    | cachedOutputSet n P =>
      rintro hn p rfl
      obtain ⟨node, hnode⟩ := h.exists_data hn
      apply of_cachedOutputSet_oneOwner h.owned hnode
      intro w' c hset
      apply hkeeps.after
      simp only [step, if_pos hn, hset, Except.map]
    | onRefresh g =>
      intro hg
      exact (refresh_safe_iff h g).mp (hkeeps.drawn g rfl hg).1
    | build | newParameter | outputGet | destroy => trivial
  · intro hc
    have hstays := step_staysBuilt h hc
    refine ⟨?_, ?_, ?_, ?_⟩
    · intro w' hw'
      obtain ⟨M', hbuilt⟩ := hstays.after w' hw'
      exact hbuilt.owned.oneOwner
    · intro w' e hw'
      obtain ⟨⟨M', hbuilt⟩, hstop⟩ := hstays.stopped w' e hw'
      exact ⟨hbuilt.owned.oneOwner, hstop⟩
    · intro n _ _
      exact h.owned.oneOwner.sole _
    · rintro g rfl hg
      exact ⟨(refresh_safe_iff h g).mpr (hc hg), w, onRefresh_eq h (hc hg), rfl, fun _ => rfl⟩

/-- In every run each cached output keeps exactly one owner as long as, and only as long as,
every step meets its condition. -/
theorem run_keepsOwners_iff (ops : List FilterOp) :
    Runs.EveryStep step KeepsOwners World.empty ops ↔
      Runs.EveryStep step OwnersCondition World.empty ops := by
  refine Runs.everyStep_iff step (I := fun w => ∃ M, w.Built M) ?_ ?_ ⟨_, empty_built⟩ ops
  · rintro w op ⟨M, h⟩
    exact keepsOwners_iff h op
  · rintro w op w' ⟨M, h⟩ hc hw'
    exact (step_staysBuilt h hc).after w' hw'

/-- A literal is evaluated and then drawn. -/
def drawnAfterEvaluation : List FilterOp :=
  [.build (.makeGraph 0), .build (.makeFilter 0 fnBooleanLiteral), .build (.nodeAdd 0 0),
    .outputGet 0 1, .onRefresh 0]

/-- Drawing deletes the output that the node still caches; drawing again deletes it twice. -/
theorem drawing_deletes_cached_output :
    ¬ Runs.EveryStep step KeepsOwners World.empty drawnAfterEvaluation ∧
      ∃ w, Runs.run step World.empty drawnAfterEvaluation = .ok w ∧
        w.cachedOutputOf (.data 0) = some 0 ∧ w.store 0 = none ∧
        ∃ w', w.step (.onRefresh 0) = .error (w', .fault .doubleFree) := by
  have hrun : ∃ w, Runs.run step World.empty drawnAfterEvaluation = .ok w ∧
      w.cachedOutputOf (.data 0) = some 0 ∧ w.store 0 = none ∧
      ∃ w', w.step (.onRefresh 0) = .error (w', .fault .doubleFree) :=
    ⟨_, rfl, rfl, rfl, _, rfl⟩
  refine ⟨?_, hrun⟩
  intro hall
  obtain ⟨w, hw, hcached, hgone, -⟩ := hrun
  have hbefore : ∃ w₀, Runs.run step World.empty (drawnAfterEvaluation.take 4) = .ok w₀ ∧
      w₀.step (.onRefresh 0) = .ok w := ⟨_, rfl, hw⟩
  obtain ⟨w₀, hw₀, hstep⟩ := hbefore
  have hlast := hall (drawnAfterEvaluation.take 4) (.onRefresh 0) w₀ List.prefix_rfl hw₀
  have hone := hlast.after w hstep
  unfold cachedOutputOf at hcached
  cases hdata : w.filters (.data 0) with
  | none => simp [hdata] at hcached
  | some node =>
    rw [hdata] at hcached
    obtain ⟨P, hP⟩ := hone.stored (.data 0) node 0 hdata hcached
    rw [hgone] at hP
    cases hP

end World

end Unotu.Filter
