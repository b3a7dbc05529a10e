import Unotu.Filter.Evaluation

/-!
# Building filter graphs

Graphs are built by creating filter nodes, each wired to the graph node that holds it, and by
`NodeAdd` and `ConnectTo`. `Built` is what every such construction keeps.
-/

set_option autoImplicit false

namespace Unotu.Filter

open Unotu.Graph

inductive BuildOp where
  | makeGraph (g : GraphId)
  | makeFilter (n : NodeId) (Data : FilterNode)
  | nodeAdd (g : GraphId) (n : NodeId)
  | connectTo (this : NodeId) (Destination : NodePtr) (e : EdgeId)

namespace World

def empty : World := ⟨Heap.empty, fun _ => none, fun _ => none, 0⟩

def withHeap (w : World) : Except Fault (Heap Unit Unit) → Except Stop World
  | .ok heap => .ok { w with heap := heap }
  | .error f => .error (.fault f)

/-- A new graph node with a new filter node. That `ParentGraphNode` is then set to the graph node
is an assumption on the caller: no code of the program sets it. -/
def makeFilter (w : World) (n : NodeId) (Data : FilterNode) : World :=
  match w.heap.nodes n with
  | .unused =>
    { w with heap := w.heap.makeNode n () }.setFilter (.data n)
      (some { Data with parentGraphNode := some n, cachedOutput := none })
  | _ => w

def build (w : World) : BuildOp → Except Stop World
  | .makeGraph g => w.withHeap (w.heap.step (.makeGraph g))
  | .makeFilter n Data => .ok (w.makeFilter n Data)
  | .nodeAdd g n => w.withHeap (w.heap.step (.nodeAdd g n))
  | .connectTo this Destination e => w.withHeap (w.heap.step (.connectTo this Destination () e))

/-- A wired world over a heap that represents a finite multigraph, without local copies. -/
structure Built (w : World) (M : Multigraph NodeId EdgeId) : Prop where
  placed : w.heap.Placed
  represents : w.heap.Represents M
  finite : M.nodes.Finite
  wired : w.Wired
  owned : w.Owned
  noCopy : ∀ k, w.filters (.copy k) = none

variable {w : World} {M : Multigraph NodeId EdgeId}

theorem Built.sound (h : w.Built M) : w.heap.Sound := ⟨h.placed, M, h.represents⟩

theorem Built.ready (h : w.Built M) : w.Ready := ⟨h.sound, h.wired, h.owned⟩

theorem Built.mem_preds (h : w.Built M) {n : NodeId} (hn : w.heap.isLive n) (m : NodeId) :
    m ∈ w.shape.preds n ↔ M.Adj m n :=
  mem_preds_iff h.represents hn h.sound m

theorem Built.keeps (h : w.Built M) {w' : World} (hk : Keeps w w') (howned : w'.Owned) :
    w'.Built M where
  placed := by
    rw [hk.heap]
    exact h.placed
  represents := by
    rw [hk.heap]
    exact h.represents
  finite := h.finite
  wired := (h.ready.keeps hk howned).wired
  owned := howned
  noCopy k := by
    have hmap := hk.filters (.copy k)
    rw [h.noCopy k, Option.map_none, Option.map_eq_none_iff] at hmap
    exact hmap

theorem empty_built : World.empty.Built (Multigraph.empty NodeId EdgeId) where
  placed := Heap.empty_placed
  represents := Heap.empty_represents
  finite := Set.finite_empty
  wired n hn := by simp [empty, Heap.isLive_iff, Heap.empty] at hn
  owned := ⟨by simp [empty], by simp [empty], by simp [empty]⟩
  noCopy _ := rfl

theorem Built.withHeap (h : w.Built M) {heap : Heap Unit Unit} {M' : Multigraph NodeId EdgeId}
    (hp : heap.Placed) (hrep : heap.Represents M') (hnodes : M'.nodes ⊆ M.nodes) :
    World.Built { w with heap := heap } M' where
  placed := hp
  represents := hrep
  finite := h.finite.subset hnodes
  wired n hn := h.wired n ((h.represents.nodes n).mpr (hnodes ((hrep.nodes n).mp hn)))
  owned := ⟨h.owned.stored, h.owned.sole, h.owned.fresh⟩
  noCopy := h.noCopy

/-! ## One step -/

/-- `ConnectTo` creates an edge: the call is possible and both nodes are in one graph. -/
structure Connects (w : World) (this d : NodeId) (e : EdgeId) : Prop where
  fresh : w.heap.edges e = none
  together : ∃ g, w.heap.InGraph this g ∧ w.heap.InGraph d g

theorem makeFilter_of_used {n : NodeId} (hused : w.heap.nodes n ≠ .unused) (Data : FilterNode) :
    w.makeFilter n Data = w := by
  unfold makeFilter
  split
  · rename_i hunused
    exact absurd hunused hused
  · rfl

theorem Owned.setUncached (h : w.Owned) (f : FilterId) {node : FilterNode}
    (hnone : node.cachedOutput = none) : (w.setFilter f (some node)).Owned := by
  refine ⟨?_, ?_, h.fresh⟩
  · intro g node' p hg hp
    rw [setFilter_filters] at hg
    split at hg
    · cases hg
      rw [hnone] at hp
      cases hp
    · exact h.stored g node' p hg hp
  · intro g g' node₁ node₂ p hg hg' hp hp'
    rw [setFilter_filters] at hg hg'
    split at hg
    · cases hg
      rw [hnone] at hp
      cases hp
    · split at hg'
      · cases hg'
        rw [hnone] at hp'
        cases hp'
      · exact h.sole g g' node₁ node₂ p hg hg' hp hp'

theorem makeFilter_built (h : w.Built M) {n : NodeId} (hunused : w.heap.nodes n = .unused)
    (Data : FilterNode) :
    (w.makeFilter n Data).Built (M.addNode n) ∧ ∀ m, (w.makeFilter n Data).filters (.data m) =
      if m = n then some { Data with parentGraphNode := some n, cachedOutput := none }
      else w.filters (.data m) := by
  have hmake : w.makeFilter n Data = { w with heap := w.heap.makeNode n () }.setFilter (.data n)
      (some { Data with parentGraphNode := some n, cachedOutput := none }) := by
    simp only [makeFilter, hunused]
  have hrep := Heap.makeNode_represents h.represents hunused ()
  have hfilters : ∀ m, (w.makeFilter n Data).filters (.data m) =
      if m = n then some { Data with parentGraphNode := some n, cachedOutput := none }
      else w.filters (.data m) := by
    intro m
    rw [hmake, setFilter_filters]
    simp only [FilterId.data.injEq]
  have howned : World.Owned { w with heap := w.heap.makeNode n () } :=
    ⟨h.owned.stored, h.owned.sole, h.owned.fresh⟩
  refine ⟨⟨?_, ?_, h.finite.insert n, ?_, ?_, ?_⟩, hfilters⟩
  · rw [hmake]
    exact Heap.makeNode_placed h.placed hunused ()
  · rw [hmake]
    exact hrep
  · intro m hm
    rw [hfilters]
    split
    · rename_i hmn
      exact ⟨_, rfl, by rw [hmn]⟩
    · rename_i hmn
      rw [hmake] at hm
      rcases (hrep.nodes m).mp hm with hm | hm
      · exact absurd hm hmn
      · exact h.wired m ((h.represents.nodes m).mpr hm)
  · rw [hmake]
    exact howned.setUncached (.data n) rfl
  · intro k
    rw [hmake, setFilter_filters]
    simpa using h.noCopy k

/-- What one operation does: it connects two nodes, creates a node, or neither. -/
inductive BuildStep (w : World) (M : Multigraph NodeId EdgeId) :
    BuildOp → World → Multigraph NodeId EdgeId → Prop where
  | connected {this d : NodeId} {e : EdgeId} {w' : World} (hthis : this ∈ M.nodes)
      (hd : d ∈ M.nodes) (hc : w.Connects this d e) (hnew : e ∉ M.edges)
      (hf : w'.filters = w.filters) :
      BuildStep w M (.connectTo this (.obj d) e) w' (M.addEdge e hthis hd)
  | created {n : NodeId} {Data : FilterNode} {w' : World} (hn : n ∉ M.nodes)
      (hf : ∀ m, w'.filters (.data m) =
        if m = n then some { Data with parentGraphNode := some n, cachedOutput := none }
        else w.filters (.data m)) :
      BuildStep w M (.makeFilter n Data) w' (M.addNode n)
  | kept {op : BuildOp} {w' : World}
      (hc : ∀ this d e, op = .connectTo this (.obj d) e → ¬ w.Connects this d e)
      (hf : w'.filters = w.filters) : BuildStep w M op w' M

theorem build_spec (h : w.Built M) (op : BuildOp) :
    ∃ w' M', w.build op = .ok w' ∧ w'.Built M' ∧ BuildStep w M op w' M' := by
  cases op with
  | makeGraph g =>
    have hbuilt := h.withHeap (Heap.makeGraph_placed h.placed g)
      (Heap.makeGraph_represents h.represents g) subset_rfl
    exact ⟨_, M, rfl, hbuilt, .kept (by simp) rfl⟩
  | makeFilter n Data =>
    by_cases hunused : w.heap.nodes n = .unused
    · obtain ⟨hbuilt, hfilters⟩ := makeFilter_built h hunused Data
      exact ⟨_, _, rfl, hbuilt, .created (h.represents.notMem_of_unused hunused) hfilters⟩
    · refine ⟨w, M, ?_, h, .kept (by simp) rfl⟩
      exact congrArg Except.ok (makeFilter_of_used hunused Data)
  | nodeAdd g n =>
    by_cases hc : g ∈ w.heap.graphs ∧ w.heap.isLive n
    · obtain ⟨t, ht, htp, hrep, -⟩ := Heap.nodeAdd_spec h.represents h.placed hc.1 hc.2
      refine ⟨{ w with heap := t }, M, ?_, h.withHeap htp hrep subset_rfl, .kept (by simp) rfl⟩
      simp only [build, Heap.step, if_pos hc, ht, World.withHeap]
    · refine ⟨w, M, ?_, h, .kept (by simp) rfl⟩
      simp only [build, Heap.step, if_neg hc, World.withHeap]
  | connectTo this Destination e =>
    by_cases hc : w.heap.isLive this ∧ w.heap.canPass Destination ∧ w.heap.edges e = none
    · rcases Heap.connectTo_cases h.placed hc.1 hc.2.1 () e with
        ⟨heq, hapart⟩ | ⟨d, g, rfl, hin, hind, heq⟩
      · refine ⟨w, M, ?_, h, .kept ?_ rfl⟩
        · simp only [build, Heap.step, if_pos hc, heq, Except.map, World.withHeap]
        · intro this' d e' hop hconnects
          cases hop
          obtain ⟨g, hin, hind⟩ := hconnects.together
          exact hapart d g rfl hin hind
      · have hthis := (h.represents.nodes this).mp hc.1
        have hd := (h.represents.nodes d).mp hind.isLive
        obtain ⟨hnew, hrep⟩ := Heap.addEdge_represents h.represents () hthis hd hc.2.2
        have hbuilt := h.withHeap (Heap.addEdge_placed h.placed _ _ _ _) hrep subset_rfl
        refine ⟨_, _, ?_, hbuilt, .connected hthis hd ⟨hc.2.2, g, hin, hind⟩ hnew rfl⟩
        simp only [build, Heap.step, if_pos hc, heq, Except.map, World.withHeap]
    · refine ⟨w, M, ?_, h, .kept ?_ rfl⟩
      · simp only [build, Heap.step, if_neg hc, World.withHeap]
      · intro this' d e' hop hconnects
        cases hop
        obtain ⟨g, hin, hind⟩ := hconnects.together
        exact hc ⟨hin.isLive, hind.isLive, hconnects.fresh⟩

theorem build_built (h : ∃ M, w.Built M) (op : BuildOp) :
    ∃ w', w.build op = .ok w' ∧ ∃ M, w'.Built M := by
  obtain ⟨M, h⟩ := h
  obtain ⟨w', M', hw', hbuilt, -⟩ := build_spec h op
  exact ⟨w', hw', M', hbuilt⟩

/-- Every construction goes through. -/
theorem run_built (ops : List BuildOp) :
    ∃ w, Runs.run World.build World.empty ops = .ok w ∧ ∃ M, w.Built M :=
  Runs.run_invariant World.build (fun _ op h => build_built h op) ⟨_, empty_built⟩ ops

end World

end Unotu.Filter
