import Unotu.Graph.Destruction

/-!
# Cutting a list of edges

`Cut` asks one endpoint for the edge and erases the answer from both. In every heap of a run
this erases the edge wherever it is, so the result of cutting a list depends only on which
edges are in it.
-/

set_option autoImplicit false

namespace Unotu.Graph.Heap

open Multigraph

variable {ν ε : Type} {s : Heap ν ε} {M : Multigraph NodeId EdgeId}

/-- What `t` has to be after the edges in `es` were cut in `s`. -/
structure CutLaw (s t : Heap ν ε) (es : List EdgeId) : Prop where
  isLive : ∀ n, t.isLive n = s.isLive n
  edgesOf : ∀ n e, s.isLive n → (e ∈ t.edgesOf n ↔ e ∈ s.edgesOf n ∧ e ∉ es)
  cells : ∀ n, t.nodes n = (s.nodes n).mapLive fun node => { node with edges := t.edgesOf n }
  ends : t.edges = s.edges
  graphs : t.graphs = s.graphs ∧ t.graphNodes = s.graphNodes
  held : t.held = s.held

theorem cutLaw_eraseEdges (s : Heap ν ε) (es : List EdgeId) :
    CutLaw s (s.eraseEdges fun e => decide (e ∈ es)) es := by
  refine ⟨?_, ?_, ?_, rfl, ⟨rfl, rfl⟩, rfl⟩
  · intro n
    exact eraseEdges_isLive s _ n
  · intro n e hn
    have hcell : (s.eraseEdges fun e => decide (e ∈ es)).nodes n = (s.nodes n).mapLive fun node =>
      { node with edges := node.edges.filter fun e => !decide (e ∈ es) } := rfl
    rw [mem_edgesOf_of_filter hcell hn]
    simp
  · intro n
    simp only [eraseEdges]
    apply Cell.mapLive_congr
    intro node hnode
    simp only [Heap.edgesOf, hnode, Cell.mapLive_live]

theorem cutLaw (h : s.Represents M) (es : List EdgeId) : CutLaw s (es.foldl cut s) es := by
  rw [h.mirrored.foldl_cut_eq]
  exact cutLaw_eraseEdges s es

/-- Order and repetitions do not matter. -/
theorem foldl_cut_congr (h : s.Represents M) {es es' : List EdgeId}
    (hes : ∀ e, e ∈ es' ↔ e ∈ es) : es'.foldl cut s = es.foldl cut s := by
  rw [h.mirrored.foldl_cut_eq, h.mirrored.foldl_cut_eq]
  simp only [hes]

/-- In every state of a run, cutting a list of edges takes exactly these out of the edge sets,
whatever has become of the edges and their ends. Every list of the same edges, in another order
or with repetitions, gives the same state, and cutting the list again changes nothing. -/
theorem run_cutLaw (ops : List (LifetimeOp ν ε)) :
    Runs.Along stepLifetime
      (fun s => ∀ es, CutLaw s (es.foldl cut s) es ∧
        (∀ es' : List EdgeId, (∀ e, e ∈ es' ↔ e ∈ es) → es'.foldl cut s = es.foldl cut s) ∧
        es.foldl cut (es.foldl cut s) = es.foldl cut s)
      Heap.empty ops := by
  intro before s _ hrun es
  obtain ⟨M, h⟩ := run_represents hrun
  refine ⟨cutLaw h es, ?_, ?_⟩
  · intro es' hes
    exact foldl_cut_congr h hes
  · rw [← List.foldl_append]
    apply foldl_cut_congr h
    intro e
    rw [List.mem_append, or_self]

end Unotu.Graph.Heap
