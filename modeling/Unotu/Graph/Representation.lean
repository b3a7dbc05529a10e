import Unotu.Graph.Erasure
import Unotu.Library.Multigraph

/-!
# The heap of nodes represents a directed multigraph

Each edge is stored in the sets of both its ends. `Represents` says that these copies
are the incidence relation of one multigraph, and every operation on the heap is a
sequence of changes of that multigraph.
-/

set_option autoImplicit false

namespace Unotu.Graph.Heap

open Multigraph

variable {ν ε : Type} {s t : Heap ν ε} {M : Multigraph NodeId EdgeId}

structure Represents (s : Heap ν ε) (M : Multigraph NodeId EdgeId) : Prop where
  nodes : ∀ n, s.isLive n ↔ n ∈ M.nodes
  holds : ∀ n e, s.Holds n e ↔ M.Incident e n
  ends : ∀ e ∈ M.edges, ∃ edge, s.edges e = some edge ∧
    edge.source = M.source e ∧ edge.destination = M.target e

namespace Represents

theorem ends_of_edge (h : s.Represents M) {e : EdgeId} {edge : GraphEdge ε}
    (he : e ∈ M.edges) (hedge : s.edges e = some edge) :
    edge.source = M.source e ∧ edge.destination = M.target e := by
  obtain ⟨edge', hedge', hends⟩ := h.ends e he
  obtain rfl : edge' = edge := Option.some.inj (hedge'.symm.trans hedge)
  exact hends

theorem mem_edges (h : s.Represents M) {n : NodeId} {e : EdgeId} (hn : s.Holds n e) :
    e ∈ M.edges := ((h.holds n e).mp hn).1

theorem notMem_of_unused (h : s.Represents M) {n : NodeId} (hunused : s.nodes n = .unused) :
    n ∉ M.nodes := by
  intro hn
  obtain ⟨node, hnode⟩ := isLive_iff.mp ((h.nodes n).mpr hn)
  rw [hunused] at hnode
  cases hnode

theorem mirrored (h : s.Represents M) : s.Mirrored where
  recorded {n e} hn := by
    obtain ⟨he, hend⟩ := (h.holds n e).mp hn
    obtain ⟨edge, hedge, hs, hd⟩ := h.ends e he
    exact ⟨edge, hedge, by rwa [hs, hd]⟩
  source {n e edge} hn hedge _ := by
    have he := h.mem_edges hn
    rw [(h.ends_of_edge he hedge).1]
    exact (h.holds _ e).mpr (incident_source he)
  destination {n e edge} hn hedge _ := by
    have he := h.mem_edges hn
    rw [(h.ends_of_edge he hedge).2]
    exact (h.holds _ e).mpr (incident_target he)

/-- Membership in graphs, ownership and the data of nodes are not part of the multigraph. -/
theorem congr (h : s.Represents M) (hlive : ∀ n, t.isLive n = s.isLive n)
    (hholds : ∀ n e, t.Holds n e ↔ s.Holds n e) (hedges : t.edges = s.edges) :
    t.Represents M where
  nodes n := by
    rw [hlive]
    exact h.nodes n
  holds n e := (hholds n e).trans (h.holds n e)
  ends e he := by
    rw [hedges]
    exact h.ends e he

theorem eraseEdges (h : s.Represents M) (p : EdgeId → Bool) :
    (s.eraseEdges p).Represents (M.removeEdges {e | p e = true}) where
  nodes n := by
    rw [eraseEdges_isLive]
    exact h.nodes n
  holds n e := by
    rw [holds_eraseEdges, incident_removeEdges, h.holds]
    simp
  ends e he := h.ends e he.1

theorem cut (h : s.Represents M) (e : EdgeId) :
    (s.cut e).Represents (M.removeEdges {f | decide (f = e) = true}) := by
  rw [h.mirrored.cut_eq]
  exact h.eraseEdges _

theorem withoutNode (h : s.Represents M) {n : NodeId} (hn : s.isLive n) :
    (s.withoutNode n).Represents (M.removeNodes {n}) where
  nodes m := by
    rw [isLive_withoutNode, h.nodes]
    exact and_comm
  holds m e := by
    obtain ⟨node, hnode⟩ := isLive_iff.mp hn
    have hset : e ∈ s.edgesOf n ↔ M.Incident e n := by
      rw [edgesOf_of_live hnode, ← holds_iff_of_live hnode, h.holds]
    rw [holds_withoutNode, incident_removeNode, h.holds, hset]
    constructor
    · exact And.right
    · rintro ⟨hm, hnot⟩
      refine ⟨?_, hm, hnot⟩
      rintro rfl
      exact hnot hm
  ends e he := h.ends e he.1

theorem modifyNode (h : s.Represents M) (n : NodeId) {f : GraphNode ν → GraphNode ν}
    (hf : ∀ node, (f node).edges = node.edges) : (s.modifyNode n f).Represents M := by
  refine h.congr ?_ ?_ rfl
  · intro m
    exact isLive_modifyNode
  · intro m e
    unfold Holds
    rw [modifyNode_nodes]
    split <;> cases s.nodes m <;> simp [hf]

theorem setGraphNodes (h : s.Represents M) (g : GraphId) (Nodes : OrderedSet NodeId) :
    (s.setGraphNodes g Nodes).Represents M :=
  h.congr (fun _ => rfl) (fun _ _ => Iff.rfl) rfl

theorem setHeld (h : s.Represents M) (n : NodeId) (holds : Bool) :
    (s.setHeld n holds).Represents M :=
  h.congr (fun _ => rfl) (fun _ _ => Iff.rfl) rfl

theorem clearParent (h : s.Represents M) (n : NodeId) : (s.clearParent n).Represents M :=
  h.modifyNode n fun _ => rfl

theorem enterGraph (h : s.Represents M) (g : GraphId) (n : NodeId) :
    (s.enterGraph g n).Represents M :=
  (h.setGraphNodes g _).modifyNode n fun _ => rfl

theorem nodeRemove (h : s.Represents M) (g : GraphId) (p : NodePtr) :
    (s.nodeRemove g p).Represents M := by
  unfold Heap.nodeRemove
  split
  · split
    · exact (h.setGraphNodes g _).clearParent _
    · exact h
  · exact h

end Represents

end Unotu.Graph.Heap
