import Unotu.Graph.Representation

/-!
# Membership of nodes in graphs

Membership is stored twice: `Nodes` of the graph has the node and `ParentGraph` of the
node has the graph. `Placed` says that both agree and that only living graphs have
members; each operation keeps it.
-/

set_option autoImplicit false

namespace Unotu.Graph.Heap

variable {ν ε : Type} {s t : Heap ν ε}

def InGraph (s : Heap ν ε) (n : NodeId) (g : GraphId) : Prop :=
  ∃ node, s.nodes n = .live node ∧ node.parentGraph = some g

theorem inGraph_iff {n : NodeId} {g : GraphId} :
    s.InGraph n g ↔ s.isLive n ∧ s.parentGraphOf n = some g := by
  rw [isLive_iff]
  constructor
  · rintro ⟨node, hnode, hg⟩
    exact ⟨⟨node, hnode⟩, by rw [parentGraphOf_of_live hnode, hg]⟩
  · rintro ⟨⟨node, hnode⟩, hg⟩
    exact ⟨node, hnode, by rw [← parentGraphOf_of_live hnode, hg]⟩

theorem InGraph.unique {n : NodeId} {g g' : GraphId} (h : s.InGraph n g) (h' : s.InGraph n g') :
    g = g' := by
  have hg := (inGraph_iff.mp h).2
  have hg' := (inGraph_iff.mp h').2
  exact Option.some.inj (hg.symm.trans hg')

theorem InGraph.isLive {n : NodeId} {g : GraphId} (h : s.InGraph n g) : s.isLive n :=
  (inGraph_iff.mp h).1

structure Placed (s : Heap ν ε) : Prop where
  member : ∀ g n, n ∈ s.graphNodes g ↔ s.InGraph n g
  alive : ∀ g n, n ∈ s.graphNodes g → g ∈ s.graphs

/-! ## What the writes do to membership -/

/-- A write that leaves the `ParentGraph` of a node alone leaves the node where it is. -/
theorem inGraph_of_mapLive {n : NodeId} {g : GraphId} {f : GraphNode ν → GraphNode ν}
    (hcell : t.nodes n = (s.nodes n).mapLive f)
    (hf : ∀ node, (f node).parentGraph = node.parentGraph) : t.InGraph n g ↔ s.InGraph n g := by
  simp only [InGraph, hcell, Cell.mapLive_eq_live]
  constructor
  · rintro ⟨_, ⟨old, hold, rfl⟩, hg⟩
    exact ⟨old, hold, by rwa [hf] at hg⟩
  · rintro ⟨old, hold, hg⟩
    exact ⟨_, ⟨old, hold, rfl⟩, by rwa [hf]⟩

theorem inGraph_modifyNode {n m : NodeId} {g : GraphId} {f : GraphNode ν → GraphNode ν}
    (hf : ∀ node, (f node).parentGraph = node.parentGraph) :
    (s.modifyNode n f).InGraph m g ↔ s.InGraph m g := by
  by_cases hm : m = n
  · apply inGraph_of_mapLive _ hf
    rw [modifyNode_nodes, if_pos hm]
  · simp [InGraph, modifyNode, hm]

theorem inGraph_clearParent {n m : NodeId} {g : GraphId} :
    (s.clearParent n).InGraph m g ↔ m ≠ n ∧ s.InGraph m g := by
  by_cases hm : m = n
  · subst m
    simp only [InGraph, clearParent, modifyNode, Function.update_self, Cell.mapLive_eq_live]
    constructor
    · rintro ⟨_, ⟨old, hold, rfl⟩, hg⟩
      cases hg
    · rintro ⟨hne, -⟩
      exact absurd rfl hne
  · simp [InGraph, clearParent, modifyNode, hm]

theorem inGraph_enterGraph {n m : NodeId} {g g' : GraphId} (hn : s.isLive n) :
    (s.enterGraph g n).InGraph m g' ↔ if m = n then g' = g else s.InGraph m g' := by
  obtain ⟨node, hnode⟩ := isLive_iff.mp hn
  by_cases hm : m = n
  · subst m
    simp [InGraph, enterGraph, setGraphNodes, modifyNode, hnode, eq_comm]
  · simp [InGraph, enterGraph, setGraphNodes, modifyNode, hm]

theorem inGraph_withoutNode {n m : NodeId} {g : GraphId} :
    (s.withoutNode n).InGraph m g ↔ m ≠ n ∧ s.InGraph m g := by
  by_cases hm : m = n
  · simp [InGraph, withoutNode, hm]
  · rw [inGraph_of_mapLive (nodes_withoutNode hm) fun _ => rfl]
    simp [hm]

theorem inGraph_eraseEdges {p : EdgeId → Bool} {m : NodeId} {g : GraphId} :
    (s.eraseEdges p).InGraph m g ↔ s.InGraph m g :=
  inGraph_of_mapLive rfl fun _ => rfl

theorem mem_setGraphNodes {g g' : GraphId} {Nodes : OrderedSet NodeId} {m : NodeId} :
    m ∈ (s.setGraphNodes g Nodes).graphNodes g' ↔
      if g' = g then m ∈ Nodes else m ∈ s.graphNodes g' := by
  by_cases hg : g' = g
  · subst g'
    simp [setGraphNodes]
  · simp [setGraphNodes, hg]

theorem owned_of_mem {g : GraphId} {n : NodeId} (hg : g ∈ s.graphs) (hn : n ∈ s.graphNodes g) :
    s.owned n = true := by
  rw [owned, Bool.or_eq_true, List.any_eq_true]
  exact Or.inr ⟨g, hg, by simpa using hn⟩

/-! ## The operations keep membership in step -/

namespace Placed

theorem congr (h : s.Placed) (hin : ∀ n g, t.InGraph n g ↔ s.InGraph n g)
    (hnodes : t.graphNodes = s.graphNodes) (hgraphs : t.graphs = s.graphs) : t.Placed where
  member g n := by
    rw [hnodes, hin]
    exact h.member g n
  alive g n hn := by
    rw [hnodes] at hn
    rw [hgraphs]
    exact h.alive g n hn

theorem setHeld (h : s.Placed) (n : NodeId) (holds : Bool) : (s.setHeld n holds).Placed :=
  h.congr (fun _ _ => Iff.rfl) rfl rfl

theorem nodeRemove (h : s.Placed) (g : GraphId) (p : NodePtr) : (s.nodeRemove g p).Placed := by
  unfold Heap.nodeRemove
  split
  · rename_i n
    split
    · rename_i hn
      refine ⟨?_, ?_⟩
      · intro g' m
        rw [inGraph_clearParent]
        change m ∈ (s.setGraphNodes g _).graphNodes g' ↔ m ≠ n ∧ s.InGraph m g'
        rw [mem_setGraphNodes, ← h.member g' m]
        split
        · subst g'
          simp [and_comm]
        · rename_i hg
          constructor
          · intro hm
            refine ⟨?_, hm⟩
            rintro rfl
            exact hg (((h.member g' m).mp hm).unique ((h.member g m).mp hn))
          · exact And.right
      · intro g' m hm
        change m ∈ (s.setGraphNodes g _).graphNodes g' at hm
        rw [mem_setGraphNodes] at hm
        split at hm
        · subst g'
          exact h.alive g n hn
        · exact h.alive g' m hm
    · exact h
  · exact h

theorem not_inGraph_nodeRemove (h : s.Placed) {g : GraphId} {n : NodeId} (hn : s.InGraph n g)
    (g' : GraphId) : ¬ (s.nodeRemove g (.obj n)).InGraph n g' := by
  have hmem := (h.member g n).mpr hn
  simp only [Heap.nodeRemove, hmem, if_true, inGraph_clearParent]
  exact fun hin => hin.1 rfl

theorem enterGraph (h : s.Placed) {g : GraphId} {n : NodeId} (hg : g ∈ s.graphs)
    (hn : s.isLive n) (hfree : ∀ g', ¬ s.InGraph n g') : (s.enterGraph g n).Placed where
  member g' m := by
    rw [inGraph_enterGraph hn]
    change m ∈ (s.setGraphNodes g _).graphNodes g' ↔ _
    rw [mem_setGraphNodes]
    by_cases hm : m = n
    · subst m
      rw [if_pos rfl]
      split
      · simp_all
      · rename_i hne
        exact iff_of_false (fun hin => hfree g' ((h.member g' n).mp hin)) hne
    · rw [if_neg hm, ← h.member g' m]
      split
      · subst g'
        simp [hm]
      · exact Iff.rfl
  alive g' m hm := by
    change m ∈ (s.setGraphNodes g _).graphNodes g' at hm
    rw [mem_setGraphNodes] at hm
    split at hm
    · subst g'
      exact hg
    · exact h.alive g' m hm

theorem withoutNode (h : s.Placed) {n : NodeId} (hn : ∀ g, n ∉ s.graphNodes g) :
    (s.withoutNode n).Placed where
  member g m := by
    rw [inGraph_withoutNode]
    change m ∈ s.graphNodes g ↔ _
    rw [← h.member g m]
    constructor
    · intro hm
      refine ⟨?_, hm⟩
      rintro rfl
      exact hn g hm
    · exact And.right
  alive := h.alive

theorem notMem_of_not_owned (h : s.Placed) {n : NodeId} (hn : s.owned n = false) (g : GraphId) :
    n ∉ s.graphNodes g := by
  intro hmem
  rw [owned_of_mem (h.alive g n hmem) hmem] at hn
  cases hn

end Placed

end Unotu.Graph.Heap
