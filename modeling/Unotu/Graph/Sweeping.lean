import Unotu.Graph.Roster

/-!
# What nobody owns is swept away

Releasing nodes takes away those that nobody owns any more, in whichever order they are
released. No other node is touched, and nothing comes into being.
-/

set_option autoImplicit false

namespace Unotu.Graph.Heap

open Multigraph

variable {ν ε : Type} {s t u : Heap ν ε} {M : Multigraph NodeId EdgeId}

/-! ## The data of nodes and the ends of edges -/

/-- No node has come into being, no data was written, and the edges ever made are the same. -/
structure KeepsCells (s t : Heap ν ε) : Prop where
  data : ∀ n node, t.nodes n = .live node → ∃ old, s.nodes n = .live old ∧ node.data = old.data
  unused : ∀ n, t.nodes n = .unused ↔ s.nodes n = .unused
  dying : ∀ n node, t.nodes n = .dying node → s.nodes n = .dying node
  expired : ∀ n, s.nodes n = .expired → t.nodes n = .expired
  edges : t.edges = s.edges

namespace KeepsCells

theorem refl (s : Heap ν ε) : KeepsCells s s where
  data _ node h := ⟨node, h, rfl⟩
  unused _ := Iff.rfl
  dying _ _ h := h
  expired _ h := h
  edges := rfl

theorem trans (h : KeepsCells s t) (h' : KeepsCells t u) : KeepsCells s u where
  data n node hnode := by
    obtain ⟨mid, hmid, heq⟩ := h'.data n node hnode
    obtain ⟨old, hold, heq'⟩ := h.data n mid hmid
    exact ⟨old, hold, heq.trans heq'⟩
  unused n := (h'.unused n).trans (h.unused n)
  dying n node hnode := h.dying n node (h'.dying n node hnode)
  expired n hn := h'.expired n (h.expired n hn)
  edges := h'.edges.trans h.edges

theorem of_nodes (hnodes : t.nodes = s.nodes) (hedges : t.edges = s.edges) : KeepsCells s t where
  data n node hnode := ⟨node, hnodes ▸ hnode, rfl⟩
  unused n := by rw [hnodes]
  dying n node hnode := hnodes ▸ hnode
  expired n hn := hnodes ▸ hn
  edges := hedges

theorem setGraphNodes (s : Heap ν ε) (g : GraphId) (Nodes : OrderedSet NodeId) :
    KeepsCells s (s.setGraphNodes g Nodes) := of_nodes rfl rfl

/-- Every node has expired or was written to, its data apart. -/
theorem of_mapLive (hedges : t.edges = s.edges)
    (hcell : ∀ n, (∃ f : GraphNode ν → GraphNode ν,
        (∀ node, (f node).data = node.data) ∧ t.nodes n = (s.nodes n).mapLive f) ∨
      s.nodes n ≠ .unused ∧ t.nodes n = .expired) : KeepsCells s t where
  data n node hnode := by
    rcases hcell n with ⟨f, hf, heq⟩ | ⟨-, heq⟩
    · rw [heq] at hnode
      obtain ⟨old, hold, rfl⟩ := Cell.mapLive_eq_live.mp hnode
      exact ⟨old, hold, hf old⟩
    · rw [heq] at hnode
      cases hnode
  unused n := by
    rcases hcell n with ⟨f, -, heq⟩ | ⟨hused, heq⟩
    · rw [heq]
      cases s.nodes n <;> simp
    · rw [heq]
      exact iff_of_false (by simp) hused
  dying n node hnode := by
    rcases hcell n with ⟨f, -, heq⟩ | ⟨-, heq⟩
    · rw [heq] at hnode
      cases hold : s.nodes n <;> simp_all
    · rw [heq] at hnode
      cases hnode
  expired n hn := by
    rcases hcell n with ⟨f, -, heq⟩ | ⟨-, heq⟩
    · rw [heq, hn, Cell.mapLive_expired]
    · exact heq
  edges := hedges

theorem modifyNode (s : Heap ν ε) (n : NodeId) {f : GraphNode ν → GraphNode ν}
    (hf : ∀ node, (f node).data = node.data) : KeepsCells s (s.modifyNode n f) := by
  have hedges : (s.modifyNode n f).edges = s.edges := rfl
  apply of_mapLive hedges
  intro m
  rw [modifyNode_nodes]
  split
  · exact Or.inl ⟨f, hf, rfl⟩
  · exact Or.inl ⟨id, fun _ => rfl, (Cell.mapLive_id _).symm⟩

theorem eraseEdges (s : Heap ν ε) (p : EdgeId → Bool) : KeepsCells s (s.eraseEdges p) := by
  have hedges : (s.eraseEdges p).edges = s.edges := rfl
  apply of_mapLive hedges
  intro n
  refine Or.inl ⟨_, ?_, rfl⟩
  exact fun _ => rfl

theorem withoutNode (s : Heap ν ε) {n : NodeId} (hn : s.isLive n) :
    KeepsCells s (s.withoutNode n) := by
  have hedges : (s.withoutNode n).edges = s.edges := rfl
  apply of_mapLive hedges
  intro m
  by_cases hm : m = n
  · obtain ⟨node, hnode⟩ := isLive_iff.mp hn
    subst m
    exact Or.inr ⟨by simp [hnode], if_pos rfl⟩
  · refine Or.inl ⟨_, ?_, nodes_withoutNode hm⟩
    exact fun _ => rfl

theorem clearParent (s : Heap ν ε) (n : NodeId) : KeepsCells s (s.clearParent n) :=
  modifyNode s n fun _ => rfl

theorem enterGraph (s : Heap ν ε) (g : GraphId) (n : NodeId) : KeepsCells s (s.enterGraph g n) :=
  (setGraphNodes s g _).trans (modifyNode _ n fun _ => rfl)

theorem insertEdge (s : Heap ν ε) (n : NodeId) (e : EdgeId) : KeepsCells s (s.insertEdge n e) :=
  modifyNode s n fun _ => rfl

/-- After the edge was made, nothing but the two insertions. -/
theorem addEdge (s : Heap ν ε) (this d : NodeId) (e : EdgeId) (Edge : GraphEdge ε) :
    KeepsCells { s with edges := Function.update s.edges e (some Edge) }
      (s.addEdge this d e Edge) :=
  (insertEdge _ this e).trans (insertEdge _ d e)

theorem nodeRemove (s : Heap ν ε) (g : GraphId) (p : NodePtr) : KeepsCells s (s.nodeRemove g p) := by
  unfold Heap.nodeRemove
  split
  · split
    · exact (setGraphNodes s g _).trans (clearParent _ _)
    · exact refl s
  · exact refl s

theorem detachAll (s : Heap ν ε) (g : GraphId) : KeepsCells s (s.detachAll g) := by
  have hfold : ∀ (ns : List NodeId) (s : Heap ν ε), KeepsCells s (ns.foldl Heap.clearParent s) := by
    intro ns
    induction ns with
    | nil => exact refl
    | cons n ns ih => exact fun s => (clearParent s n).trans (ih _)
  exact (hfold _ s).trans (setGraphNodes _ g _)

end KeepsCells

/-! ## What the other fields keep -/

theorem nodeRemove_frame (s : Heap ν ε) (g : GraphId) (p : NodePtr) :
    (s.nodeRemove g p).graphs = s.graphs ∧ (s.nodeRemove g p).held = s.held := by
  unfold Heap.nodeRemove
  split
  · split <;> exact ⟨rfl, rfl⟩
  · exact ⟨rfl, rfl⟩

/-! ## Releasing several nodes -/

/-- What the releases take away is what nobody owned, and nothing else changes. -/
structure Swept (s : Heap ν ε) (M : Multigraph NodeId EdgeId) (ns : List NodeId)
    (t : Heap ν ε) : Prop where
  represents : t.Represents (M.removeNodes {n | n ∈ ns ∧ s.owned n = false})
  inGraph : ∀ n g, t.InGraph n g ↔ ¬ (n ∈ ns ∧ s.owned n = false) ∧ s.InGraph n g
  graphs : t.graphs = s.graphs
  graphNodes : t.graphNodes = s.graphNodes
  held : t.held = s.held
  cells : KeepsCells s t

theorem Swept.owned {ns : List NodeId} (h : s.Swept M ns t) (n : NodeId) :
    t.owned n = s.owned n := by
  rw [Heap.owned, Heap.owned, h.held, h.graphs, h.graphNodes]

theorem Represents.release_swept (h : s.Represents M) (n : NodeId) :
    s.Swept M [n] (s.release n) := by
  rcases h.mirrored.release_cases n with ⟨hsame, hdead⟩ | ⟨hgone, hlive, hown⟩
  · rw [hsame]
    have hnot : ∀ m ∈ M.nodes, ¬ (m ∈ [n] ∧ s.owned m = false) := by
      rintro m hm ⟨hmn, hfalse⟩
      obtain rfl := List.mem_singleton.mp hmn
      rw [hdead ((h.nodes m).mpr hm)] at hfalse
      cases hfalse
    refine ⟨?_, ?_, rfl, rfl, rfl, .refl s⟩
    · rw [removeNodes_eq_self]
      · exact h
      · exact fun m hm hmM => hnot m hmM hm
    · intro m g
      exact ⟨fun hin => ⟨hnot m ((h.nodes m).mp hin.isLive), hin⟩, And.right⟩
  · rw [hgone]
    have hset : {m | m ∈ [n] ∧ s.owned m = false} = ({n} : Set NodeId) := by
      ext m
      constructor
      · exact fun hm => List.mem_singleton.mp hm.1
      · rintro rfl
        exact ⟨List.mem_singleton_self m, hown⟩
    refine ⟨?_, ?_, rfl, rfl, rfl, .withoutNode s hlive⟩
    · rw [hset]
      exact h.withoutNode hlive
    · intro m g
      rw [inGraph_withoutNode]
      have hiff : m = n ↔ m ∈ [n] ∧ s.owned m = false := (Set.ext_iff.mp hset m).symm
      rw [← hiff]

theorem Represents.foldl_release_swept (h : s.Represents M) (ns : List NodeId) :
    s.Swept M ns (ns.foldl release s) := by
  induction ns generalizing s M with
  | nil =>
    refine ⟨?_, by simp, rfl, rfl, rfl, .refl s⟩
    rw [removeNodes_eq_self M (by simp)]
    exact h
  | cons n ns ih =>
    have hfirst := h.release_swept n
    have hrest := ih hfirst.represents
    have hor : ∀ m, (m ∈ n :: ns ∧ s.owned m = false) ↔
        (m ∈ [n] ∧ s.owned m = false) ∨ (m ∈ ns ∧ (s.release n).owned m = false) := by
      intro m
      rw [hfirst.owned, ← or_and_right, List.mem_cons, List.mem_singleton]
    refine ⟨?_, ?_, hrest.graphs.trans hfirst.graphs, hrest.graphNodes.trans hfirst.graphNodes,
      hrest.held.trans hfirst.held, hfirst.cells.trans hrest.cells⟩
    · have hrep := hrest.represents
      rw [removeNodes_removeNodes] at hrep
      simp only [hor]
      exact hrep
    · intro m g
      rw [List.foldl_cons, hrest.inGraph, hfirst.inGraph, hor, not_or]
      tauto

end Unotu.Graph.Heap
