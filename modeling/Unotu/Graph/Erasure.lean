import Unotu.Graph.Operations

/-!
# Cutting and destroying erase edges everywhere

`Cut` looks the edge up in one endpoint and erases what it found from both. Where the
edge sets mirror each other, this is the erasure of the edge from every set of the heap.
A destructor runs while its own node no longer locks, so the mirror condition speaks
about the living endpoints only.
-/

set_option autoImplicit false

namespace Unotu.Graph.Heap

variable {ν ε : Type}

/-- Edges are recorded, held by their endpoints only, and held by every living endpoint
as soon as one of them holds them. -/
structure Mirrored (s : Heap ν ε) : Prop where
  recorded : ∀ {n e}, s.Holds n e →
    ∃ edge, s.edges e = some edge ∧ (edge.source = n ∨ edge.destination = n)
  source : ∀ {n e edge}, s.Holds n e → s.edges e = some edge →
    s.isLive edge.source → s.Holds edge.source e
  destination : ∀ {n e edge}, s.Holds n e → s.edges e = some edge →
    s.isLive edge.destination → s.Holds edge.destination e

def eraseEdges (s : Heap ν ε) (p : EdgeId → Bool) : Heap ν ε :=
  { s with nodes := fun n => (s.nodes n).mapLive fun node =>
      { node with edges := node.edges.filter fun e => !p e } }

@[simp] theorem eraseEdges_isLive (s : Heap ν ε) (p : EdgeId → Bool) (n : NodeId) :
    (s.eraseEdges p).isLive n = s.isLive n :=
  isLive_of_mapLive rfl

/-- Where the set of a node was filtered, the node holds what is left of it. -/
theorem holds_of_filter {s t : Heap ν ε} {n : NodeId} {e : EdgeId} {p : EdgeId → Bool}
    (hcell : t.nodes n = (s.nodes n).mapLive fun node =>
      { node with edges := node.edges.filter p }) :
    t.Holds n e ↔ s.Holds n e ∧ p e = true := by
  simp only [Holds, hcell, Cell.mapLive_eq_live]
  constructor
  · rintro ⟨_, ⟨old, h, rfl⟩, he⟩
    obtain ⟨he, hp⟩ := OrderedSet.mem_filter.mp he
    exact ⟨⟨old, h, he⟩, hp⟩
  · rintro ⟨⟨old, h, he⟩, hp⟩
    exact ⟨_, ⟨old, h, rfl⟩, OrderedSet.mem_filter.mpr ⟨he, hp⟩⟩

theorem mem_edgesOf_of_filter {s t : Heap ν ε} {n : NodeId} {e : EdgeId} {p : EdgeId → Bool}
    (hcell : t.nodes n = (s.nodes n).mapLive fun node =>
      { node with edges := node.edges.filter p }) (hn : s.isLive n) :
    e ∈ t.edgesOf n ↔ e ∈ s.edgesOf n ∧ p e = true := by
  obtain ⟨old, h⟩ := isLive_iff.mp hn
  rw [h, Cell.mapLive_live] at hcell
  rw [edgesOf_of_live hcell, edgesOf_of_live h, OrderedSet.mem_filter]

theorem holds_eraseEdges {s : Heap ν ε} {p : EdgeId → Bool} {n : NodeId} {e : EdgeId} :
    (s.eraseEdges p).Holds n e ↔ s.Holds n e ∧ p e = false := by
  rw [holds_of_filter rfl, Bool.not_eq_true']

theorem eraseEdges_eraseEdges (s : Heap ν ε) (p q : EdgeId → Bool) :
    (s.eraseEdges p).eraseEdges q = s.eraseEdges fun e => p e || q e := by
  simp only [eraseEdges, Cell.mapLive_mapLive, OrderedSet.filter_filter, Bool.not_or]

theorem eraseEdges_eq_self {s : Heap ν ε} {p : EdgeId → Bool}
    (h : ∀ n e, s.Holds n e → p e = false) : s.eraseEdges p = s := by
  have hnodes : ∀ n, ((s.nodes n).mapLive fun node =>
      { node with edges := node.edges.filter fun e => !p e }) = s.nodes n := by
    intro n
    rw [← Cell.mapLive_id (s.nodes n), Cell.mapLive_mapLive]
    apply Cell.mapLive_congr
    intro node hnode
    have hedges : (node.edges.filter fun e => !p e) = node.edges :=
      OrderedSet.filter_eq_self fun e he => by simp [h n e ⟨node, hnode, he⟩]
    rw [hedges]
  simp only [eraseEdges, hnodes]

theorem Mirrored.eraseEdges {s : Heap ν ε} (h : s.Mirrored) (p : EdgeId → Bool) :
    (s.eraseEdges p).Mirrored where
  recorded hn := h.recorded (holds_eraseEdges.mp hn).1
  source hn he hlive := by
    obtain ⟨hn, hp⟩ := holds_eraseEdges.mp hn
    rw [eraseEdges_isLive] at hlive
    exact holds_eraseEdges.mpr ⟨h.source hn he hlive, hp⟩
  destination hn he hlive := by
    obtain ⟨hn, hp⟩ := holds_eraseEdges.mp hn
    rw [eraseEdges_isLive] at hlive
    exact holds_eraseEdges.mpr ⟨h.destination hn he hlive, hp⟩

/-! ## `Cut` -/

theorem edgeFind_eq_some_iff {s : Heap ν ε} {n : NodeId} {e f : EdgeId} :
    s.edgeFind n e = some f ↔ f = e ∧ e ∈ s.edgesOf n := by
  unfold edgeFind
  constructor
  · intro h
    have heq : f = e := by simpa using List.find?_some h
    exact ⟨heq, heq ▸ List.mem_of_find?_eq_some h⟩
  · rintro ⟨rfl, h⟩
    cases hf : (s.edgesOf n).elems.find? fun SetEdge => decide (SetEdge = f) with
    | none =>
      have hne := List.find?_eq_none.mp hf f h
      simp at hne
    | some g =>
      have heq : g = f := by simpa using List.find?_some hf
      rw [heq]

theorem edgeFind_of_holds {s : Heap ν ε} {n : NodeId} {e : EdgeId} (h : s.Holds n e) :
    s.edgeFind n e = some e := by
  obtain ⟨node, hnode, he⟩ := h
  exact edgeFind_eq_some_iff.mpr ⟨rfl, by rwa [edgesOf_of_live hnode]⟩

theorem edgeFind_of_not_holds {s : Heap ν ε} {n : NodeId} {e : EdgeId}
    (hlive : s.isLive n) (h : ¬ s.Holds n e) : s.edgeFind n e = none := by
  obtain ⟨node, hnode⟩ := isLive_iff.mp hlive
  rw [Option.eq_none_iff_forall_not_mem]
  intro f hf
  have hmem := (edgeFind_eq_some_iff.mp hf).2
  rw [edgesOf_of_live hnode] at hmem
  exact h ⟨node, hnode, hmem⟩

@[simp] theorem eraseShared_none (s : Heap ν ε) (p : NodePtr) : s.eraseShared p none = s := by
  cases p <;> rfl

theorem eraseShared_nodes (s : Heap ν ε) (p : NodePtr) (e : EdgeId) (m : NodeId) :
    (s.eraseShared p (some e)).nodes m =
      if p = .obj m then (s.nodes m).mapLive fun node => { node with edges := node.edges.erase e }
      else s.nodes m := by
  cases p with
  | null => simp [eraseShared]
  | obj n =>
    by_cases hn : n = m
    · subst n
      simp [eraseShared, modifyNode]
    · simp [eraseShared, modifyNode, hn, Function.update_of_ne (Ne.symm hn)]

theorem mapLive_erase_of_not_holds {s : Heap ν ε} {m : NodeId} {e : EdgeId}
    (h : ¬ s.Holds m e) :
    ((s.nodes m).mapLive fun node => { node with edges := node.edges.erase e }) = s.nodes m := by
  conv_rhs => rw [← Cell.mapLive_id (s.nodes m)]
  apply Cell.mapLive_congr
  intro node hnode
  rw [OrderedSet.erase_of_notMem fun he => h ⟨node, hnode, he⟩]

theorem lock_cases (s : Heap ν ε) (n : NodeId) :
    (s.lock n = .null ∧ s.isLive n = false) ∨ (s.lock n = .obj n ∧ s.isLive n = true) := by
  unfold isLive lock
  cases s.nodes n <;> simp

theorem Mirrored.cut_found {s : Heap ν ε} (h : s.Mirrored) {n : NodeId} {e : EdgeId}
    (hn : s.Holds n e) {edge : GraphEdge ε} (he : s.edges e = some edge) :
    s.cut e = (s.eraseShared (s.lock edge.source) (some e)).eraseShared
      (s.lock edge.destination) (some e) := by
  have hlive : s.isLive n := isLive_iff.mpr (hn.imp fun _ hnode => hnode.1)
  obtain ⟨edge', he', hends⟩ := h.recorded hn
  obtain rfl : edge' = edge := Option.some.inj (he'.symm.trans he)
  simp only [cut, he]
  rcases lock_cases s edge'.source with ⟨hs, hsl⟩ | ⟨hs, hsl⟩
  · rcases lock_cases s edge'.destination with ⟨hd, hdl⟩ | ⟨hd, hdl⟩
    · rcases hends with hend | hend
      · simp [← hend, hsl] at hlive
      · simp [← hend, hdl] at hlive
    · simp only [hs, hd, edgeFind_of_holds (h.destination hn he hdl)]
  · simp only [hs, edgeFind_of_holds (h.source hn he hsl)]

theorem Mirrored.cut_absent {s : Heap ν ε} {e : EdgeId} (hn : ∀ n, ¬ s.Holds n e) :
    s.cut e = s := by
  unfold cut
  cases he : s.edges e with
  | none => rfl
  | some edge =>
    simp only
    rcases lock_cases s edge.source with ⟨hs, hsl⟩ | ⟨hs, hsl⟩
    · rcases lock_cases s edge.destination with ⟨hd, hdl⟩ | ⟨hd, hdl⟩
      · simp only [hs, hd, eraseShared_none]
      · simp only [hs, hd, edgeFind_of_not_holds hdl (hn _), eraseShared_none]
    · simp only [hs, edgeFind_of_not_holds hsl (hn _), eraseShared_none]

/-- `Cut` erases the edge from every set of the heap, from whichever state of cutting. -/
theorem Mirrored.cut_eq {s : Heap ν ε} (h : s.Mirrored) (e : EdgeId) :
    s.cut e = s.eraseEdges fun f => decide (f = e) := by
  by_cases hex : ∃ n, s.Holds n e
  · obtain ⟨n, hn⟩ := hex
    obtain ⟨edge, he, -⟩ := h.recorded hn
    rw [h.cut_found hn he]
    have hnodes : ∀ m, ((s.eraseShared (s.lock edge.source) (some e)).eraseShared
        (s.lock edge.destination) (some e)).nodes m =
        (s.nodes m).mapLive fun node => { node with edges := node.edges.erase e } := by
      intro m
      simp only [eraseShared_nodes]
      -- An endpoint may be met twice, by a self-connection; a bystander holds nothing.
      by_cases hm : s.Holds m e
      · obtain ⟨edge', he', hends⟩ := h.recorded hm
        obtain rfl : edge' = edge := Option.some.inj (he'.symm.trans he)
        obtain ⟨node, hnode, -⟩ := hm
        rcases hends with hend | hend <;>
          split <;> split <;>
            simp_all [lock_of_live, OrderedSet.erase, OrderedSet.filter_filter]
      · have hkeep := mapLive_erase_of_not_holds hm
        split <;> split <;> simp only [hkeep]
    have hframe : ∀ (t : Heap ν ε) (p q : NodePtr), (t.eraseShared p (some e)).eraseShared q
        (some e) = { t with
          nodes := ((t.eraseShared p (some e)).eraseShared q (some e)).nodes } := by
      intro t p q
      cases p <;> cases q <;> rfl
    rw [hframe]
    simp [Heap.eraseEdges, funext hnodes, OrderedSet.erase]
  · have hnone : ∀ n, ¬ s.Holds n e := fun n hn => hex ⟨n, hn⟩
    rw [Mirrored.cut_absent hnone, eraseEdges_eq_self]
    intro n f hf
    have hne : f ≠ e := by
      rintro rfl
      exact hnone n hf
    simp [hne]

theorem Mirrored.foldl_cut_eq {s : Heap ν ε} (h : s.Mirrored) (es : List EdgeId) :
    es.foldl cut s = s.eraseEdges fun f => decide (f ∈ es) := by
  induction es generalizing s with
  | nil => simp [eraseEdges_eq_self]
  | cons e es ih =>
    rw [List.foldl_cons, h.cut_eq, ih (h.eraseEdges _), eraseEdges_eraseEdges]
    simp [Bool.decide_or]

/-! ## The destructor -/

/-- The heap in which `n` has expired and nobody holds an edge that `n` held. -/
def withoutNode (s : Heap ν ε) (n : NodeId) : Heap ν ε :=
  { s with nodes := fun m => if m = n then .expired else
      (s.nodes m).mapLive fun node =>
        { node with edges := node.edges.filter fun e => !decide (e ∈ s.edgesOf n) } }

theorem holds_dying {s : Heap ν ε} {n m : NodeId} {e : EdgeId} {node : GraphNode ν} :
    ({ s with nodes := Function.update s.nodes n (.dying node) }).Holds m e ↔
      m ≠ n ∧ s.Holds m e := by
  by_cases hm : m = n
  · subst m
    simp [Holds]
  · simp [Holds, hm]

theorem isLive_dying {s : Heap ν ε} {n m : NodeId} {node : GraphNode ν} :
    ({ s with nodes := Function.update s.nodes n (.dying node) }).isLive m = true ↔
      m ≠ n ∧ s.isLive m = true := by
  by_cases hm : m = n
  · subst m
    simp [isLive_iff]
  · simp [isLive_iff, hm]

theorem Mirrored.dying {s : Heap ν ε} (h : s.Mirrored) (n : NodeId) (node : GraphNode ν) :
    ({ s with nodes := Function.update s.nodes n (.dying node) }).Mirrored where
  recorded hm := h.recorded (holds_dying.mp hm).2
  source hm he hlive := by
    obtain ⟨hne, hlive⟩ := isLive_dying.mp hlive
    exact holds_dying.mpr ⟨hne, h.source (holds_dying.mp hm).2 he hlive⟩
  destination hm he hlive := by
    obtain ⟨hne, hlive⟩ := isLive_dying.mp hlive
    exact holds_dying.mpr ⟨hne, h.destination (holds_dying.mp hm).2 he hlive⟩

theorem Mirrored.destroyNode_eq {s : Heap ν ε} (h : s.Mirrored) {n : NodeId}
    (hlive : s.isLive n) : s.destroyNode n = s.withoutNode n := by
  obtain ⟨node, hnode⟩ := isLive_iff.mp hlive
  simp only [destroyNode, hnode, (h.dying n node).foldl_cut_eq, withoutNode,
    edgesOf_of_live hnode, Heap.eraseEdges, OrderedSet.mem_elems, Heap.mk.injEq, and_self, and_true]
  funext m
  by_cases hm : m = n
  · subst m
    simp
  · simp [hm]

theorem destroyNode_of_not_live {s : Heap ν ε} {n : NodeId} (h : ¬ s.isLive n) :
    s.destroyNode n = s := by
  unfold destroyNode
  split
  · rename_i node hnode
    exact absurd (isLive_iff.mpr ⟨node, hnode⟩) h
  · rfl

theorem nodes_withoutNode {s : Heap ν ε} {n m : NodeId} (hm : m ≠ n) :
    (s.withoutNode n).nodes m = (s.nodes m).mapLive fun node =>
      { node with edges := node.edges.filter fun e => !decide (e ∈ s.edgesOf n) } :=
  if_neg hm

theorem holds_withoutNode {s : Heap ν ε} {n m : NodeId} {e : EdgeId} :
    (s.withoutNode n).Holds m e ↔ m ≠ n ∧ s.Holds m e ∧ e ∉ s.edgesOf n := by
  by_cases hm : m = n
  · simp [Holds, withoutNode, hm]
  · rw [holds_of_filter (nodes_withoutNode hm)]
    simp [hm]

theorem isLive_withoutNode {s : Heap ν ε} {n m : NodeId} :
    (s.withoutNode n).isLive m = true ↔ m ≠ n ∧ s.isLive m = true := by
  by_cases hm : m = n
  · simp [isLive_iff, withoutNode, hm]
  · rw [isLive_of_mapLive (nodes_withoutNode hm)]
    simp [hm]

/-- A release changes nothing, or takes away a living node that nobody owns. -/
theorem Mirrored.release_cases {s : Heap ν ε} (h : s.Mirrored) (n : NodeId) :
    (s.release n = s ∧ (s.isLive n → s.owned n = true)) ∨
      (s.release n = s.withoutNode n ∧ s.isLive n ∧ s.owned n = false) := by
  cases hown : s.owned n with
  | true => exact Or.inl ⟨by simp [release, hown], fun _ => rfl⟩
  | false =>
    have hrelease : s.release n = s.destroyNode n := by simp [release, hown]
    rw [hrelease]
    by_cases hn : s.isLive n
    · exact Or.inr ⟨h.destroyNode_eq hn, hn, rfl⟩
    · exact Or.inl ⟨destroyNode_of_not_live hn, fun hlive => absurd hlive hn⟩

end Unotu.Graph.Heap
