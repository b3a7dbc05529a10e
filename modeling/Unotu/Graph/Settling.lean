import Unotu.Graph.Soundness

/-!
# Calls that keep the members of a graph

`NodeAdd`, `ConnectTo` and the end of a caller's pointer create no node, and no member of the
graph leaves it. A caller that creates a node, adds it and lets go of it gives the graph one
more member.
-/

set_option autoImplicit false

namespace Unotu.Graph.Heap

variable {ν ε : Type} {s t : Heap ν ε}

/-- No node is created and no node leaves `g`. -/
structure Settles (s t : Heap ν ε) (g : GraphId) : Prop where
  sound : t.Sound
  live : ∀ n, t.isLive n → s.isLive n
  inGraph : ∀ n, s.InGraph n g → t.InGraph n g

theorem Settles.refl (h : s.Sound) (g : GraphId) : s.Settles s g := ⟨h, fun _ => id, fun _ => id⟩

theorem nodeAdd_settles (h : s.Sound) (g : GraphId) (n : NodeId) :
    ∃ t, s.step (.nodeAdd g n) = .ok t ∧ s.Settles t g ∧
      (g ∈ s.graphs → s.isLive n → t.InGraph n g) := by
  by_cases hc : g ∈ s.graphs ∧ s.isLive n
  · obtain ⟨hp, M, hrep⟩ := h
    obtain ⟨t, hadd, hp', hrep', hin⟩ := nodeAdd_spec hrep hp hc.1 hc.2
    refine ⟨t, by rw [step, if_pos hc, hadd], ⟨⟨hp', M, hrep'⟩, ?_, ?_⟩, ?_⟩
    · intro m hm
      exact (hrep.nodes m).mpr ((hrep'.nodes m).mp hm)
    · intro m hm
      rw [hin]
      split
      · rfl
      · exact hm
    · intro _ _
      rw [hin, if_pos rfl]
  · exact ⟨s, if_neg hc, .refl h g, fun hg hn => absurd ⟨hg, hn⟩ hc⟩

theorem connectTo_settles (h : s.Sound) (g : GraphId) (this : NodeId) (Destination : NodePtr)
    (Data : ε) (e : EdgeId) :
    ∃ t, s.step (.connectTo this Destination Data e) = .ok t ∧ s.Settles t g := by
  obtain ⟨hp, M, hrep⟩ := id h
  by_cases hc : s.isLive this ∧ s.canPass Destination ∧ s.edges e = none
  · rw [step, if_pos hc]
    rcases connectTo_cases hp hc.1 hc.2.1 Data e with ⟨heq, -⟩ | ⟨d, g', rfl, hin, hind, heq⟩
    · exact ⟨s, by rw [heq]; rfl, .refl h g⟩
    · have hthis := (hrep.nodes this).mp hc.1
      have hd := (hrep.nodes d).mp hind.isLive
      obtain ⟨-, hrep'⟩ := addEdge_represents hrep Data hthis hd hc.2.2
      refine ⟨_, by rw [heq]; rfl, ⟨addEdge_placed hp _ _ _ _, _, hrep'⟩, ?_, ?_⟩
      · intro m hm
        exact (hrep.nodes m).mpr ((hrep'.nodes m).mp hm)
      · intro m hm
        exact inGraph_addEdge.mpr hm
  · exact ⟨s, if_neg hc, .refl h g⟩

/-- The last pointer of a caller goes away; a member of `g` is still owned by `g`. -/
theorem dropNode_settles (h : s.Sound) (g : GraphId) (n : NodeId) :
    ∃ t, s.step (.dropNode n) = .ok t ∧ s.Settles t g := by
  refine ⟨s.dropNode n, rfl, ?_⟩
  obtain ⟨t, ht, hsound⟩ := step_sound h (.dropNode n)
  obtain rfl : s.dropNode n = t := Except.ok.inj ht
  obtain ⟨hp, M, hrep⟩ := h
  refine ⟨hsound, ?_, ?_⟩
  · intro m hm
    unfold dropNode at hm
    split at hm
    · rcases (hrep.setHeld n false).mirrored.release_cases n with ⟨hsame, -⟩ | ⟨hgone, -⟩
      · rwa [hsame] at hm
      · rw [hgone, isLive_withoutNode] at hm
        exact hm.2
    · exact hm
  · intro m hm
    unfold dropNode
    split
    · have hheld := hp.setHeld n false
      rcases (hrep.setHeld n false).mirrored.release_cases n with ⟨hsame, -⟩ | ⟨hgone, -, hown⟩
      · rwa [hsame]
      · rw [hgone, inGraph_withoutNode]
        refine ⟨?_, hm⟩
        intro heq
        subst m
        exact hheld.notMem_of_not_owned hown g ((hheld.member g n).mpr hm)
    · exact hm

/-- `n` is a new member of `g` without edges, and all edges are where they were. -/
structure Gains (s t : Heap ν ε) (g : GraphId) (n : NodeId) : Prop where
  fresh : n ∉ s.graphNodes g
  nodes : t.graphNodes g = (s.graphNodes g).insert n
  member : t.InGraph n g
  unconnected : t.edgesOf n = ∅
  edges : ∀ m, m ≠ n → t.edgesOf m = s.edgesOf m

/-- A node that its creator adds to `g` and then lets go of. -/
theorem makeMember_gains (h : s.Sound) {g : GraphId} (hg : g ∈ s.graphs) {n : NodeId}
    (hunused : s.nodes n = .unused) (Data : ν) :
    ∃ t u, (s.makeNode n Data).step (.nodeAdd g n) = .ok t ∧ t.step (.dropNode n) = .ok u ∧
      s.Gains u g n := by
  have hcell : (s.makeNode n Data).nodes n = .live { data := Data } := by
    simp [makeNode, hunused]
  have hgraphs : (s.makeNode n Data).graphs = s.graphs := by simp [makeNode, hunused]
  have hnodes : (s.makeNode n Data).graphNodes = s.graphNodes := by simp [makeNode, hunused]
  have hlive : (s.makeNode n Data).isLive n := isLive_iff.mpr ⟨_, hcell⟩
  have hadd : (s.makeNode n Data).step (.nodeAdd g n) = .ok ((s.makeNode n Data).enterGraph g n) := by
    rw [step, if_pos ⟨hgraphs ▸ hg, hlive⟩]
    simp [nodeAdd, parentGraphOf_of_live hcell]
  have hentered : ((s.makeNode n Data).enterGraph g n).nodes n =
      .live { data := Data, parentGraph := some g } := by
    simp [enterGraph, modifyNode_nodes, setGraphNodes, hcell]
  have hset : ((s.makeNode n Data).enterGraph g n).graphNodes g = (s.graphNodes g).insert n := by
    rw [← hnodes]
    exact Function.update_self ..
  have hfresh : ∀ g', n ∉ s.graphNodes g' := by
    intro g' hmem
    obtain ⟨node, hnode, -⟩ := (h.1.member g' n).mp hmem
    rw [hunused] at hnode
    cases hnode
  -- the graph owns the node now
  have howned : (((s.makeNode n Data).enterGraph g n).setHeld n false).owned n = true := by
    refine owned_of_mem (g := g) ?_ ?_
    · exact hgraphs ▸ hg
    · change n ∈ ((s.makeNode n Data).enterGraph g n).graphNodes g
      rw [hset]
      exact OrderedSet.mem_insert.mpr (Or.inl rfl)
  have hdrop : ((s.makeNode n Data).enterGraph g n).step (.dropNode n) =
      .ok (((s.makeNode n Data).enterGraph g n).setHeld n false) := by
    rw [step, dropNode, if_pos (isLive_iff.mpr ⟨_, hentered⟩), release, howned, if_pos rfl]
  refine ⟨_, _, hadd, hdrop, hfresh g, hset, ⟨_, hentered, rfl⟩, edgesOf_of_live hentered, ?_⟩
  intro m hm
  have hold : ((s.makeNode n Data).enterGraph g n).nodes m = s.nodes m := by
    simp [enterGraph, modifyNode_nodes, setGraphNodes, makeNode, hunused, hm]
  change edgesOf ((s.makeNode n Data).enterGraph g n) m = _
  rw [edgesOf, hold, edgesOf]

end Unotu.Graph.Heap
