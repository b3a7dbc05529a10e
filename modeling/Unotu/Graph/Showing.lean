import Unotu.Graph.Store
import Unotu.Graph.Sweeping

/-!
# The heap shows the store

Each call leads from a heap that shows a store to a heap that shows the store after the call,
and answers what the store answers.
-/

set_option autoImplicit false

namespace Unotu.Graph

variable {ν ε : Type}

namespace Heap

open Multigraph

variable {s t : Heap ν ε} {o : Store ν}

/-! ## What a heap shows -/

/-- The heap keeps twice, counts or points to what the store says once. -/
structure Shows (s : Heap ν ε) (o : Store ν) : Prop where
  represents : s.Represents o.graph
  placed : s.Placed
  home : ∀ n g, s.InGraph n g ↔ o.home n = some g
  groups : ∀ g, g ∈ s.graphs ↔ g ∈ o.groups
  held : ∀ n, s.held n = true ↔ n ∈ o.held
  used : ∀ n, s.nodes n = .unused ↔ n ∉ o.usedNodes
  ends : ∀ e, o.ends e = (s.edges e).map fun edge => (edge.source, edge.destination)
  datum : ∀ n node, s.nodes n = .live node → o.datum n = some node.data

namespace Shows

theorem isLive (h : s.Shows o) (n : NodeId) : s.isLive n ↔ n ∈ o.graph.nodes := h.represents.nodes n

theorem mem_graphNodes (h : s.Shows o) (g : GraphId) (n : NodeId) :
    n ∈ s.graphNodes g ↔ o.home n = some g := by
  rw [h.placed.member, h.home]

theorem parentGraphOf (h : s.Shows o) {n : NodeId} (hn : s.isLive n) :
    s.parentGraphOf n = o.home n := by
  apply Option.ext
  intro g
  rw [← h.home, inGraph_iff]
  exact (and_iff_right hn).symm

theorem edges_eq_none (h : s.Shows o) (e : EdgeId) : s.edges e = none ↔ o.ends e = none := by
  rw [h.ends, Option.map_eq_none_iff]

/-- The heap changes neither which nodes there are nor what they hold. -/
theorem congr (h : s.Shows o) (hrep : t.Represents o.graph) (hin : ∀ n g, t.InGraph n g ↔ s.InGraph n g)
    (hnodes : t.graphNodes = s.graphNodes) (hgraphs : t.graphs = s.graphs) (hheld : t.held = s.held)
    (hcells : KeepsCells s t) : t.Shows o where
  represents := hrep
  placed := h.placed.congr hin hnodes hgraphs
  home n g := (hin n g).trans (h.home n g)
  groups g := by
    rw [hgraphs]
    exact h.groups g
  held n := by
    rw [hheld]
    exact h.held n
  used n := (hcells.unused n).trans (h.used n)
  ends e := by
    rw [hcells.edges]
    exact h.ends e
  datum n node hnode := by
    obtain ⟨old, hold, heq⟩ := hcells.data n node hnode
    rw [heq]
    exact h.datum n old hold

/-- Owners give nodes up and these are released, in any order and with any others. -/
theorem settle (h : s.Shows o) (ns : List NodeId) (hrep : t.Represents o.graph)
    (hcells : KeepsCells s t)
    {groups : Set GraphId} {home : NodeId → Option GraphId} {held : Set NodeId}
    {hhome : ∀ n g, home n = some g → o.home n = some g ∧ g ∈ groups} {hheld : ∀ n ∈ held, n ∈ o.held}
    (hgroups' : ∀ g, g ∈ t.graphs ↔ g ∈ groups) (hheld' : ∀ n, t.held n = true ↔ n ∈ held)
    (hmem : ∀ g n, n ∈ t.graphNodes g ↔ home n = some g)
    (hlost : ∀ n ∈ o.graph.nodes, n ∉ held → home n = none → n ∈ ns)
    (hkept : ∀ n g, home n = some g → t.InGraph n g)
    (hin : ∀ n g, t.InGraph n g → home n = some g ∨ n ∈ ns ∧ n ∉ held ∧ home n = none) :
    (ns.foldl release t).Shows (o.settle groups home held hhome hheld) := by
  have hswept := hrep.foldl_release_swept ns
  have hown : ∀ n, t.owned n = false ↔ n ∉ held ∧ home n = none := by
    intro n
    rw [← Bool.not_eq_true, Heap.owned, Bool.or_eq_true, hheld', List.any_eq_true, not_or]
    refine and_congr_right fun _ => ?_
    rw [Option.eq_none_iff_forall_ne_some]
    constructor
    · intro hnone g hg
      refine hnone ⟨g, (hgroups' g).mpr (hhome n g hg).2, ?_⟩
      simpa using (hmem g n).mpr hg
    · rintro hnone ⟨g, -, hg⟩
      exact hnone g ((hmem g n).mp (by simpa using hg))
  have hstay : ∀ n g, (ns.foldl release t).InGraph n g ↔ home n = some g := by
    intro n g
    rw [hswept.inGraph, hown]
    constructor
    · rintro ⟨hnot, hng⟩
      exact (hin n g hng).resolve_right hnot
    · intro hng
      refine ⟨?_, hkept n g hng⟩
      rintro ⟨-, -, hnone⟩
      rw [hng] at hnone
      cases hnone
  have hcells' := hcells.trans hswept.cells
  refine ⟨?_, ⟨?_, ?_⟩, hstay, ?_, ?_, ?_, ?_, ?_⟩
  · have hsame : o.graph.removeNodes {n | n ∈ ns ∧ t.owned n = false} =
        o.graph.removeNodes {n | n ∉ held ∧ home n = none} := by
      apply removeNodes_congr
      intro n hn
      change n ∈ ns ∧ t.owned n = false ↔ n ∉ held ∧ home n = none
      rw [hown]
      exact and_iff_right_of_imp fun hnot => hlost n hn hnot.1 hnot.2
    change (ns.foldl release t).Represents (o.graph.removeNodes {n | n ∉ held ∧ home n = none})
    rw [← hsame]
    exact hswept.represents
  · intro g n
    rw [hswept.graphNodes, hmem, hstay]
  · intro g n hn
    rw [hswept.graphNodes, hmem] at hn
    rw [hswept.graphs]
    exact (hgroups' g).mpr (hhome n g hn).2
  · intro g
    rw [hswept.graphs]
    exact hgroups' g
  · intro n
    rw [hswept.held]
    exact hheld' n
  · exact fun n => (hcells'.unused n).trans (h.used n)
  · intro e
    rw [hcells'.edges]
    exact h.ends e
  · intro n node hnode
    obtain ⟨old, hold, heq⟩ := hcells'.data n node hnode
    rw [heq]
    exact h.datum n old hold

end Shows

/-! ## The calls that change the heap -/

namespace Shows

/-- No owner has given anything up. -/
theorem settle_self (h : s.Shows o) {home : NodeId → Option GraphId} {held : Set NodeId}
    {groups : Set GraphId} {hhome : ∀ n g, home n = some g → o.home n = some g ∧ g ∈ groups}
    {hheld : ∀ n ∈ held, n ∈ o.held} (hgroups' : ∀ g ∈ o.groups, g ∈ groups)
    (hsub : ∀ g ∈ groups, g ∈ o.groups) (hhome' : ∀ n g, o.home n = some g → home n = some g)
    (hheld' : ∀ n ∈ o.held, n ∈ held) : s.Shows (o.settle groups home held hhome hheld) := by
  have hiff : ∀ n g, o.home n = some g ↔ home n = some g :=
    fun n g => ⟨hhome' n g, fun hg => (hhome n g hg).1⟩
  refine h.settle [] (t := s) h.represents (.refl s) ?_ ?_ ?_ ?_ ?_ ?_
  · exact fun g => (h.groups g).trans ⟨hgroups' g, hsub g⟩
  · exact fun n => (h.held n).trans ⟨hheld' n, hheld n⟩
  · exact fun g n => (h.mem_graphNodes g n).trans (hiff n g)
  · intro n hn hnot hnone
    rcases o.owned n hn with hold | hold
    · exact absurd (hheld' n hold) hnot
    · obtain ⟨g, hg⟩ := Option.ne_none_iff_exists'.mp hold
      rw [hhome' n g hg] at hnone
      cases hnone
  · exact fun n g hg => (h.home n g).mpr ((hiff n g).mpr hg)
  · exact fun n g hin => Or.inl ((hiff n g).mp ((h.home n g).mp hin))

theorem makeGraph (h : s.Shows o) (g : GraphId) : (s.makeGraph g).Shows (o.addGroup g) := by
  have hframe : (s.makeGraph g).held = s.held ∧ KeepsCells s (s.makeGraph g) ∧
      ∀ g', g' ∈ (s.makeGraph g).graphs ↔ g' = g ∨ g' ∈ s.graphs := by
    unfold Heap.makeGraph
    split
    · rename_i hg
      refine ⟨rfl, .refl s, fun g' => ⟨Or.inr, ?_⟩⟩
      rintro (rfl | hg')
      · exact hg
      · exact hg'
    · exact ⟨rfl, .of_nodes rfl rfl, fun g' => OrderedSet.mem_insert⟩
  obtain ⟨hheld, hcells, hgraphs⟩ := hframe
  refine ⟨makeGraph_represents h.represents g, makeGraph_placed h.placed g, ?_, ?_, ?_, ?_, ?_, ?_⟩
  · exact fun n g' => (inGraph_makeGraph g n g').trans (h.home n g')
  · intro g'
    rw [hgraphs, h.groups]
    exact Iff.rfl
  · intro n
    rw [hheld]
    exact h.held n
  · exact fun n => (hcells.unused n).trans (h.used n)
  · intro e
    rw [hcells.edges]
    exact h.ends e
  · intro n node hnode
    obtain ⟨old, hold, heq⟩ := hcells.data n node hnode
    rw [heq]
    exact h.datum n old hold

theorem makeNode (h : s.Shows o) (n : NodeId) (Data : ν) :
    (s.makeNode n Data).Shows (o.addNode n Data) := by
  by_cases hunused : s.nodes n = .unused
  · have hnew : n ∉ o.usedNodes := (h.used n).mp hunused
    simp only [OwnedGraph.addNode, dif_neg hnew]
    refine ⟨makeNode_represents h.represents hunused Data, makeNode_placed h.placed hunused Data,
      ?_, ?_, ?_, ?_, ?_, ?_⟩
    · exact fun m g => (inGraph_makeNode hunused Data m g).trans (h.home m g)
    · simpa [Heap.makeNode, hunused] using h.groups
    · intro m
      by_cases hm : m = n
      · simp [Heap.makeNode, hunused, hm]
      · simpa [Heap.makeNode, hunused, hm] using h.held m
    · intro m
      by_cases hm : m = n
      · simp [Heap.makeNode, hunused, hm]
      · simpa [Heap.makeNode, hunused, hm] using h.used m
    · simpa [Heap.makeNode, hunused] using h.ends
    · intro m node hnode
      by_cases hm : m = n
      · subst m
        simp only [Heap.makeNode, hunused, Function.update_self, Cell.live.injEq] at hnode ⊢
        rw [← hnode]
      · simp only [Heap.makeNode, hunused, Function.update_of_ne hm] at hnode
        change Function.update o.datum n (some Data) m = some node.data
        rw [Function.update_of_ne hm]
        exact h.datum m node hnode
  · have hused : n ∈ o.usedNodes := by
      by_contra hnot
      exact hunused ((h.used n).mpr hnot)
    rw [makeNode_of_used hunused, OwnedGraph.addNode, dif_pos hused]
    exact h

theorem holdNode (h : s.Shows o) (n : NodeId) : (s.holdNode n).Shows (o.hold n) := by
  unfold Heap.holdNode OwnedGraph.hold
  by_cases hn : s.isLive n
  · rw [if_pos hn, dif_pos ((h.isLive n).mp hn)]
    refine ⟨h.represents.setHeld n true, h.placed.setHeld n true, h.home, h.groups, ?_, h.used,
      h.ends, h.datum⟩
    intro m
    by_cases hm : m = n
    · simp [Heap.setHeld, hm]
    · simpa [Heap.setHeld, hm] using h.held m
  · rw [if_neg hn, dif_neg fun hmem => hn ((h.isLive n).mpr hmem)]
    exact h

theorem dropNode (h : s.Shows o) (n : NodeId) : (s.dropNode n).Shows (o.drop n) := by
  unfold Heap.dropNode OwnedGraph.drop
  by_cases hn : s.isLive n
  · rw [if_pos hn]
    apply h.settle [n] (h.represents.setHeld n false) (.of_nodes rfl rfl)
    · exact h.groups
    · intro m
      by_cases hm : m = n
      · simp [Heap.setHeld, hm]
      · simpa [Heap.setHeld, hm] using h.held m
    · exact h.mem_graphNodes
    · intro m hm hnot hnone
      rcases o.owned m hm with hheld | hhome
      · by_contra hne
        exact hnot ⟨hheld, fun heq => hne (List.mem_singleton.mpr heq)⟩
      · exact absurd hnone hhome
    · exact fun m g hg => (h.home m g).mpr hg
    · exact fun m g hin => Or.inl ((h.home m g).mp hin)
  · rw [if_neg hn]
    apply h.settle_self (fun _ hg => hg) (fun _ hg => hg) (fun _ _ hg => hg)
    intro m hm
    refine ⟨hm, ?_⟩
    rintro rfl
    exact hn ((h.isLive m).mpr (o.held_mem m hm))

/-- A member leaves the sets of its graph and of itself at once. -/
theorem inGraph_nodeRemove (h : s.Shows o) (g : GraphId) (n m : NodeId) (g' : GraphId) :
    (s.nodeRemove g (.obj n)).InGraph m g' ↔ o.home m = some g' ∧ ¬ (o.home m = some g ∧ m = n) := by
  unfold Heap.nodeRemove
  simp only
  split
  · rename_i hmem
    rw [h.mem_graphNodes] at hmem
    rw [inGraph_clearParent]
    change m ≠ n ∧ s.InGraph m g' ↔ _
    rw [h.home, and_comm]
    refine and_congr_right fun _ => not_congr ?_
    constructor
    · rintro rfl
      exact ⟨hmem, rfl⟩
    · exact And.right
  · rename_i hmem
    rw [h.mem_graphNodes] at hmem
    rw [h.home]
    refine (and_iff_left ?_).symm
    rintro ⟨hm, rfl⟩
    exact hmem hm

theorem nodeAdd_frame {g : GraphId} {n : NodeId} (hg : g ∈ s.graphs) (hn : s.isLive n)
    (ht : s.nodeAdd g n = .ok t) : t.graphs = s.graphs ∧ t.held = s.held ∧ KeepsCells s t := by
  cases nodeAdd_effect hg hn ht with
  | nothing => exact ⟨rfl, rfl, .refl s⟩
  | enter _ _ _ => exact ⟨rfl, rfl, .enterGraph s g n⟩
  | @move _ g₀ _ _ _ _ _ =>
    obtain ⟨hgraphs, hheld⟩ := nodeRemove_frame s g₀ (.obj n)
    exact ⟨hgraphs, hheld, (KeepsCells.nodeRemove s g₀ (.obj n)).trans (.enterGraph _ g n)⟩

theorem nodeAdd (h : s.Shows o) (g : GraphId) (n : NodeId) :
    ∃ t, s.step (.nodeAdd g n) = .ok t ∧ t.Shows (o.enter g n) := by
  unfold OwnedGraph.enter
  by_cases hc : g ∈ s.graphs ∧ s.isLive n
  · obtain ⟨t, ht, hplaced, hrep, hin⟩ := nodeAdd_spec h.represents h.placed hc.1 hc.2
    obtain ⟨hgraphs, hheld, hcells⟩ := nodeAdd_frame hc.1 hc.2 ht
    refine ⟨t, by simp [step, hc, ht], ?_⟩
    rw [dif_pos ⟨(h.groups g).mp hc.1, (h.isLive n).mp hc.2⟩]
    refine ⟨hrep, hplaced, ?_, ?_, ?_, fun m => (hcells.unused m).trans (h.used m), ?_, ?_⟩
    · intro m g'
      rw [hin]
      change _ ↔ Function.update o.home n (some g) m = some g'
      by_cases hm : m = n
      · subst m
        rw [if_pos rfl, Function.update_self, Option.some.injEq]
        exact eq_comm
      · rw [if_neg hm, Function.update_of_ne hm]
        exact h.home m g'
    · rw [hgraphs]
      exact h.groups
    · rw [hheld]
      exact h.held
    · rw [hcells.edges]
      exact h.ends
    · intro m node hnode
      obtain ⟨old, hold, heq⟩ := hcells.data m node hnode
      rw [heq]
      exact h.datum m old hold
  · refine ⟨s, if_neg hc, ?_⟩
    rw [dif_neg fun hgn => hc ⟨(h.groups g).mpr hgn.1, (h.isLive n).mpr hgn.2⟩]
    exact h

/-- What a node that lost its last owner lost was its graph. -/
theorem mem_of_homeAfter (o : Store ν) {g : GraphId} {S : Set NodeId} {m : NodeId}
    (hm : m ∈ o.graph.nodes) (hnot : m ∉ o.held) (hnone : o.homeAfter g S m = none) :
    o.home m = some g ∧ m ∈ S := by
  rcases o.homeAfter_eq_none.mp hnone with hhome | hmem
  · rcases o.owned m hm with hheld | hsome
    · exact absurd hheld hnot
    · exact absurd hhome hsome
  · exact hmem

/-- A graph that has none of the nodes gives none up. -/
theorem homeAfter_of_none (o : Store ν) {g : GraphId} {S : Set NodeId}
    (hnone : ∀ m ∈ S, o.home m ≠ some g) (m : NodeId) (g' : GraphId) (hm : o.home m = some g') :
    o.homeAfter g S m = some g' :=
  o.homeAfter_eq_some.mpr ⟨hm, fun hmg => hnone m hmg.2 hmg.1⟩

theorem nodeRemove (h : s.Shows o) (g : GraphId) (n : NodeId) :
    ∃ t, s.step (.nodeRemove g n) = .ok t ∧ t.Shows (o.leave g {n}) := by
  refine ⟨_, rfl, ?_⟩
  unfold OwnedGraph.leave
  split
  · obtain ⟨hgraphs, hheld⟩ := nodeRemove_frame s g (.obj n)
    have hin : ∀ m g', (s.nodeRemove g (.obj n)).InGraph m g' ↔ o.homeAfter g {n} m = some g' := by
      intro m g'
      rw [h.inGraph_nodeRemove, o.homeAfter_eq_some]
      exact Iff.rfl
    apply h.settle [n] (h.represents.nodeRemove g _) (.nodeRemove s g _)
    · rw [hgraphs]
      exact h.groups
    · rw [hheld]
      exact h.held
    · intro g' m
      rw [(h.placed.nodeRemove g _).member, hin]
    · intro m hm hnot hnone
      exact List.mem_singleton.mpr (mem_of_homeAfter o hm hnot hnone).2
    · exact fun m g' hg' => (hin m g').mpr hg'
    · exact fun m g' hmg => Or.inl ((hin m g').mp hmg)
  · rename_i hc
    apply h.settle_self (fun _ hg => hg) (fun _ hg => hg)
    · apply homeAfter_of_none
      rintro _ rfl hmg
      obtain ⟨hlive, hgroup⟩ := o.home_mem _ g hmg
      exact hc ⟨(h.groups g).mpr hgroup, (h.isLive _).mpr hlive⟩
    · exact fun _ hm => hm

theorem nodeRemoveAll (h : s.Shows o) (g : GraphId) :
    ∃ t, s.step (.nodeRemoveAll g) = .ok t ∧ t.Shows (o.leave g Set.univ) := by
  refine ⟨_, rfl, ?_⟩
  unfold OwnedGraph.leave
  split
  · have hfold := foldl_clearParent_graphNodes (s := s) (s.graphNodes g).elems
    have hin : ∀ m g', (s.detachAll g).InGraph m g' ↔ o.homeAfter g Set.univ m = some g' := by
      intro m g'
      rw [inGraph_detachAll, o.homeAfter_eq_some, h.home, h.mem_graphNodes, and_comm]
      simp
    apply h.settle (s.graphNodes g).elems (t := s.detachAll g) (detachAll_represents h.represents g) (.detachAll s g)
    · change ∀ g', g' ∈ ((s.graphNodes g).elems.foldl clearParent s).graphs ↔ _
      rw [hfold.2]
      exact h.groups
    · change ∀ m, ((s.graphNodes g).elems.foldl clearParent s).held m = true ↔ _
      rw [foldl_clearParent_held]
      exact h.held
    · intro g' m
      rw [(detachAll_placed h.placed g).member, hin]
    · intro m hm hnot hnone
      exact (h.mem_graphNodes g m).mpr (mem_of_homeAfter o hm hnot hnone).1
    · exact fun m g' hg' => (hin m g').mpr hg'
    · exact fun m g' hmg => Or.inl ((hin m g').mp hmg)
  · rename_i hg
    apply h.settle_self (fun _ hg' => hg') (fun _ hg' => hg')
    · apply homeAfter_of_none
      intro m _ hmg
      exact hg ((h.groups g).mpr (o.home_mem m g hmg).2)
    · exact fun _ hm => hm

theorem destroyGraph (h : s.Shows o) {g : GraphId} (hkeep : s.KeepsParents (.destroyGraph g)) :
    ∃ t, s.stepLifetime (.destroyGraph g) = .ok t ∧ t.Shows (o.dissolve g) := by
  refine ⟨_, rfl, ?_⟩
  unfold OwnedGraph.dissolve
  split
  · rename_i hg
    apply h.settle (s.graphNodes g).elems (t := s.withoutGraph g) (withoutGraph_represents h.represents g)
      (.of_nodes rfl rfl)
    · intro g'
      change g' ∈ s.graphs.erase g ↔ _
      rw [OrderedSet.mem_erase, h.groups]
      exact Iff.rfl
    · exact h.held
    · intro g' m
      rw [mem_withoutGraph, o.homeAfter_eq_some, h.mem_graphNodes, and_comm]
      refine and_congr_right fun hm => ?_
      rw [hm, Option.some.injEq]
      simp
    · intro m hm hnot hnone
      exact (h.mem_graphNodes g m).mpr (mem_of_homeAfter o hm hnot hnone).1
    · intro m g' hm
      rw [inGraph_withoutGraph, h.home]
      exact (o.homeAfter_eq_some.mp hm).1
    · -- A member still points to the graph, but nobody holds it.
      intro m g' hm
      rw [inGraph_withoutGraph, h.home] at hm
      by_cases hmg : o.home m = some g
      · have hmem := (h.mem_graphNodes g m).mpr hmg
        refine Or.inr ⟨hmem, ?_, o.homeAfter_eq_none.mpr (Or.inr ⟨hmg, Set.mem_univ m⟩)⟩
        rw [← h.held, hkeep hg m hmem]
        exact Bool.false_ne_true
      · exact Or.inl (o.homeAfter_eq_some.mpr ⟨hm, fun hmg' => hmg hmg'.1⟩)
  · rename_i hg
    apply h.settle_self
    · intro g' hg'
      refine ⟨hg', ?_⟩
      rintro rfl
      exact hg ((h.groups g').mpr hg')
    · exact fun _ hg' => hg'.1
    · apply homeAfter_of_none
      intro m _ hmg
      exact hg ((h.groups g).mpr (o.home_mem m g hmg).2)
    · exact fun _ hm => hm

theorem canPass_iff (h : s.Shows o) (p : NodePtr) : s.canPass p ↔ o.Passable p := by
  cases p with
  | null => exact iff_of_true rfl trivial
  | obj n => exact h.isLive n

theorem connectable_iff (h : s.Shows o) {this d : NodeId} {e : EdgeId} (hfresh : s.edges e = none) :
    o.Connectable this d e ↔ ∃ g, s.InGraph this g ∧ s.InGraph d g := by
  simp only [h.home]
  constructor
  · rintro ⟨-, hthis, hd⟩
    obtain ⟨g, hg⟩ := Option.ne_none_iff_exists'.mp hthis
    exact ⟨g, hg, hd.trans hg⟩
  · rintro ⟨g, hthis, hd⟩
    refine ⟨(h.edges_eq_none e).mp hfresh, ?_, hd.trans hthis.symm⟩
    rw [hthis]
    exact Option.some_ne_none g

theorem addEdge (h : s.Shows o) {this d : NodeId} {e : EdgeId} (Data : ε)
    (hfresh : s.edges e = none) (hc : o.Connectable this d e) :
    (s.addEdge this d e ⟨this, d, Data⟩).Shows (o.connect this d e) := by
  rw [OwnedGraph.connect, dif_pos hc]
  have hcells := KeepsCells.addEdge s this d e ⟨this, d, Data⟩
  refine ⟨(addEdge_represents h.represents Data hc.mem.1 hc.mem.2 hfresh).2,
    addEdge_placed h.placed _ _ _ _, ?_, h.groups, h.held, ?_, ?_, ?_⟩
  · exact fun n g => inGraph_addEdge.trans (h.home n g)
  · exact fun n => (hcells.unused n).trans (h.used n)
  · intro f
    rw [hcells.edges]
    change Function.update o.ends e (some (this, d)) f = _
    by_cases hf : f = e
    · simp [hf]
    · simpa [hf] using h.ends f
  · intro n node hnode
    obtain ⟨old, hold, heq⟩ := hcells.data n node hnode
    rw [heq]
    exact h.datum n old hold

/-- `ConnectTo` returns true exactly for two nodes of one graph, and then adds the edge. -/
theorem connectTo (h : s.Shows o) (this : NodeId) (Destination : NodePtr) (Data : ε) (e : EdgeId) :
    ∃ t, s.step (.connectTo this Destination Data e) = .ok t ∧
      t.Shows (Store.stepLifetime o (.call (.connectTo this Destination Data e))) ∧
      (s.lifetimeReply (.call (.connectTo this Destination Data e))).meaning =
        Store.lifetimeMeaning o (.call (.connectTo this Destination Data e)) := by
  have hguard : (s.isLive this ∧ s.canPass Destination ∧ s.edges e = none) ↔
      (this ∈ o.graph.nodes ∧ o.Passable Destination ∧ o.ends e = none) := by
    rw [h.isLive, h.canPass_iff, h.edges_eq_none]
  by_cases hc : s.isLive this ∧ s.canPass Destination ∧ s.edges e = none
  · obtain ⟨hthis, hpass, hfresh⟩ := hc
    have hstep : s.step (.connectTo this Destination Data e) =
        (s.connectTo this Destination Data e).map Prod.snd := if_pos ⟨hthis, hpass, hfresh⟩
    simp only [lifetimeReply, Store.lifetimeMeaning, if_pos (show _ ∧ _ ∧ _ from ⟨hthis, hpass, hfresh⟩),
      if_pos (hguard.mp ⟨hthis, hpass, hfresh⟩), hstep]
    rcases connectTo_cases h.placed hthis hpass Data e with ⟨heq, hnot⟩ | ⟨d, g, rfl, hin, hind, heq⟩
    · have hrefused : ¬ o.Accepts this e Destination := by
        cases Destination with
        | null => exact id
        | obj d =>
          intro hacc
          obtain ⟨g, hin, hind⟩ := (h.connectable_iff hfresh).mp hacc
          exact hnot d g rfl hin hind
      refine ⟨s, by rw [heq]; rfl, ?_, ?_⟩
      · cases Destination with
        | null => exact h
        | obj d =>
          have hsame : o.connect this d e = o := dif_neg hrefused
          simp only [Store.stepLifetime, hsame]
          exact h
      · simp [heq, hrefused, Reply.meaning]
    · have hacc : o.Connectable this d e := (h.connectable_iff hfresh).mpr ⟨g, hin, hind⟩
      refine ⟨_, by rw [heq]; rfl, h.addEdge Data hfresh hacc, ?_⟩
      have haccepts : o.Accepts this e (.obj d) := hacc
      simp [heq, haccepts, Reply.meaning]
  · refine ⟨s, if_neg hc, ?_, ?_⟩
    · cases Destination with
      | null => exact h
      | obj d =>
        have hnot : ¬ o.Connectable this d e := by
          intro hacc
          exact hc (hguard.mpr ⟨hacc.mem.1, hacc.mem.2, hacc.1⟩)
        have hsame : o.connect this d e = o := dif_neg hnot
        simp only [Store.stepLifetime, hsame]
        exact h
    · simp only [lifetimeReply, Store.lifetimeMeaning, if_neg hc, if_neg fun hg => hc (hguard.mpr hg)]
      rfl

theorem cut (h : s.Shows o) (e : EdgeId) : (s.cut e).Shows (o.cut e) := by
  have hset : {f : EdgeId | decide (f = e) = true} = {e} := by
    ext f
    simp
  have hrep := h.represents.cut e
  rw [hset] at hrep
  rw [h.represents.mirrored.cut_eq] at hrep ⊢
  have hcells := KeepsCells.eraseEdges s fun f => decide (f = e)
  refine ⟨hrep, h.placed.congr (fun _ _ => inGraph_eraseEdges) rfl rfl, ?_, h.groups, h.held, ?_,
    h.ends, ?_⟩
  · exact fun n g => inGraph_eraseEdges.trans (h.home n g)
  · exact fun n => (hcells.unused n).trans (h.used n)
  · intro n node hnode
    obtain ⟨old, hold, heq⟩ := hcells.data n node hnode
    rw [heq]
    exact h.datum n old hold

theorem dataReferenceGet (h : s.Shows o) (n : NodeId) (write : ν → ν) :
    (s.dataReferenceGet n write).Shows (o.assign n write) := by
  have hin : ∀ m g, (s.dataReferenceGet n write).InGraph m g ↔ s.InGraph m g :=
    fun _ _ => inGraph_modifyNode fun _ => rfl
  refine ⟨h.represents.modifyNode n fun _ => rfl, h.placed.congr hin rfl rfl, ?_, h.groups, h.held,
    ?_, h.ends, ?_⟩
  · exact fun m g => (hin m g).trans (h.home m g)
  · intro m
    rw [Heap.dataReferenceGet, modifyNode_nodes]
    change _ ↔ m ∉ o.usedNodes
    rw [← h.used]
    split
    · cases s.nodes m <;> simp
    · exact Iff.rfl
  · intro m node hnode
    rw [Heap.dataReferenceGet, modifyNode_nodes] at hnode
    simp only [OwnedGraph.assign]
    split at hnode
    · subst m
      obtain ⟨old, hold, rfl⟩ := Cell.mapLive_eq_live.mp hnode
      have hn : n ∈ o.graph.nodes := (h.isLive n).mp (isLive_iff.mpr ⟨old, hold⟩)
      rw [if_pos hn, Function.update_self, h.datum n old hold]
      rfl
    · rename_i hm
      split
      · rw [Function.update_of_ne hm]
        exact h.datum m node hnode
      · exact h.datum m node hnode

theorem stepLifetime (h : s.Shows o) (op : LifetimeOp ν ε) (hkeep : s.KeepsParents op) :
    ∃ t, s.stepLifetime op = .ok t ∧ t.Shows (Store.stepLifetime o op) ∧
      (s.lifetimeReply op).meaning = Store.lifetimeMeaning o op := by
  cases op with
  | destroyGraph g =>
    obtain ⟨t, ht, hshow⟩ := h.destroyGraph hkeep
    exact ⟨t, ht, hshow, rfl⟩
  | call op =>
    cases op with
    | makeGraph g => exact ⟨_, rfl, h.makeGraph g, rfl⟩
    | makeNode n Data => exact ⟨_, rfl, h.makeNode n Data, rfl⟩
    | holdNode n => exact ⟨_, rfl, h.holdNode n, rfl⟩
    | dropNode n => exact ⟨_, rfl, h.dropNode n, rfl⟩
    | nodeAdd g n =>
      obtain ⟨t, ht, hshow⟩ := h.nodeAdd g n
      exact ⟨t, ht, hshow, rfl⟩
    | nodeRemove g n =>
      obtain ⟨t, ht, hshow⟩ := h.nodeRemove g n
      exact ⟨t, ht, hshow, rfl⟩
    | nodeRemoveAll g =>
      obtain ⟨t, ht, hshow⟩ := h.nodeRemoveAll g
      exact ⟨t, ht, hshow, rfl⟩
    | connectTo this Destination Data e => exact h.connectTo this Destination Data e
    | cut e => exact ⟨_, rfl, h.cut e, rfl⟩

/-! ## The questions -/

theorem ask (h : s.Shows o) {n : NodeId} {r : Reply ν} {m : Meaning ν}
    (heq : s.isLive n → r.meaning = m) : (s.ask n r).meaning = Store.ask o n m := by
  unfold Heap.ask Store.ask
  by_cases hn : s.isLive n
  · rw [if_pos hn, if_pos ((h.isLive n).mp hn), heq hn]
  · rw [if_neg hn, if_neg fun hmem => hn ((h.isLive n).mpr hmem)]
    rfl

theorem askGraph (h : s.Shows o) {g : GraphId} {r : Reply ν} {m : Meaning ν}
    (heq : r.meaning = m) : (s.askGraph g r).meaning = Store.askGraph o g m := by
  unfold Heap.askGraph Store.askGraph
  by_cases hg : g ∈ s.graphs
  · rw [if_pos hg, if_pos ((h.groups g).mp hg), heq]
  · rw [if_neg hg, if_neg fun hmem => hg ((h.groups g).mpr hmem)]
    rfl

theorem askEdge (h : s.Shows o) {e : EdgeId} {r : Reply ν} {m : NodeId → NodeId → Meaning ν}
    (heq : ∀ edge, s.edges e = some edge → r.meaning = m edge.source edge.destination) :
    (s.askEdge e r).meaning = Store.askEdge o e m := by
  unfold Heap.askEdge Store.askEdge
  rw [h.ends]
  cases hedge : s.edges e with
  | none => rfl
  | some edge => exact heq edge hedge

theorem lock (h : s.Shows o) (n : NodeId) : s.lock n = Store.ptr o n := by
  unfold Store.ptr
  rcases lock_cases s n with ⟨hlock, hdead⟩ | ⟨hlock, hlive⟩
  · rw [hlock, if_neg]
    intro hmem
    rw [(h.isLive n).mpr hmem] at hdead
    cases hdead
  · rw [hlock, if_pos ((h.isLive n).mp hlive)]

theorem sourceGet (h : s.Shows o) {e : EdgeId} {edge : GraphEdge ε} (hedge : s.edges e = some edge) :
    s.sourceGet e = Store.ptr o edge.source := by
  rw [Heap.sourceGet, hedge]
  exact h.lock edge.source

theorem destinationGet (h : s.Shows o) {e : EdgeId} {edge : GraphEdge ε}
    (hedge : s.edges e = some edge) : s.destinationGet e = Store.ptr o edge.destination := by
  rw [Heap.destinationGet, hedge]
  exact h.lock edge.destination

/-- `OtherGet` compares with the locked source, which is the source while the node lives. -/
theorem otherGet (h : s.Shows o) {n : NodeId} (hn : s.isLive n) {e : EdgeId} {edge : GraphEdge ε}
    (hedge : s.edges e = some edge) :
    s.otherGet e (.obj n) = Store.ptr o (if edge.source = n then edge.destination else edge.source) := by
  have hmem := (h.isLive n).mp hn
  unfold Heap.otherGet
  rw [h.sourceGet hedge, h.destinationGet hedge]
  by_cases hs : edge.source = n
  · rw [if_pos hs, if_pos]
    rw [hs, Store.ptr, if_pos hmem]
  · rw [if_neg hs, if_neg]
    unfold Store.ptr
    split
    · exact fun heq => hs (NodePtr.obj.inj heq).symm
    · exact NodePtr.noConfusion

theorem dataGet (h : s.Shows o) {n : NodeId} (hn : s.isLive n) : s.dataGet n = o.datum n := by
  obtain ⟨node, hnode⟩ := isLive_iff.mp hn
  rw [Heap.dataGet, hnode, h.datum n node hnode]

theorem nodeGetShared (h : s.Shows o) (g : GraphId) (n : NodeId) :
    s.nodeGetShared g n = if o.home n = some g then .obj n else .null := by
  rw [nodeGetShared_eq]
  simp only [h.mem_graphNodes]

/-- One call of the code against the same call of the store. -/
theorem stepCall (h : s.Shows o) (call : Call ν ε) (hkeep : s.CallKeepsParents call) :
    ∃ t r, s.stepCall call = .ok (t, r) ∧ t.Shows (Store.stepCall o call).1 ∧
      r.meaning = (Store.stepCall o call).2 := by
  cases call with
  | lifetime op =>
    obtain ⟨t, ht, hshow, hreply⟩ := h.stepLifetime op hkeep
    exact ⟨t, _, by rw [Heap.stepCall, ht]; rfl, hshow, hreply⟩
  | dataSet n Data => exact ⟨_, _, rfl, h.dataReferenceGet n _, h.ask fun _ => rfl⟩
  | dataReferenceGet n write => exact ⟨_, _, rfl, h.dataReferenceGet n write, h.ask fun _ => rfl⟩
  | dataGet n => exact ⟨_, _, rfl, h, h.ask fun hn => congrArg Answer.data (h.dataGet hn)⟩
  | graphGet n => exact ⟨_, _, rfl, h, h.ask fun hn => congrArg Answer.graph (h.parentGraphOf hn)⟩
  | nodeGetAll g =>
    exact ⟨_, _, rfl, h, h.askGraph (congrArg Answer.members (Set.ext (h.mem_graphNodes g)))⟩
  | nodeGetShared g n =>
    refine ⟨_, _, rfl, h, h.askGraph ?_⟩
    rw [h.nodeGetShared]
    exact congrArg Answer.node (if_congr Iff.rfl rfl rfl)
  | connectedIncomingGet n =>
    exact ⟨_, _, rfl, h,
      h.ask fun hn => congrArg Answer.nodes (Set.ext (h.represents.mem_connectedIncomingGet hn))⟩
  | connectedOutgoingGet n =>
    exact ⟨_, _, rfl, h,
      h.ask fun hn => congrArg Answer.nodes (Set.ext (h.represents.mem_connectedOutgoingGet hn))⟩
  | edgesGet n =>
    exact ⟨_, _, rfl, h,
      h.ask fun hn => congrArg Answer.edges (Set.ext fun _ => h.represents.mem_edgesOf hn)⟩
  | edgesIncomingGet n =>
    exact ⟨_, _, rfl, h,
      h.ask fun hn => congrArg Answer.edges (Set.ext (h.represents.mem_edgesIncomingGet hn))⟩
  | edgesOutgoingGet n =>
    exact ⟨_, _, rfl, h,
      h.ask fun hn => congrArg Answer.edges (Set.ext (h.represents.mem_edgesOutgoingGet hn))⟩
  | sourceGet e =>
    exact ⟨_, _, rfl, h, h.askEdge fun _ hedge => congrArg Answer.node (h.sourceGet hedge)⟩
  | destinationGet e =>
    exact ⟨_, _, rfl, h, h.askEdge fun _ hedge => congrArg Answer.node (h.destinationGet hedge)⟩
  | otherGet e n =>
    refine ⟨_, _, rfl, h, h.ask fun hn => h.askEdge fun edge hedge => ?_⟩
    rw [h.otherGet hn hedge]
    exact congrArg (fun m => Answer.node (Store.ptr o m)) (if_congr Iff.rfl rfl rfl)

end Shows

theorem empty_shows : (Heap.empty : Heap ν ε).Shows (OwnedGraph.empty : Store ν) where
  represents := empty_represents
  placed := empty_placed
  home n g := by simp [Heap.empty, InGraph, OwnedGraph.empty]
  groups g := by simp [Heap.empty, OwnedGraph.empty]
  held n := by simp [Heap.empty, OwnedGraph.empty]
  used n := by simp [Heap.empty, OwnedGraph.empty]
  ends e := by simp [Heap.empty, OwnedGraph.empty]
  datum n node hnode := by simp [Heap.empty] at hnode

/-- Every sequence of calls, with questions anywhere in it, is answered as by the graph of owned
nodes, as long as no graph is destroyed while a caller owns one of its members. -/
theorem run_answers {calls : List (Call ν ε)}
    (hkeeps : Simulation.Meets Heap.stepCall CallKeepsParents Heap.empty calls) :
    ∃ s replies, Simulation.transcript Heap.stepCall Heap.empty calls = .ok (s, replies) ∧
      s.Shows (Simulation.meant Store.stepCall OwnedGraph.empty calls).1 ∧
      replies.map Reply.meaning = (Simulation.meant Store.stepCall OwnedGraph.empty calls).2 :=
  Simulation.transcript_meant Heap.stepCall Store.stepCall
    (fun _ _ call h hkeep => h.stepCall call hkeep) empty_shows hkeeps

/-- A member connected to itself is asked for its neighbours, is given up by its creator and
goes with its graph. -/
def memberCalls : List (Call Nat Unit) :=
  [.lifetime (.call (.makeGraph 0)), .lifetime (.call (.makeNode 0 7)),
    .lifetime (.call (.nodeAdd 0 0)), .lifetime (.call (.connectTo 0 (.obj 0) () 0)),
    .connectedIncomingGet 0, .lifetime (.call (.dropNode 0)), .dataGet 0,
    .lifetime (.destroyGraph 0), .dataGet 0]

theorem run_answers_memberCalls :
    ∃ s replies, Simulation.transcript Heap.stepCall Heap.empty memberCalls = .ok (s, replies) ∧
      s.Shows (Simulation.meant Store.stepCall OwnedGraph.empty memberCalls).1 ∧
      replies.map Reply.meaning =
        (Simulation.meant Store.stepCall OwnedGraph.empty memberCalls).2 :=
  run_answers ⟨trivial, trivial, trivial, trivial, trivial, trivial, trivial,
    fun _ n hn => by
      obtain rfl : n = 0 := List.mem_singleton.mp hn
      rfl,
    trivial, trivial⟩

end Heap

end Unotu.Graph
