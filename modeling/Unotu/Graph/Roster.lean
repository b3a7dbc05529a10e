import Unotu.Graph.Destruction

/-!
# What a graph lists is alive and points back

After a graph was destroyed a survivor may point to a graph that does not list it. The
converse never fails: a node in the set of a graph is alive and points to this graph, and the
graph has not been destroyed.
-/

set_option autoImplicit false

namespace Unotu.Graph.Heap

open Multigraph

variable {ν ε : Type} {s t : Heap ν ε} {M : Multigraph NodeId EdgeId}

structure Rostered (s : Heap ν ε) : Prop where
  listed : ∀ {g n}, n ∈ s.graphNodes g → s.InGraph n g
  alive : ∀ {g n}, n ∈ s.graphNodes g → g ∈ s.graphs

namespace Rostered

/-- A step that only takes nodes out of the sets has to keep what the remaining ones have. -/
theorem mono (h : s.Rostered)
    (hkeep : ∀ g n, n ∈ t.graphNodes g → n ∈ s.graphNodes g ∧ (s.InGraph n g → t.InGraph n g) ∧
      (g ∈ s.graphs → g ∈ t.graphs)) : t.Rostered where
  listed {g n} hn := by
    obtain ⟨hmem, hin, -⟩ := hkeep g n hn
    exact hin (h.listed hmem)
  alive {g n} hn := by
    obtain ⟨hmem, -, hg⟩ := hkeep g n hn
    exact hg (h.alive hmem)

theorem congr (h : s.Rostered) (hin : ∀ n g, t.InGraph n g ↔ s.InGraph n g)
    (hnodes : t.graphNodes = s.graphNodes) (hgraphs : t.graphs = s.graphs) : t.Rostered := by
  apply h.mono
  intro g n hn
  rw [hnodes] at hn
  refine ⟨hn, (hin n g).mpr, ?_⟩
  rw [hgraphs]
  exact id

theorem notMem_of_not_owned (h : s.Rostered) {n : NodeId} (hn : s.owned n = false) (g : GraphId) :
    n ∉ s.graphNodes g := by
  intro hmem
  rw [owned_of_mem (h.alive hmem) hmem] at hn
  cases hn

theorem release (h : s.Rostered) (hrep : s.Represents M) (n : NodeId) : (s.release n).Rostered := by
  rcases hrep.mirrored.release_cases n with ⟨hsame, -⟩ | ⟨hgone, -, hown⟩
  · rw [hsame]
    exact h
  · rw [hgone]
    apply h.mono
    intro g m hm
    refine ⟨hm, ?_, id⟩
    intro hin
    rw [inGraph_withoutNode]
    refine ⟨?_, hin⟩
    intro heq
    subst m
    exact h.notMem_of_not_owned hown g hm

theorem foldl_release (h : s.Rostered) (hrep : s.Represents M) (ns : List NodeId) :
    (ns.foldl Heap.release s).Rostered := by
  induction ns generalizing s M with
  | nil => exact h
  | cons n ns ih =>
    obtain ⟨M₁, hrep₁⟩ := release_represents hrep n
    exact ih (h.release hrep n) hrep₁

theorem nodeRemove (h : s.Rostered) (g : GraphId) (p : NodePtr) : (s.nodeRemove g p).Rostered := by
  unfold Heap.nodeRemove
  split
  · rename_i n
    split
    · rename_i hn
      apply h.mono
      intro g' m hm
      change m ∈ (s.setGraphNodes g _).graphNodes g' at hm
      rw [mem_setGraphNodes] at hm
      have hmem : m ∈ s.graphNodes g' ∧ m ≠ n := by
        split at hm
        · subst g'
          exact OrderedSet.mem_erase.mp hm
        · rename_i hg
          refine ⟨hm, ?_⟩
          rintro rfl
          exact hg ((h.listed hm).unique (h.listed hn))
      exact ⟨hmem.1, fun hin => inGraph_clearParent.mpr ⟨hmem.2, hin⟩, id⟩
    · exact h
  · exact h

theorem enterGraph (h : s.Rostered) {g : GraphId} {n : NodeId} (hg : g ∈ s.graphs)
    (hn : s.isLive n) (hfree : ∀ g', n ∉ s.graphNodes g') : (s.enterGraph g n).Rostered := by
  have hcases : ∀ g' m, m ∈ (s.enterGraph g n).graphNodes g' →
      m = n ∧ g' = g ∨ m ≠ n ∧ m ∈ s.graphNodes g' := by
    intro g' m hm
    change m ∈ (s.setGraphNodes g _).graphNodes g' at hm
    rw [mem_setGraphNodes] at hm
    by_cases hmn : m = n
    · subst m
      split at hm
      · rename_i hgg
        exact Or.inl ⟨rfl, hgg⟩
      · exact absurd hm (hfree g')
    · split at hm
      · subst g'
        exact Or.inr ⟨hmn, (OrderedSet.mem_insert.mp hm).resolve_left hmn⟩
      · exact Or.inr ⟨hmn, hm⟩
  refine ⟨?_, ?_⟩
  · intro g' m hm
    rw [inGraph_enterGraph hn]
    rcases hcases g' m hm with ⟨hmn, hgg⟩ | ⟨hmn, hmem⟩
    · rw [if_pos hmn]
      exact hgg
    · rw [if_neg hmn]
      exact h.listed hmem
  · intro g' m hm
    rcases hcases g' m hm with ⟨-, rfl⟩ | ⟨-, hmem⟩
    · exact hg
    · exact h.alive hmem

theorem notMem_nodeRemove (h : s.Rostered) {n : NodeId} {g : GraphId}
    (hn : s.parentGraphOf n = some g) (g' : GraphId) :
    n ∉ (s.nodeRemove g (.obj n)).graphNodes g' := by
  intro hmem
  have hroster := h.nodeRemove g (.obj n)
  by_cases hin : n ∈ s.graphNodes g
  · have hout := hroster.listed hmem
    simp only [Heap.nodeRemove, if_pos hin] at hout
    exact (inGraph_clearParent.mp hout).1 rfl
  · simp only [Heap.nodeRemove, if_neg hin] at hmem
    have hg' := (inGraph_iff.mp (h.listed hmem)).2
    rw [hn, Option.some.injEq] at hg'
    exact hin (hg' ▸ hmem)

/-- A node moves to another graph out of the one that listed it. -/
theorem move (h : s.Rostered) (hrep : s.Represents M) {g g₀ : GraphId} {n : NodeId}
    (hg : g ∈ s.graphs) (hn : s.isLive n) (hg₀ : s.parentGraphOf n = some g₀) :
    ((s.nodeRemove g₀ (.obj n)).enterGraph g n).Rostered := by
  have hgraphs : (s.nodeRemove g₀ (.obj n)).graphs = s.graphs := by
    simp only [Heap.nodeRemove]
    split <;> rfl
  apply (h.nodeRemove g₀ _).enterGraph
  · rw [hgraphs]
    exact hg
  · rw [isLive_nodeRemove hrep]
    exact hn
  · exact h.notMem_nodeRemove hg₀

theorem detachAll (h : s.Rostered) (g : GraphId) : (s.detachAll g).Rostered := by
  have hfold := foldl_clearParent_graphNodes (s := s) (s.graphNodes g).elems
  apply h.mono
  intro g' m hm
  rw [Heap.detachAll, mem_setGraphNodes, hfold.1] at hm
  split at hm
  · simp at hm
  · rename_i hg
    refine ⟨hm, ?_, ?_⟩
    · intro hin
      refine inGraph_detachAll.mpr ⟨?_, hin⟩
      intro hmem
      exact hg (hin.unique (h.listed hmem))
    · change g' ∈ s.graphs → g' ∈ ((s.graphNodes g).elems.foldl clearParent s).graphs
      rw [hfold.2]
      exact id

theorem withoutGraph (h : s.Rostered) (g : GraphId) : (s.withoutGraph g).Rostered := by
  apply h.mono
  intro g' m hm
  obtain ⟨hne, hmem⟩ := mem_withoutGraph.mp hm
  exact ⟨hmem, id, fun hg => OrderedSet.mem_erase.mpr ⟨hg, hne⟩⟩

theorem makeGraph (h : s.Rostered) (g : GraphId) : (s.makeGraph g).Rostered := by
  unfold Heap.makeGraph
  split
  · exact h
  · apply h.mono
    intro g' m hm
    change m ∈ (s.setGraphNodes g ∅).graphNodes g' at hm
    rw [mem_setGraphNodes] at hm
    split at hm
    · simp at hm
    · exact ⟨hm, id, fun hg => OrderedSet.mem_insert.mpr (Or.inr hg)⟩

theorem makeNode (h : s.Rostered) {n : NodeId} (hunused : s.nodes n = .unused) (Data : ν) :
    (s.makeNode n Data).Rostered := by
  apply h.congr (inGraph_makeNode hunused Data) <;> simp [Heap.makeNode, hunused]

theorem setHeld (h : s.Rostered) (n : NodeId) (holds : Bool) : (s.setHeld n holds).Rostered :=
  h.congr (fun _ _ => Iff.rfl) rfl rfl

theorem step (h : s.Rostered) (hrep : s.Represents M) {op : Op ν ε} (ht : s.step op = .ok t) :
    t.Rostered := by
  cases step_effect ht with
  | nothing => exact h
  | makeGraph => exact h.makeGraph _
  | makeNode hunused => exact h.makeNode hunused _
  | hold _ => exact h.setHeld _ true
  | drop _ => exact (h.setHeld _ false).release (hrep.setHeld _ false) _
  | enter hg hn hnone =>
    apply h.enterGraph hg hn
    intro g' hmem
    have hg' := (inGraph_iff.mp (h.listed hmem)).2
    rw [hnone] at hg'
    cases hg'
  | move hg hn hg₀ _ => exact h.move hrep hg hn hg₀
  | remove _ _ => exact (h.nodeRemove _ _).release (hrep.nodeRemove _ _) _
  | removeAll _ => exact (h.detachAll _).foldl_release (detachAll_represents hrep _) _
  | connect _ _ _ => exact h.congr (fun _ _ => inGraph_addEdge) rfl rfl
  | cut =>
    rw [hrep.mirrored.cut_eq]
    exact h.congr (fun _ _ => inGraph_eraseEdges) rfl rfl

theorem stepLifetime (h : s.Rostered) (hrep : s.Represents M) {op : LifetimeOp ν ε}
    (ht : s.stepLifetime op = .ok t) : t.Rostered := by
  cases op with
  | call op => exact h.step hrep ht
  | destroyGraph g =>
    cases ht
    split
    · exact (h.withoutGraph g).foldl_release (withoutGraph_represents hrep g) _
    · exact h

end Rostered

theorem empty_rostered : (Heap.empty : Heap ν ε).Rostered where
  listed hn := by simp [Heap.empty] at hn
  alive hn := by simp [Heap.empty] at hn

/-- What every run keeps, whichever nodes and graphs were destroyed on the way. -/
structure Kept (s : Heap ν ε) (M : Multigraph NodeId EdgeId) : Prop where
  represents : s.Represents M
  rostered : s.Rostered

theorem run_kept {ops : List (LifetimeOp ν ε)}
    (h : Runs.run stepLifetime Heap.empty ops = .ok s) : ∃ M, s.Kept M := by
  refine Runs.run_preserves stepLifetime (P := fun s => ∃ M, s.Kept M) ?_ ?_ h
  · rintro s op t ⟨M, hkept⟩ ht
    obtain ⟨M', hrep'⟩ := stepLifetime_represents hkept.represents ht
    exact ⟨M', hrep', hkept.rostered.stepLifetime hkept.represents ht⟩
  · exact ⟨_, empty_represents, empty_rostered⟩

end Unotu.Graph.Heap
