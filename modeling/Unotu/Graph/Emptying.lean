import Unotu.Graph.Roster

/-!
# Emptying a graph at once or node by node

`NodeRemoveAll` clears every back pointer and then lets the members die in the order of the
set. Removing the members one by one alternates removals and destructions, in any order. Both
end in the heap that takes all members out and then all members away that nobody owns.
-/

set_option autoImplicit false

namespace Unotu.Graph.Heap

open Multigraph

variable {ν ε : Type} {s t : Heap ν ε} {M : Multigraph NodeId EdgeId}

/-- The nodes in `ns` are no members of `g` any more. -/
def detach (s : Heap ν ε) (g : GraphId) (ns : List NodeId) : Heap ν ε :=
  { s with
    nodes := fun m => if m ∈ ns then (s.nodes m).mapLive fun node => { node with parentGraph := none }
      else s.nodes m
    graphNodes := Function.update s.graphNodes g
      ((s.graphNodes g).filter fun m => !decide (m ∈ ns)) }

/-- The nodes in `ns` have expired, and nobody holds an edge that one of them held. -/
def withoutNodes (s : Heap ν ε) (ns : List NodeId) : Heap ν ε :=
  { s with nodes := fun m => if m ∈ ns then .expired else
      (s.nodes m).mapLive fun node =>
        { node with edges := node.edges.filter fun e => !ns.any fun n => decide (e ∈ s.edgesOf n) } }

/-- What `t` has to be when the graph `g` has been emptied in `s`. -/
structure EmptiedLaw (s t : Heap ν ε) (g : GraphId) : Prop where
  empty : t.nodeGetAll g = ∅
  survivors : ∀ n, n ∈ s.nodeGetAll g → (t.isLive n ↔ s.held n = true)
  orphans : ∀ n, n ∈ s.nodeGetAll g → t.isLive n → t.graphGet n = none
  edgesOf : ∀ n e, t.isLive n → (e ∈ t.edgesOf n ↔
    e ∈ s.edgesOf n ∧ ∀ m ∈ s.nodeGetAll g, s.held m = false → e ∉ s.edgesOf m)

/-! ## Taking nodes out -/

theorem edgesOf_detach (g : GraphId) (ns : List NodeId) (m : NodeId) :
    (s.detach g ns).edgesOf m = s.edgesOf m := by
  by_cases hm : m ∈ ns
  · simp only [edgesOf, detach, if_pos hm]
    cases s.nodes m <;> rfl
  · simp only [edgesOf, detach, if_neg hm]

theorem detach_nil (s : Heap ν ε) (g : GraphId) : s.detach g [] = s := by
  have hnodes : ((s.graphNodes g).filter fun m => !decide (m ∈ ([] : List NodeId))) =
      s.graphNodes g := by
    apply OrderedSet.filter_eq_self
    intro m _
    simp
  apply Heap.ext
  · funext m
    simp [detach]
  · rfl
  · rfl
  · simp only [detach, hnodes, Function.update_eq_self]
  · rfl

theorem detach_detach (s : Heap ν ε) (g : GraphId) (ns ms : List NodeId) :
    (s.detach g ns).detach g ms = s.detach g (ns ++ ms) := by
  apply Heap.ext
  · funext m
    by_cases hms : m ∈ ms
    · by_cases hns : m ∈ ns
      · simp [detach, hms, hns, Cell.mapLive_mapLive]
      · simp [detach, hms, hns]
    · simp [detach, hms]
  · rfl
  · rfl
  · simp [detach, OrderedSet.filter_filter]
  · rfl

theorem detach_congr (s : Heap ν ε) (g : GraphId) {ns ms : List NodeId}
    (h : ∀ n, n ∈ ns ↔ n ∈ ms) : s.detach g ns = s.detach g ms := by
  simp only [detach, h]

theorem foldl_clearParent_eq (s : Heap ν ε) (ns : List NodeId) :
    ns.foldl clearParent s = { s with
      nodes := fun m =>
        if m ∈ ns then (s.nodes m).mapLive fun node => { node with parentGraph := none }
        else s.nodes m } := by
  induction ns generalizing s with
  | nil => simp
  | cons n ns ih =>
    rw [List.foldl_cons, ih]
    apply Heap.ext
    · funext m
      by_cases hns : m ∈ ns
      · by_cases hmn : m = n
        · subst m
          simp [clearParent, modifyNode, hns, Cell.mapLive_mapLive]
        · simp [clearParent, modifyNode, hns, hmn]
      · by_cases hmn : m = n
        · subst m
          simp [clearParent, modifyNode, hns]
        · simp [clearParent, modifyNode, hns, hmn]
    · rfl
    · rfl
    · rfl
    · rfl

theorem detachAll_eq (s : Heap ν ε) (g : GraphId) :
    s.detachAll g = s.detach g (s.graphNodes g).elems := by
  have hempty : ((s.graphNodes g).filter fun m => !decide (m ∈ (s.graphNodes g).elems)) = ∅ := by
    ext m
    rw [OrderedSet.mem_filter]
    simp
  simp only [detachAll, foldl_clearParent_eq, setGraphNodes, detach, hempty]

theorem nodeRemove_eq_detach {g : GraphId} {n : NodeId} (hn : n ∈ s.graphNodes g) :
    s.nodeRemove g (.obj n) = s.detach g [n] := by
  have hset : ((s.graphNodes g).filter fun m => !decide (m ∈ [n])) = (s.graphNodes g).erase n := by
    ext m
    rw [OrderedSet.mem_filter, OrderedSet.mem_erase]
    simp
  apply Heap.ext
  · funext m
    by_cases hm : m = n
    · subst m
      simp [nodeRemove, hn, clearParent, modifyNode, setGraphNodes, detach]
    · simp [nodeRemove, hn, clearParent, modifyNode, setGraphNodes, detach, hm]
  · simp [nodeRemove, hn, clearParent, modifyNode, setGraphNodes, detach]
  · simp [nodeRemove, hn, clearParent, modifyNode, setGraphNodes, detach]
  · simp [nodeRemove, hn, clearParent, modifyNode, setGraphNodes, detach, ← hset]
  · simp [nodeRemove, hn, clearParent, modifyNode, setGraphNodes, detach]

/-! ## Taking nodes away -/

theorem withoutNodes_nil (s : Heap ν ε) : s.withoutNodes [] = s := by
  apply Heap.ext
  · funext m
    have hkeep : ∀ node : GraphNode ν, (node.edges.filter fun e =>
        !([] : List NodeId).any fun n => decide (e ∈ s.edgesOf n)) = node.edges :=
      fun node => OrderedSet.filter_eq_self fun e _ => by simp
    simp only [withoutNodes, List.not_mem_nil, if_false, hkeep]
    exact Cell.mapLive_id _
  · rfl
  · rfl
  · rfl
  · rfl

theorem withoutNodes_congr (s : Heap ν ε) {ns ms : List NodeId} (h : ∀ n, n ∈ ns ↔ n ∈ ms) :
    s.withoutNodes ns = s.withoutNodes ms := by
  have hany : ∀ e, (ns.any fun n => decide (e ∈ s.edgesOf n)) =
      ms.any fun n => decide (e ∈ s.edgesOf n) := by
    intro e
    rw [Bool.eq_iff_iff, List.any_eq_true, List.any_eq_true]
    simp only [h]
  simp only [withoutNodes, h, hany]

theorem withoutNodes_singleton (s : Heap ν ε) (n : NodeId) :
    s.withoutNodes [n] = s.withoutNode n := by
  simp [withoutNodes, withoutNode]

theorem mem_edgesOf_of_kept {m : NodeId} {e : EdgeId} {p : EdgeId → Bool}
    (hcell : t.nodes m = (s.nodes m).mapLive fun node =>
      { node with edges := node.edges.filter p }) (hp : p e = true) :
    e ∈ t.edgesOf m ↔ e ∈ s.edgesOf m := by
  cases hm : s.nodes m with
  | live node =>
    rw [mem_edgesOf_of_filter hcell (isLive_iff.mpr ⟨node, hm⟩)]
    exact and_iff_left hp
  | dying node => simp [edgesOf, hcell, hm]
  | unused => simp [edgesOf, hcell, hm]
  | expired => simp [edgesOf, hcell, hm]

theorem nodes_withoutNodes {ns : List NodeId} {m : NodeId} (hm : m ∉ ns) :
    (s.withoutNodes ns).nodes m = (s.nodes m).mapLive fun node =>
      { node with edges := node.edges.filter fun e => !ns.any fun n => decide (e ∈ s.edgesOf n) } := by
  simp only [withoutNodes, if_neg hm]

/-- What a node that stays loses is what one of the others held. -/
theorem mem_edgesOf_withoutNodes {ns : List NodeId} {m : NodeId} {e : EdgeId} :
    ((∃ n ∈ ns, e ∈ s.edgesOf n) ∨ e ∈ (s.withoutNodes ns).edgesOf m) ↔
      (∃ n ∈ ns, e ∈ s.edgesOf n) ∨ e ∈ s.edgesOf m := by
  by_cases hex : ∃ n ∈ ns, e ∈ s.edgesOf n
  · exact iff_of_true (Or.inl hex) (Or.inl hex)
  · apply or_congr_right
    by_cases hm : m ∈ ns
    · refine iff_of_false ?_ fun he => hex ⟨m, hm, he⟩
      simp [edgesOf, withoutNodes, hm]
    · apply mem_edgesOf_of_kept (nodes_withoutNodes hm)
      rw [Bool.not_eq_true', List.any_eq_false]
      intro n hn
      simpa using fun he => hex ⟨n, hn, he⟩

theorem withoutNodes_withoutNodes (s : Heap ν ε) (ns ms : List NodeId) :
    (s.withoutNodes ns).withoutNodes ms = s.withoutNodes (ns ++ ms) := by
  apply Heap.ext
  · funext m
    by_cases hms : m ∈ ms
    · simp [withoutNodes, hms]
    · by_cases hns : m ∈ ns
      · simp [withoutNodes, hms, hns]
      · have hsets : ∀ e, ((ns.any fun n => decide (e ∈ s.edgesOf n)) ||
            ms.any fun n => decide (e ∈ (s.withoutNodes ns).edgesOf n)) =
            (ns ++ ms).any fun n => decide (e ∈ s.edgesOf n) := by
          intro e
          rw [Bool.eq_iff_iff, Bool.or_eq_true, List.any_eq_true, List.any_eq_true, List.any_eq_true]
          simp only [decide_eq_true_eq, List.mem_append]
          constructor
          · intro hunion
            rcases hunion with ⟨n, hn, he⟩ | ⟨n, hn, he⟩
            · exact ⟨n, Or.inl hn, he⟩
            · rcases mem_edgesOf_withoutNodes.mp (Or.inr he) with ⟨k, hk, he⟩ | he
              · exact ⟨k, Or.inl hk, he⟩
              · exact ⟨n, Or.inr hn, he⟩
          · intro hunion
            rcases hunion with ⟨n, hn | hn, he⟩
            · exact Or.inl ⟨n, hn, he⟩
            · rcases mem_edgesOf_withoutNodes.mpr (Or.inr he) with ⟨k, hk, he⟩ | he
              · exact Or.inl ⟨k, hk, he⟩
              · exact Or.inr ⟨n, hn, he⟩
        have hnot : m ∉ ns ++ ms := by simp [hns, hms]
        rw [nodes_withoutNodes hms, nodes_withoutNodes hns, nodes_withoutNodes hnot,
          Cell.mapLive_mapLive]
        apply Cell.mapLive_congr
        intro node _
        simp only [OrderedSet.filter_filter, ← Bool.not_or, hsets]
  · rfl
  · rfl
  · rfl
  · rfl

theorem withoutNodes_detach (s : Heap ν ε) (g : GraphId) (ns ms : List NodeId) :
    (s.withoutNodes ns).detach g ms = (s.detach g ms).withoutNodes ns := by
  apply Heap.ext
  · funext m
    simp only [withoutNodes, edgesOf_detach]
    by_cases hms : m ∈ ms
    · by_cases hns : m ∈ ns
      · simp [detach, hms, hns]
      · simp [detach, hms, hns, Cell.mapLive_mapLive]
    · simp [detach, hms]
  · rfl
  · rfl
  · rfl
  · rfl

theorem release_of_free (h : s.Represents M) {n : NodeId} (hn : s.isLive n)
    (hfree : ∀ g, n ∉ s.graphNodes g) :
    s.release n = s.withoutNodes ([n].filter fun n => !s.held n) := by
  rcases h.mirrored.release_cases n with ⟨hsame, hown⟩ | ⟨hgone, -, hown⟩
  · have hheld : s.held n = true := (owned_of_free hfree).symm.trans (hown hn)
    simp [hsame, hheld, withoutNodes_nil]
  · have hheld : s.held n = false := (owned_of_free hfree).symm.trans hown
    simp [hgone, hheld, withoutNodes_singleton]

theorem isLive_withoutNodes {ns : List NodeId} {m : NodeId} :
    (s.withoutNodes ns).isLive m = true ↔ m ∉ ns ∧ s.isLive m = true := by
  by_cases hm : m ∈ ns
  · simp [isLive_iff, withoutNodes, hm]
  · rw [isLive_of_mapLive (nodes_withoutNodes hm)]
    simp [hm]

theorem mem_edgesOf_withoutNodes_of_live {ns : List NodeId} {m : NodeId} {e : EdgeId} (hm : m ∉ ns)
    (hlive : s.isLive m) :
    e ∈ (s.withoutNodes ns).edgesOf m ↔ e ∈ s.edgesOf m ∧ ∀ n ∈ ns, e ∉ s.edgesOf n := by
  rw [mem_edgesOf_of_filter (nodes_withoutNodes hm) hlive]
  simp

/-- Releasing distinct nodes of no graph takes those away that nobody holds. -/
theorem foldl_release_of_free (h : s.Represents M) {ns : List NodeId} (hnodup : ns.Nodup)
    (hlive : ∀ n ∈ ns, s.isLive n) (hfree : ∀ n ∈ ns, ∀ g, n ∉ s.graphNodes g) :
    ns.foldl release s = s.withoutNodes (ns.filter fun n => !s.held n) := by
  induction ns generalizing s M with
  | nil => exact (withoutNodes_nil s).symm
  | cons n ns ih =>
    obtain ⟨hnot, hnodup⟩ := List.nodup_cons.mp hnodup
    have hn := hlive n List.mem_cons_self
    have hrelease := release_of_free h hn (hfree n List.mem_cons_self)
    obtain ⟨M₁, h₁⟩ := release_represents h n
    rw [List.foldl_cons, ih h₁ hnodup ?_ ?_, hrelease, withoutNodes_withoutNodes]
    · have hsplit : n :: ns = [n] ++ ns := rfl
      rw [hsplit, List.filter_append]
      rfl
    · intro m hm
      rw [hrelease, isLive_withoutNodes]
      refine ⟨?_, hlive m (List.mem_cons_of_mem n hm)⟩
      intro hmem
      have heq : m = n := List.mem_singleton.mp (List.mem_of_mem_filter hmem)
      exact hnot (heq ▸ hm)
    · intro m hm g
      rw [hrelease]
      exact hfree m (List.mem_cons_of_mem n hm) g

/-! ## Both ways end in the same heap -/

/-- The members in `ns` are out of `g`, and those that no caller owns have been destroyed. -/
def emptied (s : Heap ν ε) (g : GraphId) (ns : List NodeId) : Heap ν ε :=
  (s.detach g ns).withoutNodes (ns.filter fun n => !s.held n)

theorem nodeRemoveAll_eq (h : s.Kept M) (g : GraphId) :
    s.nodeRemoveAll g = s.emptied g (s.graphNodes g).elems := by
  have hrep := detachAll_represents h.represents g
  have hroster := h.rostered.detachAll g
  change (s.graphNodes g).elems.foldl release (s.detachAll g) = _
  rw [foldl_release_of_free hrep (s.graphNodes g).nodup ?_ ?_, detachAll_eq]
  · rfl
  · intro n hn
    exact (hrep.nodes n).mpr ((h.represents.nodes n).mp (h.rostered.listed hn).isLive)
  · intro n hn g' hmem
    exact (inGraph_detachAll.mp (hroster.listed hmem)).1 hn

theorem nodeRemove_release_eq (h : s.Kept M) {g : GraphId} {n : NodeId} (hn : n ∈ s.graphNodes g) :
    (s.nodeRemove g (.obj n)).release n = s.emptied g [n] := by
  have hin := h.rostered.listed hn
  have hlive : (s.nodeRemove g (.obj n)).isLive n := by
    rw [isLive_nodeRemove h.represents]
    exact hin.isLive
  have hfree := h.rostered.notMem_nodeRemove (inGraph_iff.mp hin).2
  rw [release_of_free (h.represents.nodeRemove g _) hlive hfree, nodeRemove_eq_detach hn]
  rfl

/-- Removing some members one by one, each being released before the next is removed. -/
theorem run_nodeRemove_eq (h : s.Kept M) {g : GraphId} {ns : List NodeId} (hnodup : ns.Nodup)
    (hns : ∀ n ∈ ns, n ∈ s.graphNodes g) :
    Runs.run stepLifetime s (ns.map fun n => .call (.nodeRemove g n)) = .ok (s.emptied g ns) := by
  induction ns generalizing s M with
  | nil => simp [emptied, detach_nil, withoutNodes_nil]
  | cons n ns ih =>
    obtain ⟨hnot, hnodup⟩ := List.nodup_cons.mp hnodup
    have hn := hns n List.mem_cons_self
    have hstep : s.stepLifetime (.call (.nodeRemove g n)) = .ok (s.emptied g [n]) := by
      have hc : g ∈ s.graphs ∧ s.isLive n = true :=
        ⟨h.rostered.alive hn, (h.rostered.listed hn).isLive⟩
      simp only [stepLifetime, step, if_pos hc, nodeRemove_release_eq h hn]
    obtain ⟨M₁, h₁⟩ : ∃ M₁, (s.emptied g [n]).Kept M₁ := by
      obtain ⟨M₁, hrep₁⟩ := stepLifetime_represents h.represents hstep
      exact ⟨M₁, hrep₁, h.rostered.stepLifetime h.represents hstep⟩
    have hrest : ∀ m ∈ ns, m ∈ (s.emptied g [n]).graphNodes g := by
      intro m hm
      have hne : m ≠ n := fun heq => hnot (heq ▸ hm)
      simpa [emptied, withoutNodes, detach, hne] using hns m (List.mem_cons_of_mem n hm)
    rw [List.map_cons, Runs.run_cons_ok stepLifetime hstep, ih h₁ hnodup hrest]
    congr 1
    -- the members that are still to come leave `g` as well as if they had left it before
    have hheld : (s.emptied g [n]).held = s.held := rfl
    have hsplit : n :: ns = [n] ++ ns := rfl
    rw [emptied, hheld, emptied, withoutNodes_detach, detach_detach, withoutNodes_withoutNodes,
      ← List.filter_append, ← hsplit]
    rfl

theorem emptied_congr (s : Heap ν ε) (g : GraphId) {ns ms : List NodeId}
    (h : ∀ n, n ∈ ns ↔ n ∈ ms) : s.emptied g ns = s.emptied g ms := by
  rw [emptied, emptied, detach_congr s g h]
  apply withoutNodes_congr
  intro n
  simp only [List.mem_filter, h]

theorem emptiedLaw (h : s.Kept M) (g : GraphId) :
    EmptiedLaw s (s.emptied g (s.graphNodes g).elems) g := by
  have hheld : ∀ n, n ∈ (s.graphNodes g).elems.filter (fun n => !s.held n) ↔
      n ∈ s.graphNodes g ∧ s.held n = false := by
    intro n
    rw [List.mem_filter, Bool.not_eq_true']
    rfl
  have hlive : ∀ n, (s.detach g (s.graphNodes g).elems).isLive n = s.isLive n := by
    intro n
    rw [← detachAll_eq, Bool.eq_iff_iff, (detachAll_represents h.represents g).nodes,
      h.represents.nodes]
  refine ⟨?_, ?_, ?_, ?_⟩
  · ext n
    simp [nodeGetAll, emptied, withoutNodes, detach]
  · intro n hn
    rw [emptied, isLive_withoutNodes, hlive, hheld]
    have hin := (h.rostered.listed hn).isLive
    constructor
    · rintro ⟨hnot, -⟩
      by_contra hne
      exact hnot ⟨hn, by simpa using hne⟩
    · intro hheldn
      refine ⟨?_, hin⟩
      rintro ⟨-, hne⟩
      rw [hheldn] at hne
      cases hne
  · intro n hn halive
    obtain ⟨hnot, -⟩ := isLive_withoutNodes.mp halive
    obtain ⟨node, hnode⟩ := isLive_iff.mp (h.rostered.listed hn).isLive
    have hmem : n ∈ (s.graphNodes g).elems := hn
    have hcell : (s.detach g (s.graphNodes g).elems).nodes n =
        .live { node with parentGraph := none } := by
      simp only [detach, if_pos hmem, hnode, Cell.mapLive_live]
    simp only [graphGet, emptied, parentGraphOf, nodes_withoutNodes hnot, hcell, Cell.mapLive_live]
  · intro n e halive
    obtain ⟨hnot, hn⟩ := isLive_withoutNodes.mp halive
    rw [emptied, mem_edgesOf_withoutNodes_of_live hnot hn, edgesOf_detach]
    apply and_congr_right
    intro _
    simp only [hheld, edgesOf_detach, nodeGetAll]
    constructor
    · intro hall m hm hdead
      exact hall m ⟨hm, hdead⟩
    · intro hall m hm
      exact hall m hm.1 hm.2

/-- In every state of a run, for every graph and every enumeration of its nodes:
`NodeRemoveAll` and the removals one by one go to the same state, which keeps the law. -/
theorem run_nodeRemoveAll_eq (ops : List (LifetimeOp ν ε)) :
    Runs.Along stepLifetime
      (fun s => ∀ g ∈ s.graphs, ∀ ns : List NodeId, ns.Perm (s.nodeGetAll g).elems →
        ∃ t, s.stepLifetime (.call (.nodeRemoveAll g)) = .ok t ∧
          Runs.run stepLifetime s (ns.map fun n => .call (.nodeRemove g n)) = .ok t ∧
          EmptiedLaw s t g)
      Heap.empty ops := by
  intro before s _ hrun g hg ns hperm
  obtain ⟨M, h⟩ := run_kept hrun
  have hmem : ∀ n, n ∈ ns ↔ n ∈ (s.graphNodes g).elems := fun n => hperm.mem_iff
  refine ⟨s.emptied g (s.graphNodes g).elems, ?_, ?_, emptiedLaw h g⟩
  · simp only [stepLifetime, step, if_pos hg, nodeRemoveAll_eq h]
  · rw [run_nodeRemove_eq h (hperm.nodup_iff.mpr (s.graphNodes g).nodup) fun n hn => (hmem n).mp hn,
      emptied_congr s g hmem]

end Unotu.Graph.Heap
