import Unotu.Graph.Destruction

/-!
# What a destructor changes

A destructor runs when the last shared pointer to its node goes away, in the middle of a step
too: `NodeRemoveAll` and the end of a graph release one member after the other. In each of
these heaps the destructor takes the incident edges out of the other sets and leaves the rest
as it was.
-/

set_option autoImplicit false

namespace Unotu.Graph.Heap

open Multigraph

variable {ν ε : Type} {s t : Heap ν ε} {M : Multigraph NodeId EdgeId}

/-- `n` is the `Source` or the `Destination` of the edge. -/
def HasEnd (s : Heap ν ε) (e : EdgeId) (n : NodeId) : Prop :=
  ∃ edge, s.edges e = some edge ∧ (edge.source = n ∨ edge.destination = n)

/-- The heap in which the loop of `~graph_node` starts. -/
def dyingNode (s : Heap ν ε) (n : NodeId) : Heap ν ε :=
  match s.nodes n with
  | .live node => { s with nodes := Function.update s.nodes n (.dying node) }
  | _ => s

/-- A shared pointer to `n` goes away in the heap `t`, on the way of one step from `s`. -/
inductive Releases (s : Heap ν ε) : LifetimeOp ν ε → Heap ν ε → NodeId → Prop where
  | dropNode {n : NodeId} : s.isLive n → Releases s (.call (.dropNode n)) (s.setHeld n false) n
  | nodeRemove {g : GraphId} {n : NodeId} : g ∈ s.graphs → s.isLive n →
      Releases s (.call (.nodeRemove g n)) (s.nodeRemove g (.obj n)) n
  | nodeRemoveAll {g : GraphId} {n : NodeId} {before after : List NodeId} : g ∈ s.graphs →
      (s.graphNodes g).elems = before ++ n :: after →
      Releases s (.call (.nodeRemoveAll g)) (before.foldl release (s.detachAll g)) n
  | destroyGraph {g : GraphId} {n : NodeId} {before after : List NodeId} : g ∈ s.graphs →
      (s.graphNodes g).elems = before ++ n :: after →
      Releases s (.destroyGraph g) (before.foldl release (s.withoutGraph g)) n

/-- The pointer that goes away is the last one. -/
structure DropsLast (s : Heap ν ε) (op : LifetimeOp ν ε) (t : Heap ν ε) (n : NodeId) : Prop where
  releases : s.Releases op t n
  live : t.isLive n
  last : t.owned n = false

/-- The destructor of `n`, from the heap in which the last pointer to `n` goes away. In the loop
`es` are the edges that have been cut so far. -/
structure DestructorLaw (s : Heap ν ε) (n : NodeId) : Prop where
  destroyed : s.release n = s.destroyNode n
  survivors : ∀ m, (s.destroyNode n).isLive m ↔ m ≠ n ∧ s.isLive m
  edgesOf : ∀ m e, m ≠ n → s.isLive m →
    (e ∈ (s.destroyNode n).edgesOf m ↔ e ∈ s.edgesOf m ∧ ¬ s.HasEnd e n)
  parentGraphOf : ∀ m, m ≠ n → (s.destroyNode n).parentGraphOf m = s.parentGraphOf m
  graphs : (s.destroyNode n).graphs = s.graphs ∧ (s.destroyNode n).graphNodes = s.graphNodes
  ends : (s.destroyNode n).edges = s.edges
  noLock : ∀ es, es <+: (s.edgesOf n).elems → (es.foldl cut (s.dyingNode n)).lock n = .null
  noErasure : ∀ es, es <+: (s.edgesOf n).elems →
    (es.foldl cut (s.dyingNode n)).edgesOf n = s.edgesOf n

/-! ## The law -/

theorem dyingNode_of_live {n : NodeId} {node : GraphNode ν} (h : s.nodes n = .live node) :
    s.dyingNode n = { s with nodes := Function.update s.nodes n (.dying node) } := by
  simp only [dyingNode, h]

theorem Represents.hasEnd_iff (h : s.Represents M) {m n : NodeId} {e : EdgeId}
    (hm : s.Holds m e) : s.HasEnd e n ↔ s.Holds n e := by
  have he := h.mem_edges hm
  rw [h.holds]
  constructor
  · rintro ⟨edge, hedge, hend⟩
    obtain ⟨hs, hd⟩ := h.ends_of_edge he hedge
    rw [hs, hd] at hend
    exact ⟨he, hend⟩
  · rintro ⟨-, hend⟩
    obtain ⟨edge, hedge, hs, hd⟩ := h.ends e he
    exact ⟨edge, hedge, by rwa [hs, hd]⟩

/-- The set of the dying node stays out of reach of every `Cut` of the loop. -/
theorem foldl_cut_dyingNode (h : s.Represents M) {n : NodeId} {node : GraphNode ν}
    (hnode : s.nodes n = .live node) (es : List EdgeId) :
    (es.foldl cut (s.dyingNode n)).nodes n = .dying node := by
  have hdying := h.mirrored.dying n node
  rw [dyingNode_of_live hnode, hdying.foldl_cut_eq]
  simp [Heap.eraseEdges]

theorem edgesOf_withoutNode {n m : NodeId} {e : EdgeId} (hne : m ≠ n) (hm : s.isLive m) :
    e ∈ (s.withoutNode n).edgesOf m ↔ e ∈ s.edgesOf m ∧ e ∉ s.edgesOf n := by
  rw [mem_edgesOf_of_filter (nodes_withoutNode hne) hm]
  simp

theorem parentGraphOf_withoutNode {n m : NodeId} (hne : m ≠ n) :
    (s.withoutNode n).parentGraphOf m = s.parentGraphOf m := by
  simp only [Heap.parentGraphOf, withoutNode, if_neg hne]
  cases s.nodes m <;> rfl

theorem destructorLaw (h : s.Represents M) {n : NodeId} (hn : s.isLive n)
    (hlast : s.owned n = false) : s.DestructorLaw n := by
  obtain ⟨node, hnode⟩ := isLive_iff.mp hn
  have hdestroy := h.mirrored.destroyNode_eq hn
  have hloop : ∀ es : List EdgeId, (es.foldl cut (s.dyingNode n)).nodes n = .dying node :=
    fun es => foldl_cut_dyingNode h hnode es
  refine ⟨?_, ?_, ?_, ?_, ?_, ?_, ?_, ?_⟩
  · simp [release, hlast]
  · intro m
    rw [hdestroy]
    exact isLive_withoutNode
  · intro m e hne hm
    rw [hdestroy, edgesOf_withoutNode hne hm]
    apply and_congr_right
    intro he
    obtain ⟨node', hnode'⟩ := isLive_iff.mp hm
    rw [edgesOf_of_live hnode', ← holds_iff_of_live hnode'] at he
    rw [h.hasEnd_iff he, holds_iff_of_live hnode, edgesOf_of_live hnode]
  · intro m hne
    rw [hdestroy, parentGraphOf_withoutNode hne]
  · rw [hdestroy]
    exact ⟨rfl, rfl⟩
  · rw [hdestroy]
    rfl
  · intro es _
    simp only [lock, hloop es]
  · intro es _
    rw [edgesOf_of_live hnode]
    simp only [Heap.edgesOf, hloop es]

/-! ## Every destruction of a run is one of these -/

theorem Releases.represents {op : LifetimeOp ν ε} {n : NodeId} (h : s.Represents M)
    (hr : s.Releases op t n) : ∃ M', t.Represents M' := by
  cases hr with
  | dropNode _ => exact ⟨M, h.setHeld n false⟩
  | nodeRemove _ _ => exact ⟨M, h.nodeRemove _ _⟩
  | nodeRemoveAll _ _ => exact foldl_release_represents (detachAll_represents h _) _
  | destroyGraph _ _ => exact foldl_release_represents (withoutGraph_represents h _) _

theorem isLive_release_of_owned (h : s.Represents M) {n m : NodeId} (hm : s.isLive m)
    (hdead : (s.release n).isLive m = false) : m = n ∧ s.owned n = false := by
  rcases h.mirrored.release_cases n with ⟨hsame, -⟩ | ⟨hgone, -, hown⟩
  · rw [hsame, hm] at hdead
    cases hdead
  · refine ⟨?_, hown⟩
    by_contra hne
    rw [hgone, isLive_withoutNode.mpr ⟨hne, hm⟩] at hdead
    cases hdead

/-- A node that does not survive some releases was released when nobody else owned it. -/
theorem exists_last_release (h : s.Represents M) {ns : List NodeId} {m : NodeId} (hm : s.isLive m)
    (hdead : (ns.foldl release s).isLive m = false) :
    ∃ before after, ns = before ++ m :: after ∧ (before.foldl release s).isLive m ∧
      (before.foldl release s).owned m = false := by
  induction ns generalizing s M with
  | nil =>
    rw [List.foldl_nil, hm] at hdead
    cases hdead
  | cons n ns ih =>
    cases hn : (s.release n).isLive m with
    | false =>
      obtain ⟨rfl, hown⟩ := isLive_release_of_owned h hm hn
      exact ⟨[], ns, rfl, hm, hown⟩
    | true =>
      obtain ⟨M₁, h₁⟩ := release_represents h n
      obtain ⟨before, after, rfl, hlive, hown⟩ := ih h₁ hn hdead
      exact ⟨n :: before, after, rfl, hlive, hown⟩

theorem isLive_makeNode {n m : NodeId} (hunused : s.nodes n = .unused) {Data : ν}
    (hm : s.isLive m) : (s.makeNode n Data).isLive m := by
  obtain ⟨node, hnode⟩ := isLive_iff.mp hm
  have hne : m ≠ n := by
    intro heq
    rw [heq, hunused] at hnode
    cases hnode
  exact isLive_iff.mpr ⟨node, by simp [makeNode, hunused, hne, hnode]⟩

/-- Only the steps that release pointers destroy nodes. -/
theorem exists_dropsLast (h : s.Represents M) {op : LifetimeOp ν ε} {s' : Heap ν ε}
    (hs' : s.stepLifetime op = .ok s') {m : NodeId} (hm : s.isLive m)
    (hdead : s'.isLive m = false) : ∃ t, s.DropsLast op t m := by
  have hkept : ∀ u : Heap ν ε, u.isLive m = true → u.isLive m = false →
      ∃ t, s.DropsLast op t m := by
    intro u hlive hnot
    rw [hlive] at hnot
    cases hnot
  have hsame : ∀ {u : Heap ν ε}, u.Represents M → u.isLive m :=
    fun hrep => (hrep.nodes m).mpr ((h.nodes m).mp hm)
  cases op with
  | destroyGraph g =>
    cases hs'
    split at hdead
    · rename_i hg
      obtain ⟨before, after, hsplit, hlive, hown⟩ :=
        exists_last_release (withoutGraph_represents h g) hm hdead
      exact ⟨_, .destroyGraph hg hsplit, hlive, hown⟩
    · exact hkept s hm hdead
  | call op =>
    cases step_effect hs' with
    | nothing => exact hkept s hm hdead
    | makeGraph => exact hkept _ (hsame (makeGraph_represents h _)) hdead
    | makeNode hunused => exact hkept _ (isLive_makeNode hunused hm) hdead
    | hold _ => exact hkept s hm hdead
    | drop hn =>
      obtain ⟨rfl, hown⟩ := isLive_release_of_owned (h.setHeld _ false) hm hdead
      exact ⟨_, .dropNode hn, hn, hown⟩
    | enter _ _ _ => exact hkept _ (hsame (h.enterGraph _ _)) hdead
    | move _ _ _ _ => exact hkept _ (hsame ((h.nodeRemove _ _).enterGraph _ _)) hdead
    | @remove g n hg hn =>
      have hrep := h.nodeRemove g (.obj n)
      have hlive := hsame hrep
      obtain ⟨rfl, hown⟩ := isLive_release_of_owned hrep hlive hdead
      exact ⟨_, .nodeRemove hg hn, hlive, hown⟩
    | @removeAll g hg =>
      have hrep := detachAll_represents h g
      obtain ⟨before, after, hsplit, hlast, hown⟩ :=
        exists_last_release hrep (hsame hrep) hdead
      exact ⟨_, .nodeRemoveAll hg hsplit, hlast, hown⟩
    | connect _ _ _ =>
      rw [isLive_addEdge] at hdead
      exact hkept s hm hdead
    | cut => exact hkept _ (((h.cut _).nodes m).mpr ((h.nodes m).mp hm)) hdead

/-- In every state of a run, whatever the next step is: each destructor that runs in it keeps
its law, and a node that does not survive the step had such a destructor. -/
theorem run_destructorLaw (ops : List (LifetimeOp ν ε)) :
    Runs.Along stepLifetime
      (fun s => (∀ op t n, s.DropsLast op t n → t.DestructorLaw n) ∧
        ∀ op s' n, s.stepLifetime op = .ok s' → s.isLive n → s'.isLive n = false →
          ∃ t, s.DropsLast op t n)
      Heap.empty ops := by
  intro before s _ hrun
  obtain ⟨M, h⟩ := run_represents hrun
  constructor
  · intro op t n hdrop
    obtain ⟨M', h'⟩ := hdrop.releases.represents h
    exact destructorLaw h' hdrop.live hdrop.last
  · intro op s' n hs' hn hdead
    exact exists_dropsLast h hs' hn hdead

end Unotu.Graph.Heap
