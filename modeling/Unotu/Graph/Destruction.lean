import Unotu.Graph.Effect

/-!
# Destroying a graph

`node_graph` has no destructor of its own: its set of shared pointers goes away and nothing
clears the `ParentGraph` of the members. A member that somebody else owns survives with a
pointer to the destroyed graph.
-/

set_option autoImplicit false

namespace Unotu.Graph

variable {ν ε : Type}

/-- An operation, or the end of the life of a graph. -/
inductive LifetimeOp (ν ε : Type) where
  | call (op : Op ν ε)
  | destroyGraph (g : GraphId)

namespace Heap

open Multigraph

variable {s : Heap ν ε} {M : Multigraph NodeId EdgeId}

/-- The graph and its set are gone; then the members are released one by one. -/
def withoutGraph (s : Heap ν ε) (g : GraphId) : Heap ν ε :=
  { s.setGraphNodes g ∅ with graphs := s.graphs.erase g }

def destroyGraph (s : Heap ν ε) (g : GraphId) : Heap ν ε :=
  (s.graphNodes g).elems.foldl release (s.withoutGraph g)

def stepLifetime (s : Heap ν ε) : LifetimeOp ν ε → Except Fault (Heap ν ε)
  | .call op => s.step op
  | .destroyGraph g => .ok (if g ∈ s.graphs then s.destroyGraph g else s)

/-- Every living node's `ParentGraph` is null or a living graph that contains the node. -/
def ParentsAlive (s : Heap ν ε) : Prop :=
  ∀ n g, s.InGraph n g → g ∈ s.graphs ∧ n ∈ s.graphNodes g

/-- No member of a graph that is destroyed is owned by a caller. -/
def KeepsParents (s : Heap ν ε) : LifetimeOp ν ε → Prop
  | .call _ => True
  | .destroyGraph g => g ∈ s.graphs → ∀ n ∈ s.graphNodes g, s.held n = false

theorem Placed.parentsAlive (hp : s.Placed) : s.ParentsAlive := by
  intro n g hin
  have hmem := (hp.member g n).mpr hin
  exact ⟨hp.alive g n hmem, hmem⟩

/-! ## Releasing the members -/

/-- The edges of the multigraph afterwards are among those before. -/
theorem release_edgesFrom (h : s.Represents M) (n : NodeId) :
    ∃ M', (s.release n).Represents M' ∧ M'.EdgesFrom M := by
  rcases h.mirrored.release_cases n with ⟨hsame, -⟩ | ⟨hgone, hn, -⟩
  · rw [hsame]
    exact ⟨M, h, .refl M⟩
  · rw [hgone]
    exact ⟨_, h.withoutNode hn, edgesFrom_removeNodes M {n}⟩

theorem release_represents (h : s.Represents M) (n : NodeId) :
    ∃ M', (s.release n).Represents M' := by
  obtain ⟨M', h', -⟩ := release_edgesFrom h n
  exact ⟨M', h'⟩

theorem foldl_release_edgesFrom (h : s.Represents M) (ns : List NodeId) :
    ∃ M', (ns.foldl release s).Represents M' ∧ M'.EdgesFrom M := by
  induction ns generalizing s M with
  | nil => exact ⟨M, h, .refl M⟩
  | cons n ns ih =>
    obtain ⟨M₁, h₁, hfrom₁⟩ := release_edgesFrom h n
    obtain ⟨M₂, h₂, hfrom₂⟩ := ih h₁
    exact ⟨M₂, h₂, hfrom₂.trans hfrom₁⟩

theorem foldl_release_represents (h : s.Represents M) (ns : List NodeId) :
    ∃ M', (ns.foldl release s).Represents M' := by
  obtain ⟨M', h', -⟩ := foldl_release_edgesFrom h ns
  exact ⟨M', h'⟩

theorem inGraph_release_of_not_owned (h : s.Represents M) {n : NodeId} (hown : s.owned n = false)
    (m : NodeId) (g : GraphId) : (s.release n).InGraph m g ↔ m ≠ n ∧ s.InGraph m g := by
  rcases h.mirrored.release_cases n with ⟨hsame, hdead⟩ | ⟨hgone, -⟩
  · rw [hsame]
    constructor
    · intro hin
      refine ⟨?_, hin⟩
      intro heq
      subst m
      rw [hdead hin.isLive] at hown
      cases hown
    · exact And.right
  · rw [hgone, inGraph_withoutNode]

/-- Releasing nodes that nobody owns takes exactly these nodes away. -/
theorem foldl_release_not_owned (h : s.Represents M) {ns : List NodeId}
    (hown : ∀ n ∈ ns, s.owned n = false) :
    (∃ M', (ns.foldl release s).Represents M') ∧
      (∀ m g, (ns.foldl release s).InGraph m g ↔ m ∉ ns ∧ s.InGraph m g) ∧
      (ns.foldl release s).graphs = s.graphs ∧ (ns.foldl release s).graphNodes = s.graphNodes := by
  induction ns generalizing s M with
  | nil => exact ⟨⟨M, h⟩, by simp, rfl, rfl⟩
  | cons n ns ih =>
    obtain ⟨hgraphs, hnodes, hheld⟩ := release_frame h n
    obtain ⟨M₁, h₁⟩ := release_represents h n
    have hown₁ : ∀ m ∈ ns, (s.release n).owned m = false := by
      intro m hm
      rw [owned, hheld, hgraphs, hnodes]
      exact hown m (List.mem_cons_of_mem n hm)
    obtain ⟨hrep, hin, hgraphs', hnodes'⟩ := ih h₁ hown₁
    refine ⟨hrep, ?_, hgraphs'.trans hgraphs, hnodes'.trans hnodes⟩
    intro m g
    rw [List.foldl_cons, hin, inGraph_release_of_not_owned h (hown n List.mem_cons_self),
      List.mem_cons, not_or]
    constructor
    · rintro ⟨hns, hn, hmg⟩
      exact ⟨⟨hn, hns⟩, hmg⟩
    · rintro ⟨⟨hn, hns⟩, hmg⟩
      exact ⟨hns, hn, hmg⟩

theorem inGraph_release_of_held (h : s.Represents M) {n : NodeId} {g : GraphId}
    (hheld : s.held n = true) (hin : s.InGraph n g) (m : NodeId) : (s.release m).InGraph n g := by
  rcases h.mirrored.release_cases m with ⟨hsame, -⟩ | ⟨hgone, -, hown⟩
  · rw [hsame]
    exact hin
  · have hne : n ≠ m := by
      intro heq
      subst m
      simp [owned, hheld] at hown
    rw [hgone]
    exact inGraph_withoutNode.mpr ⟨hne, hin⟩

/-- A node that a caller owns keeps its `ParentGraph` through any releases. -/
theorem foldl_release_of_held (h : s.Represents M) {n : NodeId} {g : GraphId}
    (hheld : s.held n = true) (hin : s.InGraph n g) (ns : List NodeId) :
    (ns.foldl release s).InGraph n g ∧ (ns.foldl release s).graphs = s.graphs := by
  induction ns generalizing s M with
  | nil => exact ⟨hin, rfl⟩
  | cons m ns ih =>
    obtain ⟨hgraphs, -, hheld₁⟩ := release_frame h m
    obtain ⟨M₁, h₁⟩ := release_represents h m
    have hheld' : (s.release m).held n = true := by rw [hheld₁, hheld]
    obtain ⟨hin', hgraphs'⟩ := ih h₁ hheld' (inGraph_release_of_held h hheld hin m)
    exact ⟨hin', hgraphs'.trans hgraphs⟩

/-! ## One destruction -/

theorem withoutGraph_represents (h : s.Represents M) (g : GraphId) :
    (s.withoutGraph g).Represents M :=
  h.congr (fun _ => rfl) (fun _ _ => Iff.rfl) rfl

theorem inGraph_withoutGraph (g : GraphId) (n : NodeId) (g' : GraphId) :
    (s.withoutGraph g).InGraph n g' ↔ s.InGraph n g' := Iff.rfl

theorem mem_withoutGraph {g g' : GraphId} {n : NodeId} :
    n ∈ (s.withoutGraph g).graphNodes g' ↔ g' ≠ g ∧ n ∈ s.graphNodes g' := by
  change n ∈ (s.setGraphNodes g ∅).graphNodes g' ↔ _
  rw [mem_setGraphNodes]
  split
  · rename_i heq
    simp [heq]
  · rename_i hne
    simp [hne]

theorem owned_withoutGraph (hp : s.Placed) {g : GraphId} {n : NodeId} (hn : n ∈ s.graphNodes g)
    (hheld : s.held n = false) : (s.withoutGraph g).owned n = false := by
  have hnone : ∀ g', n ∉ (s.withoutGraph g).graphNodes g' := by
    intro g' hmem
    obtain ⟨hne, hmem⟩ := mem_withoutGraph.mp hmem
    exact hne (((hp.member g' n).mp hmem).unique ((hp.member g n).mp hn))
  have hheld' : (s.withoutGraph g).held n = false := hheld
  simp [owned, hheld', hnone]

theorem destroyGraph_sound (h : s.Sound) {g : GraphId}
    (hheld : ∀ n ∈ s.graphNodes g, s.held n = false) : (s.destroyGraph g).Sound := by
  obtain ⟨hp, M, hrep⟩ := h
  have hown : ∀ n ∈ (s.graphNodes g).elems, (s.withoutGraph g).owned n = false :=
    fun n hn => owned_withoutGraph hp hn (hheld n hn)
  obtain ⟨hrep', hin, hgraphs, hnodes⟩ :=
    foldl_release_not_owned (withoutGraph_represents hrep g) hown
  refine ⟨⟨?_, ?_⟩, hrep'⟩
  · intro g' n
    rw [destroyGraph, hnodes, hin, inGraph_withoutGraph, mem_withoutGraph, OrderedSet.mem_elems,
      ← hp.member g' n]
    constructor
    · rintro ⟨hne, hmem⟩
      refine ⟨?_, hmem⟩
      intro hmem'
      exact hne (((hp.member g' n).mp hmem).unique ((hp.member g n).mp hmem'))
    · rintro ⟨hnot, hmem⟩
      refine ⟨?_, hmem⟩
      intro heq
      exact hnot (heq ▸ hmem)
  · intro g' n hmem
    rw [destroyGraph, hnodes] at hmem
    obtain ⟨hne, hmem⟩ := mem_withoutGraph.mp hmem
    rw [destroyGraph, hgraphs]
    exact OrderedSet.mem_erase.mpr ⟨hp.alive g' n hmem, hne⟩

theorem destroyGraph_dangles (h : s.Sound) {g : GraphId} {n : NodeId} (hn : n ∈ s.graphNodes g)
    (hheld : s.held n = true) : ¬ (s.destroyGraph g).ParentsAlive := by
  obtain ⟨hp, M, hrep⟩ := h
  have hin : (s.withoutGraph g).InGraph n g := (hp.member g n).mp hn
  obtain ⟨hin', hgraphs⟩ := foldl_release_of_held (withoutGraph_represents hrep g) hheld hin
    (s.graphNodes g).elems
  intro halive
  have hg := (halive n g hin').1
  rw [destroyGraph, hgraphs] at hg
  exact (OrderedSet.mem_erase.mp hg).2 rfl

/-! ## Runs -/

theorem stepLifetime_cases (h : s.Sound) (op : LifetimeOp ν ε) :
    ∃ t, s.stepLifetime op = .ok t ∧ (s.KeepsParents op → t.Sound) ∧
      (t.ParentsAlive → s.KeepsParents op) := by
  cases op with
  | call op =>
    obtain ⟨t, ht, hsound⟩ := step_sound h op
    exact ⟨t, ht, fun _ => hsound, fun _ => trivial⟩
  | destroyGraph g =>
    by_cases hg : g ∈ s.graphs
    · refine ⟨s.destroyGraph g, by simp only [stepLifetime, if_pos hg], ?_, ?_⟩
      · intro hkeeps
        exact destroyGraph_sound h (hkeeps hg)
      · intro halive _ n hn
        cases hheld : s.held n with
        | false => rfl
        | true => exact absurd halive (destroyGraph_dangles h hn hheld)
    · exact ⟨s, by simp only [stepLifetime, if_neg hg], fun _ => h, fun _ hg' => absurd hg' hg⟩

/-- Along a run no living node points to a destroyed graph exactly when no graph is
destroyed while a caller owns one of its members, and such a run never faults. -/
theorem run_parentsAlive_iff (ops : List (LifetimeOp ν ε)) :
    (Runs.Along stepLifetime ParentsAlive Heap.empty ops ↔
      Runs.EveryStep stepLifetime KeepsParents Heap.empty ops) ∧
    (Runs.EveryStep stepLifetime KeepsParents Heap.empty ops →
      ∃ s, Runs.run stepLifetime Heap.empty ops = .ok s ∧ s.Sound) := by
  constructor
  · exact Runs.along_iff_everyStep_of_inv stepLifetime (fun s hs => hs.1.parentsAlive)
      (fun s op hs => stepLifetime_cases hs op) sound_empty ops
  · intro hkeeps
    refine Runs.run_ok_of_everyStep stepLifetime ?_ sound_empty hkeeps
    intro s op hs hop
    obtain ⟨t, ht, hsound, -⟩ := stepLifetime_cases hs op
    exact ⟨t, ht, hsound hop⟩

/-! ## Edges do not depend on the graphs -/

/-- Only `ConnectTo` adds edges. -/
theorem step_edgesFrom (h : s.Represents M) {op : Op ν ε} {t : Heap ν ε} (ht : s.step op = .ok t)
    (hop : ∀ this Destination Data e, op ≠ .connectTo this Destination Data e) :
    ∃ M', t.Represents M' ∧ M'.EdgesFrom M := by
  cases step_effect ht with
  | nothing => exact ⟨M, h, .refl M⟩
  | makeGraph => exact ⟨M, makeGraph_represents h _, .refl M⟩
  | makeNode hunused => exact ⟨_, makeNode_represents h hunused _, .refl M⟩
  | hold _ => exact ⟨M, h.setHeld _ true, .refl M⟩
  | drop _ => exact release_edgesFrom (h.setHeld _ false) _
  | enter _ _ _ => exact ⟨M, h.enterGraph _ _, .refl M⟩
  | move _ _ _ _ => exact ⟨M, (h.nodeRemove _ _).enterGraph _ _, .refl M⟩
  | remove _ _ => exact release_edgesFrom (h.nodeRemove _ _) _
  | removeAll _ => exact foldl_release_edgesFrom (detachAll_represents h _) _
  | connect _ _ _ => exact absurd rfl (hop _ _ _ _)
  | cut => exact ⟨_, h.cut _, edgesFrom_removeEdges M _⟩

/-- A step that does not fault keeps the heap representing a multigraph, also after a graph
was destroyed under its members. -/
theorem step_represents (h : s.Represents M) {op : Op ν ε} {t : Heap ν ε}
    (ht : s.step op = .ok t) : ∃ M', t.Represents M' := by
  by_cases hop : ∃ this Destination Data e, op = .connectTo this Destination Data e
  · obtain ⟨this, Destination, Data, e, rfl⟩ := hop
    cases step_effect ht with
    | nothing => exact ⟨M, h⟩
    | connect hthis hd hfresh =>
      exact ⟨_, (addEdge_represents h Data ((h.nodes _).mp hthis) ((h.nodes _).mp hd) hfresh).2⟩
  · obtain ⟨M', h', -⟩ := step_edgesFrom h ht fun this Destination Data e heq =>
      hop ⟨this, Destination, Data, e, heq⟩
    exact ⟨M', h'⟩

theorem stepLifetime_represents (h : s.Represents M) {op : LifetimeOp ν ε} {t : Heap ν ε}
    (ht : s.stepLifetime op = .ok t) : ∃ M', t.Represents M' := by
  cases op with
  | call op => exact step_represents h ht
  | destroyGraph g =>
    cases ht
    split
    · exact foldl_release_represents (withoutGraph_represents h g) _
    · exact ⟨M, h⟩

theorem run_represents {ops : List (LifetimeOp ν ε)}
    (h : Runs.run stepLifetime Heap.empty ops = .ok s) : ∃ M, s.Represents M :=
  Runs.run_preserves stepLifetime (P := fun s => ∃ M, s.Represents M)
    (fun _ _ _ ⟨_, hrep⟩ ht => stepLifetime_represents hrep ht) ⟨_, empty_represents⟩ h

/-- A member that its creator still owns when the graph goes away. -/
def orphaningRun : List (LifetimeOp Unit Unit) :=
  [.call (.makeGraph 0), .call (.makeNode 0 ()), .call (.nodeAdd 0 0), .destroyGraph 0]

/-- The node keeps its pointer, and adding it to another graph goes through it. -/
theorem orphan_keeps_parent :
    (∃ s, Runs.run stepLifetime Heap.empty orphaningRun = .ok s ∧ ¬ s.ParentsAlive) ∧
      Runs.run stepLifetime Heap.empty
        (orphaningRun ++ [.call (.makeGraph 1), .call (.nodeAdd 1 0)]) = .error .destroyedObject := by
  refine ⟨⟨_, rfl, ?_⟩, rfl⟩
  intro halive
  obtain ⟨hg, -⟩ := halive 0 0 ⟨_, rfl, rfl⟩
  exact absurd hg (by decide)

end Heap

end Unotu.Graph
