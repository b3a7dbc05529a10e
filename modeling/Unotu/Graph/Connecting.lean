import Unotu.Graph.Roster

/-!
# What `ConnectTo` adds

`ConnectTo` compares the two `ParentGraph` pointers and then asks the graph for a shared pointer
to the source. It adds exactly one edge or refuses and changes nothing, as long as the graph
behind the common pointer still lists the source, which it does until it is destroyed.
-/

set_option autoImplicit false

namespace Unotu.Graph.Heap

open Multigraph

variable {ν ε : Type} {s t : Heap ν ε} {M : Multigraph NodeId EdgeId}

/-- `Destination` points to a node with the `ParentGraph` of `this`, which is not null. -/
def Connectable (s : Heap ν ε) (this : NodeId) (Destination : NodePtr) : Prop :=
  ∃ d g, Destination = .obj d ∧ s.graphGet this = some g ∧ s.graphGet d = some g

/-- The heap `t` has one edge more than `s`, from `this` to `d`, and nothing else differs. -/
structure AddsEdge (s t : Heap ν ε) (this d : NodeId) (Data : ε) (e : EdgeId) : Prop where
  new : ∀ n, ¬ s.Holds n e
  created : t.edges e = some ⟨this, d, Data⟩
  existing : ∀ f, f ≠ e → t.edges f = s.edges f
  isLive : ∀ n, t.isLive n = s.isLive n
  edgesOf : ∀ n f, s.isLive n →
    (f ∈ t.edgesOf n ↔ f ∈ s.edgesOf n ∨ f = e ∧ (n = this ∨ n = d))
  graphGet : ∀ n, t.graphGet n = s.graphGet n
  nodeGetAll : ∀ g, t.nodeGetAll g = s.nodeGetAll g

structure ConnectLaw (s : Heap ν ε) (this : NodeId) (Destination : NodePtr) (Data : ε)
    (e : EdgeId) : Prop where
  accepted : s.Connectable this Destination → ∃ d t, Destination = .obj d ∧
    s.connectTo this Destination Data e = .ok (true, t) ∧ s.AddsEdge t this d Data e
  refused : ¬ s.Connectable this Destination →
    s.connectTo this Destination Data e = .ok (false, s)

/-- The graph that both nodes point to lists `this` among its nodes. -/
def Listed (s : Heap ν ε) (this : NodeId) (Destination : NodePtr) : Prop :=
  ∀ d g, Destination = .obj d → s.graphGet this = some g → s.graphGet d = some g →
    this ∈ s.nodeGetAll g

theorem graphGet_insertEdge (n m : NodeId) (e : EdgeId) :
    (s.insertEdge n e).graphGet m = s.graphGet m := by
  by_cases hm : m = n
  · subst m
    simp only [graphGet, parentGraphOf, insertEdge, modifyNode_nodes, if_true]
    cases s.nodes n <;> rfl
  · simp only [graphGet, parentGraphOf, insertEdge, modifyNode_nodes, if_neg hm]

theorem addsEdge_addEdge (h : s.Represents M) {this d : NodeId} (Data : ε) {e : EdgeId}
    (hthis : s.isLive this) (hd : s.isLive d) (hfresh : s.edges e = none) :
    s.AddsEdge (s.addEdge this d e ⟨this, d, Data⟩) this d Data e := by
  refine ⟨?_, ?_, ?_, fun _ => isLive_addEdge, ?_, ?_, fun _ => rfl⟩
  · intro n hn
    obtain ⟨edge, hedge, -⟩ := h.ends e (h.mem_edges hn)
    rw [hfresh] at hedge
    cases hedge
  · exact Function.update_self ..
  · intro f hf
    exact Function.update_of_ne hf ..
  · intro n f hn
    have hn' : (s.addEdge this d e ⟨this, d, Data⟩).isLive n := by rwa [isLive_addEdge]
    obtain ⟨node, hnode⟩ := isLive_iff.mp hn
    obtain ⟨node', hnode'⟩ := isLive_iff.mp hn'
    rw [edgesOf_of_live hnode, edgesOf_of_live hnode', ← holds_iff_of_live hnode,
      ← holds_iff_of_live hnode', holds_addEdge hthis hd, eq_comm (a := this), eq_comm (a := d)]
  · intro n
    rw [addEdge, graphGet_insertEdge, graphGet_insertEdge]
    rfl

theorem connectLaw_of_listed (h : s.Kept M) {this : NodeId} {Destination : NodePtr} (Data : ε)
    {e : EdgeId} (hthis : s.isLive this) (hpass : s.canPass Destination)
    (hfresh : s.edges e = none) (hlisted : s.Listed this Destination) :
    s.ConnectLaw this Destination Data e := by
  constructor
  · rintro ⟨d, g, rfl, hg, hdg⟩
    have hd : s.isLive d := hpass
    have hmem : this ∈ s.graphNodes g := hlisted d g rfl hg hdg
    have halive : g ∈ s.graphs := h.rostered.alive hmem
    rw [graphGet] at hg hdg
    refine ⟨d, s.addEdge this d e ⟨this, d, Data⟩, rfl, ?_, ?_⟩
    · simp [connectTo, hg, hdg, halive, nodeGetShared_of_mem hmem, GraphEdge.make, Except.map]
    · exact addsEdge_addEdge h.represents Data hthis hd hfresh
  · intro hnot
    cases Destination with
    | null => rfl
    | obj d =>
      cases hg : s.parentGraphOf this with
      | none => simp [connectTo, hg]
      | some g =>
        have hdg : s.parentGraphOf d ≠ some g := fun hdg => hnot ⟨d, g, rfl, hg, hdg⟩
        simp [connectTo, hg, hdg]

/-- A graph that does not list `this` has been destroyed, or another one was made in its place. -/
theorem not_connectLaw_of_not_listed {this : NodeId} {Destination : NodePtr} {Data : ε}
    {e : EdgeId} (hlisted : ¬ s.Listed this Destination) :
    ¬ s.ConnectLaw this Destination Data e := by
  intro hlaw
  apply hlisted
  intro d g hd hg hdg
  by_contra hmem
  obtain ⟨d', t, -, ht, -⟩ := hlaw.accepted ⟨d, g, hd, hg, hdg⟩
  subst hd
  rw [graphGet] at hg hdg
  rw [nodeGetAll] at hmem
  by_cases halive : g ∈ s.graphs
  · simp [connectTo, hg, hdg, halive, nodeGetShared_eq, hmem] at ht
  · simp [connectTo, hg, hdg, halive] at ht

/-- In every state of a run, for every call that a caller can make, the law holds exactly when
the common graph lists the source. It always does in a run that destroys no graph while a
caller owns one of its members. -/
theorem run_connectLaw_iff (ops : List (LifetimeOp ν ε)) :
    Runs.Along stepLifetime
      (fun s => ∀ this Destination Data e, s.isLive this → s.canPass Destination →
        s.edges e = none →
        (s.ConnectLaw this Destination Data e ↔ s.Listed this Destination))
      Heap.empty ops ∧
    (Runs.EveryStep stepLifetime KeepsParents Heap.empty ops →
      Runs.Along stepLifetime
        (fun s => ∀ this Destination Data e, s.isLive this → s.canPass Destination →
          s.edges e = none → s.ConnectLaw this Destination Data e)
        Heap.empty ops) := by
  constructor
  · intro before s _ hrun this Destination Data e hthis hpass hfresh
    obtain ⟨M, h⟩ := run_kept hrun
    constructor
    · intro hlaw
      by_contra hlisted
      exact not_connectLaw_of_not_listed hlisted hlaw
    · exact connectLaw_of_listed h Data hthis hpass hfresh
  · intro hkeeps before s hbefore hrun this Destination Data e hthis hpass hfresh
    obtain ⟨M, h⟩ := run_kept hrun
    have halive := (run_parentsAlive_iff ops).1.mpr hkeeps before s hbefore hrun
    apply connectLaw_of_listed h Data hthis hpass hfresh
    intro d g _ hg _
    exact (halive this g (inGraph_iff.mpr ⟨hthis, hg⟩)).2

/-- Two members of one graph, both still owned when it is destroyed. -/
def orphanedPair : List (LifetimeOp Unit Unit) :=
  [.call (.makeGraph 0), .call (.makeNode 0 ()), .call (.makeNode 1 ()), .call (.nodeAdd 0 0),
    .call (.nodeAdd 0 1), .destroyGraph 0]

/-- Both still point to the destroyed graph, and `ConnectTo` goes through it. -/
theorem orphans_do_not_connect :
    ∃ s, Runs.run stepLifetime Heap.empty orphanedPair = .ok s ∧ s.isLive 0 ∧ s.isLive 1 ∧
      s.edges 0 = none ∧ s.Connectable 0 (.obj 1) ∧
      s.connectTo 0 (.obj 1) () 0 = .error .destroyedObject ∧ ¬ s.ConnectLaw 0 (.obj 1) () 0 := by
  refine ⟨_, rfl, rfl, rfl, rfl, ⟨1, 0, rfl, rfl, rfl⟩, rfl, ?_⟩
  intro hlaw
  obtain ⟨d, t, -, ht, -⟩ := hlaw.accepted ⟨1, 0, rfl, rfl, rfl⟩
  cases ht

end Unotu.Graph.Heap
