import Unotu.Graph.Cutting
import Unotu.Graph.Views

/-!
# Disconnecting two nodes

The body of `EdgesGet( Node )` asks an edge for `GetSource` and `GetDestination`, which
`graph_edge` does not have, and returns the set of nodes that it has collected where a set of
edges is promised. So neither it nor `Disconnect` can be instantiated, and both are read as
`ConnectedGet` is: the lookups fail. With the getters that there are, and with the edge inserted
in place of its `Destination`, the law still fails where a node is disconnected from itself.
-/

set_option autoImplicit false

namespace Unotu.Graph.Heap

open Multigraph

variable {ν ε : Type} {s : Heap ν ε} {M : Multigraph NodeId EdgeId}

/-- The names that are looked up in `graph_edge`. -/
inductive EdgeName where
  | sourceGet
  | destinationGet
  | getSource
  | getDestination

/-- The member of that name, with its result locked. -/
def edgeMember (s : Heap ν ε) : EdgeName → Option (EdgeId → NodePtr)
  | .sourceGet => some s.sourceGet
  | .destinationGet => some s.destinationGet
  | .getSource => none
  | .getDestination => none

/-- The conversion of a set of nodes into a set of edges. -/
def asEdges : Option (OrderedSet NodePtr → OrderedSet EdgeId) := none

/-- The loop of `EdgesGet( Node )`, with what it inserts for an edge. -/
def edgesGetBy {α : Type} [LinearOrder α] (s : Heap ν ε) (Source Destination : EdgeId → NodePtr)
    (insert : EdgeId → α) (this : NodeId) (Node : NodePtr) : OrderedSet α :=
  OrderedSet.collect
    (fun Edge => if Source Edge = Node ∨ Destination Edge = Node then some (insert Edge) else none)
    (s.edgesOf this).elems

/-- `EdgesGet( Node )`. -/
def edgesGet (s : Heap ν ε) (this : NodeId) (Node : NodePtr) : Option (OrderedSet EdgeId) := do
  let GetSource ← s.edgeMember .getSource
  let GetDestination ← s.edgeMember .getDestination
  let convert ← asEdges
  return convert ((s.edgesGetBy GetSource GetDestination GetDestination this Node).erase .null)

def cutEdges (s : Heap ν ε) (RelevantEdges : OrderedSet EdgeId) : Heap ν ε :=
  RelevantEdges.elems.foldl cut s

def disconnect (s : Heap ν ε) (this : NodeId) (Node : NodePtr) : Option (Heap ν ε) :=
  (s.edgesGet this Node).map s.cutEdges

/-- `EdgesGet( Node )` with the getters that there are and with the edge inserted. -/
def edgesGetRepaired (s : Heap ν ε) (this : NodeId) (Node : NodePtr) : OrderedSet EdgeId :=
  s.edgesGetBy s.sourceGet s.destinationGet id this Node

/-- The edge has `a` at one end and `b` at the other. -/
def Joins (s : Heap ν ε) (a b : NodeId) (e : EdgeId) : Prop :=
  ∃ edge, s.edges e = some edge ∧
    (edge.source = a ∧ edge.destination = b ∨ edge.source = b ∧ edge.destination = a)

/-- The edges of `a` that join it to `b` are returned, and these and no others are taken out of
every edge set. -/
structure DisconnectLaw (s : Heap ν ε) (a b : NodeId) (Returned : Option (OrderedSet EdgeId))
    (after : Option (Heap ν ε)) : Prop where
  returned : ∃ Edges, Returned = some Edges ∧ ∀ e, e ∈ Edges ↔ s.Holds a e ∧ s.Joins a b e
  disconnected : ∃ t, after = some t ∧ ∀ n e, t.Holds n e ↔ s.Holds n e ∧ ¬ s.Joins a b e

theorem edgesGet_eq_none (s : Heap ν ε) (this : NodeId) (Node : NodePtr) :
    s.edgesGet this Node = none := rfl

theorem not_disconnectLaw (s : Heap ν ε) (a b : NodeId) :
    ¬ s.DisconnectLaw a b (s.edgesGet a (.obj b)) (s.disconnect a (.obj b)) := by
  intro hlaw
  obtain ⟨Edges, hreturned, -⟩ := hlaw.returned
  rw [edgesGet_eq_none] at hreturned
  cases hreturned

/-! ## The repaired body -/

theorem CutLaw.holds_iff {t : Heap ν ε} {es : List EdgeId} (h : CutLaw s t es) (n : NodeId)
    (e : EdgeId) : t.Holds n e ↔ s.Holds n e ∧ e ∉ es := by
  by_cases hn : s.isLive n
  · have hn' : t.isLive n := by rwa [h.isLive]
    rw [← mem_edgesOf_iff_holds hn', ← mem_edgesOf_iff_holds hn, h.edgesOf n e hn]
  · constructor
    · rintro ⟨node, hnode, -⟩
      exact absurd (h.isLive n ▸ isLive_iff.mpr ⟨node, hnode⟩) hn
    · rintro ⟨⟨node, hnode, -⟩, -⟩
      exact absurd (isLive_iff.mpr ⟨node, hnode⟩) hn

namespace Represents

theorem mem_edgesGetRepaired (h : s.Represents M) {a b : NodeId} (ha : s.isLive a) (e : EdgeId) :
    e ∈ s.edgesGetRepaired a (.obj b) ↔ M.Incident e a ∧ (M.source e = b ∨ M.target e = b) := by
  simp only [edgesGetRepaired, edgesGetBy, OrderedSet.mem_collect, OrderedSet.mem_elems, id,
    Option.ite_none_right_eq_some, Option.some.injEq]
  constructor
  · rintro ⟨f, hf, hends, rfl⟩
    have hinc := (h.mem_edgesOf ha).mp hf
    rw [h.sourceGet_eq hinc.1, h.destinationGet_eq hinc.1, NodePtr.obj.injEq,
      NodePtr.obj.injEq] at hends
    exact ⟨hinc, hends⟩
  · rintro ⟨hinc, hends⟩
    refine ⟨e, (h.mem_edgesOf ha).mpr hinc, ?_, rfl⟩
    rwa [h.sourceGet_eq hinc.1, h.destinationGet_eq hinc.1, NodePtr.obj.injEq, NodePtr.obj.injEq]

theorem joins_iff (h : s.Represents M) {a b : NodeId} {e : EdgeId} (he : e ∈ M.edges) :
    s.Joins a b e ↔ M.source e = a ∧ M.target e = b ∨ M.source e = b ∧ M.target e = a := by
  obtain ⟨edge, hedge, hs, hd⟩ := h.ends e he
  rw [← hs, ← hd]
  constructor
  · rintro ⟨edge', hedge', hends⟩
    rw [hedge] at hedge'
    cases hedge'
    exact hends
  · intro hends
    exact ⟨edge, hedge, hends⟩

/-- For a node and itself every edge of the node is returned, a connection or not. -/
theorem mem_edgesGetRepaired_iff (h : s.Represents M) {a b : NodeId} (ha : s.isLive a)
    (hself : a = b → ∀ e, s.Holds a e → s.SelfConnection a e) (e : EdgeId) :
    e ∈ s.edgesGetRepaired a (.obj b) ↔ s.Holds a e ∧ s.Joins a b e := by
  rw [h.mem_edgesGetRepaired ha, h.holds]
  refine and_congr_right fun hinc => ?_
  rw [h.joins_iff hinc.1]
  by_cases hab : a = b
  · obtain ⟨-, hs, ht⟩ := h.selfConnection_iff.mp (hself hab e ((h.holds a e).mpr hinc))
    subst b
    simp [hs, ht]
  · rcases hinc.2 with hend | hend
    · have hsource : M.source e ≠ b := hend ▸ hab
      simp [hend, hab]
    · have htarget : M.target e ≠ b := hend ▸ hab
      simp [hend, hab]

theorem repairedLaw_iff (h : s.Represents M) {a b : NodeId} (ha : s.isLive a) :
    s.DisconnectLaw a b (some (s.edgesGetRepaired a (.obj b)))
        (some (s.cutEdges (s.edgesGetRepaired a (.obj b)))) ↔
      (a = b → ∀ e, s.Holds a e → s.SelfConnection a e) := by
  constructor
  · rintro hlaw rfl e hn
    obtain ⟨Edges, hreturned, hmem⟩ := hlaw.returned
    cases hreturned
    have hinc := (h.holds a e).mp hn
    have hin := (h.mem_edgesGetRepaired ha e).mpr ⟨hinc, hinc.2⟩
    have hjoins := (h.joins_iff hinc.1).mp ((hmem e).mp hin).2
    exact h.selfConnection_iff.mpr ⟨hinc.1, or_self_iff.mp hjoins⟩
  · intro hself
    have hmem := h.mem_edgesGetRepaired_iff ha hself
    refine ⟨⟨_, rfl, hmem⟩, _, rfl, ?_⟩
    intro n e
    rw [cutEdges, (cutLaw h _).holds_iff]
    refine and_congr_right fun hn => not_congr ?_
    rw [OrderedSet.mem_elems, hmem]
    constructor
    · exact And.right
    · intro hjoins
      have he := h.mem_edges hn
      refine ⟨(h.holds a e).mpr ⟨he, ?_⟩, hjoins⟩
      rcases (h.joins_iff he).mp hjoins with ⟨hs, -⟩ | ⟨-, ht⟩
      · exact Or.inl hs
      · exact Or.inr ht

end Represents

/-- In every state that a run reaches, for all living nodes, `EdgesGet` and `Disconnect` do not
keep their law. The repaired body keeps it exactly for two nodes and for a node that is connected
to itself alone. -/
theorem run_disconnectLaw_iff (ops : List (LifetimeOp ν ε)) :
    Runs.Along stepLifetime
      (fun s => ∀ a b, s.isLive a → s.isLive b →
        ¬ s.DisconnectLaw a b (s.edgesGet a (.obj b)) (s.disconnect a (.obj b)) ∧
          (s.DisconnectLaw a b (some (s.edgesGetRepaired a (.obj b)))
              (some (s.cutEdges (s.edgesGetRepaired a (.obj b)))) ↔
            (a = b → ∀ e, s.Holds a e → s.SelfConnection a e)))
      Heap.empty ops := by
  intro before s _ hrun a b ha _
  obtain ⟨M, h⟩ := run_represents hrun
  exact ⟨not_disconnectLaw s a b, h.repairedLaw_iff ha⟩

/-- Two members of one graph with an edge from the first to the second. -/
def connectedRun : List (LifetimeOp Unit Unit) :=
  [.call (.makeGraph 0), .call (.makeNode 0 ()), .call (.makeNode 1 ()), .call (.nodeAdd 0 0),
    .call (.nodeAdd 0 1), .call (.connectTo 0 (.obj 1) () 0)]

/-- The edge between the two is neither returned nor cut. -/
theorem connected_is_not_disconnected :
    ∃ s, Runs.run stepLifetime Heap.empty connectedRun = .ok s ∧ s.isLive 0 ∧ s.isLive 1 ∧
      s.Holds 0 0 ∧ s.Joins 0 1 0 ∧ s.edgesGet 0 (.obj 1) = none ∧ s.disconnect 0 (.obj 1) = none ∧
      ¬ s.DisconnectLaw 0 1 (s.edgesGet 0 (.obj 1)) (s.disconnect 0 (.obj 1)) := by
  have hrun : ∃ s, Runs.run stepLifetime Heap.empty connectedRun = .ok s ∧ s.isLive 0 ∧ s.isLive 1 ∧
      s.Holds 0 0 ∧ s.Joins 0 1 0 :=
    ⟨_, rfl, rfl, rfl, ⟨_, rfl, by decide⟩, _, rfl, Or.inl ⟨rfl, rfl⟩⟩
  obtain ⟨s, hs, h0, h1, hholds, hjoins⟩ := hrun
  exact ⟨s, hs, h0, h1, hholds, hjoins, rfl, rfl, not_disconnectLaw s 0 1⟩

end Unotu.Graph.Heap
