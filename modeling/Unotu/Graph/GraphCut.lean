import Unotu.Graph.Roster

/-!
# Removing a node through a raw pointer

`NodeRemove` with a raw pointer looks for `ParentGraph` in the graph it is called on. That is a
member of `graph_node` and a `node_graph` has none, so neither this overload nor `GraphCut`, which
delegates to it, can be instantiated. Both are read as `ConnectedGet` and `EdgesGet( Node )` are:
the body is a function of what it looks up, and the lookup fails. With the graph itself in place
of the field both do what the overload for a shared pointer does.
-/

set_option autoImplicit false

namespace Unotu.Graph.Heap

open Multigraph

variable {ν ε : Type} {s : Heap ν ε} {M : Multigraph NodeId EdgeId}

/-- The field that `this->ParentGraph` names in a member of `node_graph`. -/
def graphField : Option (GraphId → Option GraphId) := none

/-- `NodeRemove( Node )` with a shared pointer, which is released after the call. -/
def removeShared (s : Heap ν ε) (g : GraphId) : NodePtr → Heap ν ε
  | .null => s.nodeRemove g .null
  | .obj n => (s.nodeRemove g (.obj n)).release n

/-- What the raw overload does with the value of the field. -/
def removeThroughField (s : Heap ν ε) (g : GraphId) (Node : NodeId) :
    Option GraphId → Except Fault (Heap ν ε)
  | none => .error (.assertion "Should have parent graph.")
  | some ParentGraph =>
    if ParentGraph ∈ s.graphs then .ok (s.removeShared g (s.nodeGetShared ParentGraph Node))
    else .error .destroyedObject

/-- `NodeRemove( Node )` with a raw pointer. -/
def nodeRemoveRaw (s : Heap ν ε) (g : GraphId) (Node : NodeId) :
    Option (Except Fault (Heap ν ε)) :=
  graphField.map fun field => s.removeThroughField g Node (field g)

/-- The body of `GraphCut`. -/
def graphCutBy (field : GraphId → Option GraphId) (s : Heap ν ε) (this : NodeId) :
    Except Fault (Heap ν ε) :=
  match s.parentGraphOf this with
  | some ParentGraph => s.removeThroughField ParentGraph this (field ParentGraph)
  | none => .ok s

def graphCut (s : Heap ν ε) (this : NodeId) : Option (Except Fault (Heap ν ε)) :=
  graphField.map fun field => s.graphCutBy field this

/-- `cut` is what `GraphCut` leads to. -/
structure GraphCutLaw (s : Heap ν ε) (n : NodeId) (cut : Option (Except Fault (Heap ν ε))) :
    Prop where
  member : ∀ g, s.graphGet n = some g → cut = some (.ok (s.removeShared g (.obj n)))
  alone : s.graphGet n = none → cut = some (.ok s)
  after : ∃ t, cut = some (.ok t) ∧ t.graphGet n = none ∧ ∀ g, n ∉ t.nodeGetAll g

structure RemovalsAgree (s : Heap ν ε) (g : GraphId) (n : NodeId) : Prop where
  raw : s.nodeRemoveRaw g n = some (.ok (s.removeShared g (.obj n)))
  nonMember : n ∉ s.nodeGetAll g → s.removeShared g (.obj n) = s
  graphCut : s.GraphCutLaw n (s.graphCut n)

theorem nodeRemoveRaw_eq_none (s : Heap ν ε) (g : GraphId) (n : NodeId) :
    s.nodeRemoveRaw g n = none := rfl

theorem graphCut_eq_none (s : Heap ν ε) (n : NodeId) : s.graphCut n = none := rfl

theorem not_removalsAgree (s : Heap ν ε) (g : GraphId) (n : NodeId) : ¬ s.RemovalsAgree g n := by
  intro hagree
  have hraw := hagree.raw
  rw [nodeRemoveRaw_eq_none] at hraw
  cases hraw

theorem not_graphCutLaw (s : Heap ν ε) (n : NodeId) : ¬ s.GraphCutLaw n (s.graphCut n) := by
  intro hlaw
  obtain ⟨t, ht, -⟩ := hlaw.after
  rw [graphCut_eq_none] at ht
  cases ht

/-! ## The graph itself in place of the field -/

/-- The search finds members only, so a non-member goes on as a null pointer. -/
theorem removeShared_nodeGetShared {g : GraphId} {n : NodeId} (hown : s.owned n = true) :
    s.removeShared g (s.nodeGetShared g n) = s.removeShared g (.obj n) := by
  rw [nodeGetShared_eq]
  split
  · rfl
  · rename_i hn
    simp [removeShared, nodeRemove, hn, release, hown]

/-- With the graph itself in place of the field, the raw overload does what the other one does. -/
theorem removeThroughField_self {g : GraphId} {n : NodeId} (hg : g ∈ s.graphs)
    (hown : s.owned n = true) :
    s.removeThroughField g n (some g) = .ok (s.removeShared g (.obj n)) := by
  simp only [removeThroughField, if_pos hg, removeShared_nodeGetShared hown]

theorem parentGraphOf_removeShared (h : s.Kept M) {g : GraphId} {n : NodeId}
    (hn : n ∈ s.graphNodes g) : (s.removeShared g (.obj n)).parentGraphOf n = none := by
  obtain ⟨node, hnode, -⟩ := h.rostered.listed hn
  have hcleared : (s.nodeRemove g (.obj n)).nodes n = .live { node with parentGraph := none } := by
    simp only [nodeRemove, if_pos hn, clearParent, modifyNode_nodes, if_true, setGraphNodes, hnode,
      Cell.mapLive_live]
  rcases (h.represents.nodeRemove g (.obj n)).mirrored.release_cases n with ⟨hsame, -⟩ | ⟨hgone, -⟩
  · rw [removeShared, hsame, parentGraphOf_of_live hcleared]
  · rw [removeShared, hgone]
    simp [parentGraphOf, withoutNode]

/-- A node that is owned, and that its parent graph lists if it has one, leaves that graph. -/
theorem graphCutBy_self (h : s.Kept M) {n : NodeId} (hown : s.owned n = true)
    (hlisted : ∀ g, s.graphGet n = some g → n ∈ s.nodeGetAll g) :
    s.GraphCutLaw n (some (s.graphCutBy some n)) := by
  have hcut : ∀ g, s.graphGet n = some g →
      s.graphCutBy some n = .ok (s.removeShared g (.obj n)) := by
    intro g hg
    have halive := h.rostered.alive (hlisted g hg)
    rw [graphGet] at hg
    simp only [graphCutBy, hg, removeThroughField_self halive hown]
  have halone : s.graphGet n = none → s.graphCutBy some n = .ok s := by
    intro hnone
    rw [graphGet] at hnone
    simp only [graphCutBy, hnone]
  refine ⟨fun g hg => congrArg some (hcut g hg), fun hnone => congrArg some (halone hnone), ?_⟩
  cases hg : s.graphGet n with
  | none =>
    refine ⟨s, congrArg some (halone hg), hg, ?_⟩
    intro g hn
    have hin := (inGraph_iff.mp (h.rostered.listed hn)).2
    rw [graphGet, hin] at hg
    cases hg
  | some g =>
    refine ⟨_, congrArg some (hcut g hg), ?_, ?_⟩
    · exact parentGraphOf_removeShared h (hlisted g hg)
    · intro g'
      rw [nodeGetAll, removeShared, (release_frame (h.represents.nodeRemove g _) n).2.1]
      exact h.rostered.notMem_nodeRemove hg g'

/-- In every state of a run, for every graph and every living node, the raw overload does not do
what the other one does and `GraphCut` does not keep its law. For a node that somebody owns the
field is all that is wrong. -/
theorem run_graphCutLaw_iff (ops : List (LifetimeOp ν ε)) :
    Runs.Along stepLifetime
      (fun s => ∀ g n, g ∈ s.graphs → s.isLive n →
        ¬ s.RemovalsAgree g n ∧ ¬ s.GraphCutLaw n (s.graphCut n) ∧
          (s.owned n = true →
            s.removeThroughField g n (some g) = .ok (s.removeShared g (.obj n)) ∧
              ((∀ g', s.graphGet n = some g' → n ∈ s.nodeGetAll g') →
                s.GraphCutLaw n (some (s.graphCutBy some n)))))
      Heap.empty ops := by
  intro before s _ hrun g n hg _
  obtain ⟨M, h⟩ := run_kept hrun
  refine ⟨not_removalsAgree s g n, not_graphCutLaw s n, ?_⟩
  intro hown
  exact ⟨removeThroughField_self hg hown, graphCutBy_self h hown⟩

/-- One member of one graph. -/
def memberRun : List (LifetimeOp Unit Unit) :=
  [.call (.makeGraph 0), .call (.makeNode 0 ()), .call (.nodeAdd 0 0)]

/-- The shared pointer overload takes the node out, and neither of the other two does. -/
theorem member_is_not_cut :
    ∃ s, Runs.run stepLifetime Heap.empty memberRun = .ok s ∧ 0 ∈ s.graphs ∧ s.isLive 0 ∧
      0 ∉ (s.removeShared 0 (.obj 0)).nodeGetAll 0 ∧ s.nodeRemoveRaw 0 0 = none ∧
      s.graphCut 0 = none ∧ ¬ s.RemovalsAgree 0 0 ∧ ¬ s.GraphCutLaw 0 (s.graphCut 0) := by
  have hrun : ∃ s, Runs.run stepLifetime Heap.empty memberRun = .ok s ∧ 0 ∈ s.graphs ∧ s.isLive 0 ∧
      0 ∉ (s.removeShared 0 (.obj 0)).nodeGetAll 0 := ⟨_, rfl, by decide, rfl, by decide⟩
  obtain ⟨s, hs, hg, hlive, hout⟩ := hrun
  exact ⟨s, hs, hg, hlive, hout, rfl, rfl, not_removalsAgree s 0 0, not_graphCutLaw s 0⟩

end Unotu.Graph.Heap
