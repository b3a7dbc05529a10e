import Unotu.Library.OrderedSet
import Mathlib.Logic.Function.Basic

/-!
# Graph objects and their lifetimes

Nodes, edges and graphs are objects with an identity; the order of identities stands
for the order of addresses by which the `std::set`s iterate. A node owns its edges and a
graph owns its nodes. An edge refers to its endpoints weakly, so a lock fails from the
moment the destructor of the node starts.
-/

set_option autoImplicit false

namespace Unotu.Graph

abbrev NodeId := Nat
abbrev EdgeId := Nat
abbrev GraphId := Nat

/-- A possibly null pointer to a node. -/
inductive NodePtr where
  | null
  | obj (n : NodeId)
deriving DecidableEq, Repr

namespace NodePtr

/-- Null compares below every object. -/
def address : NodePtr → Nat
  | null => 0
  | obj n => n + 1

theorem address_injective : Function.Injective address := by
  intro p q h
  cases p <;> cases q <;> simp_all [address]

instance : LinearOrder NodePtr := LinearOrder.lift' address address_injective

end NodePtr

/-- What a violated precondition of the code leads to. -/
inductive Fault where
  | assertion (message : String)
  | invalidArgument (message : String)
  | nullDereference
  | destroyedObject
  | doubleFree
deriving DecidableEq, Repr

variable {ν ε : Type}

structure GraphNode (ν : Type) where
  data : ν
  parentGraph : Option GraphId := none
  edges : OrderedSet EdgeId := ∅

/-- `Source` and `Destination` are weak pointers; whether they lock is a matter of the heap. -/
structure GraphEdge (ε : Type) where
  source : NodeId
  destination : NodeId
  data : ε

def GraphEdge.make (Source Destination : NodePtr) (Data : ε) : Except Fault (GraphEdge ε) :=
  match Source, Destination with
  | .obj a, .obj b => .ok ⟨a, b, Data⟩
  | _, _ => .error (.invalidArgument
      "Tried to create an edge between nodes, but one of the passed nodes is null.")

/-- The lifetime of a node. While it is dying its members are still there, but no weak
pointer to it locks. -/
inductive Cell (ν : Type) where
  | unused
  | live (node : GraphNode ν)
  | dying (node : GraphNode ν)
  | expired

namespace Cell

def mapLive (f : GraphNode ν → GraphNode ν) : Cell ν → Cell ν
  | live node => live (f node)
  | c => c

@[simp] theorem mapLive_live (f : GraphNode ν → GraphNode ν) (node : GraphNode ν) :
    (live node).mapLive f = live (f node) := rfl

@[simp] theorem mapLive_unused (f : GraphNode ν → GraphNode ν) :
    (unused : Cell ν).mapLive f = unused := rfl

@[simp] theorem mapLive_dying (f : GraphNode ν → GraphNode ν) (node : GraphNode ν) :
    (dying node).mapLive f = dying node := rfl

@[simp] theorem mapLive_expired (f : GraphNode ν → GraphNode ν) :
    (expired : Cell ν).mapLive f = expired := rfl

theorem mapLive_eq_live {f : GraphNode ν → GraphNode ν} {c : Cell ν} {node : GraphNode ν} :
    c.mapLive f = live node ↔ ∃ old, c = live old ∧ f old = node := by
  cases c <;> simp

theorem mapLive_mapLive (f g : GraphNode ν → GraphNode ν) (c : Cell ν) :
    (c.mapLive f).mapLive g = c.mapLive fun node => g (f node) := by
  cases c <;> rfl

theorem mapLive_congr {f g : GraphNode ν → GraphNode ν} {c : Cell ν}
    (h : ∀ node, c = live node → f node = g node) : c.mapLive f = c.mapLive g := by
  cases c with
  | live node => simp [h node rfl]
  | _ => rfl

theorem mapLive_id (c : Cell ν) : (c.mapLive fun node => node) = c := by
  cases c <;> rfl

end Cell

/-- `graphs` are the living `node_graph` objects, `graphNodes g` is `Nodes` of `g`, and
`held` marks the nodes to which some caller keeps a shared pointer of its own. -/
@[ext] structure Heap (ν ε : Type) where
  nodes : NodeId → Cell ν
  edges : EdgeId → Option (GraphEdge ε)
  graphs : OrderedSet GraphId
  graphNodes : GraphId → OrderedSet NodeId
  held : NodeId → Bool

namespace Heap

def empty : Heap ν ε where
  nodes _ := .unused
  edges _ := none
  graphs := ∅
  graphNodes _ := ∅
  held _ := false

/-- `weak_ptr::lock` on a pointer to `n`. -/
def lock (s : Heap ν ε) (n : NodeId) : NodePtr :=
  match s.nodes n with
  | .live _ => .obj n
  | _ => .null

def isLive (s : Heap ν ε) (n : NodeId) : Bool := decide (s.lock n = .obj n)

theorem lock_of_live {s : Heap ν ε} {n : NodeId} {node : GraphNode ν}
    (h : s.nodes n = .live node) : s.lock n = .obj n := by
  simp [lock, h]

theorem lock_eq_obj_iff {s : Heap ν ε} {n m : NodeId} :
    s.lock n = .obj m ↔ n = m ∧ ∃ node, s.nodes n = .live node := by
  unfold lock
  cases s.nodes n <;> simp

theorem isLive_iff {s : Heap ν ε} {n : NodeId} :
    s.isLive n = true ↔ ∃ node, s.nodes n = .live node := by
  simp [isLive, lock_eq_obj_iff]

def modifyNode (s : Heap ν ε) (n : NodeId) (f : GraphNode ν → GraphNode ν) : Heap ν ε :=
  { s with nodes := Function.update s.nodes n ((s.nodes n).mapLive f) }

theorem modifyNode_nodes (s : Heap ν ε) (n m : NodeId) (f : GraphNode ν → GraphNode ν) :
    (s.modifyNode n f).nodes m = if m = n then (s.nodes m).mapLive f else s.nodes m := by
  by_cases hm : m = n
  · subst m
    simp [modifyNode]
  · simp [modifyNode, hm]

theorem isLive_of_mapLive {s t : Heap ν ε} {n : NodeId} {f : GraphNode ν → GraphNode ν}
    (h : t.nodes n = (s.nodes n).mapLive f) : t.isLive n = s.isLive n := by
  rw [Bool.eq_iff_iff, isLive_iff, isLive_iff, h]
  cases s.nodes n <;> simp

theorem isLive_modifyNode {s : Heap ν ε} {n m : NodeId} {f : GraphNode ν → GraphNode ν} :
    (s.modifyNode n f).isLive m = s.isLive m := by
  by_cases hm : m = n
  · apply isLive_of_mapLive
    rw [modifyNode_nodes, if_pos hm]
  · rw [Bool.eq_iff_iff, isLive_iff, isLive_iff, modifyNode_nodes, if_neg hm]

/-- The members of a node, whichever stage of its life it is in. -/
def edgesOf (s : Heap ν ε) (n : NodeId) : OrderedSet EdgeId :=
  match s.nodes n with
  | .live node => node.edges
  | .dying node => node.edges
  | _ => ∅

theorem edgesOf_of_live {s : Heap ν ε} {n : NodeId} {node : GraphNode ν}
    (h : s.nodes n = .live node) : s.edgesOf n = node.edges := by
  simp [edgesOf, h]

def parentGraphOf (s : Heap ν ε) (n : NodeId) : Option GraphId :=
  match s.nodes n with
  | .live node => node.parentGraph
  | .dying node => node.parentGraph
  | _ => none

theorem parentGraphOf_of_live {s : Heap ν ε} {n : NodeId} {node : GraphNode ν}
    (h : s.nodes n = .live node) : s.parentGraphOf n = node.parentGraph := by
  simp [parentGraphOf, h]

def Holds (s : Heap ν ε) (n : NodeId) (e : EdgeId) : Prop :=
  ∃ node, s.nodes n = .live node ∧ e ∈ node.edges

theorem holds_iff_of_live {s : Heap ν ε} {n : NodeId} {node : GraphNode ν}
    (h : s.nodes n = .live node) (e : EdgeId) : s.Holds n e ↔ e ∈ node.edges := by
  simp [Holds, h]

end Heap

end Unotu.Graph
