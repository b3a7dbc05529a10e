import Unotu.Graph.Heap

/-!
# The operations of the directed graph

Each definition follows the member function of the same name. A call that the code
cannot make (through a shared pointer that nobody has, or with an identity that is
already in use) leaves the heap as it is.
-/

set_option autoImplicit false

namespace Unotu.Graph

variable {ν ε : Type}

namespace Heap

/-! ## `graph_edge` -/

/-- `EdgeFind`; the result is a null pointer when the set does not have the edge. -/
def edgeFind (s : Heap ν ε) (n : NodeId) (Edge : EdgeId) : Option EdgeId :=
  (s.edgesOf n).elems.find? fun SetEdge => decide (SetEdge = Edge)

/-- `Edges.erase( SharedEdge )` on a locked node; no set holds a null pointer. -/
def eraseShared (s : Heap ν ε) (p : NodePtr) (SharedEdge : Option EdgeId) : Heap ν ε :=
  match p, SharedEdge with
  | .obj n, some e => s.modifyNode n fun node => { node with edges := node.edges.erase e }
  | _, _ => s

def cut (s : Heap ν ε) (e : EdgeId) : Heap ν ε :=
  match s.edges e with
  | none => s
  | some edge =>
    let LockSource := s.lock edge.source
    let LockDestination := s.lock edge.destination
    let SharedEdge := match LockSource, LockDestination with
      | .obj n, _ => s.edgeFind n e
      | .null, .obj m => s.edgeFind m e
      | .null, .null => none
    (s.eraseShared LockSource SharedEdge).eraseShared LockDestination SharedEdge

/-! ## Ownership and destruction of nodes -/

/-- Some caller or some living graph has a shared pointer to `n`. -/
def owned (s : Heap ν ε) (n : NodeId) : Bool :=
  s.held n || s.graphs.elems.any fun g => decide (n ∈ s.graphNodes g)

/-- `~graph_node`: the weak pointers have expired when the loop over `Edges` starts. -/
def destroyNode (s : Heap ν ε) (n : NodeId) : Heap ν ε :=
  match s.nodes n with
  | .live node =>
    let dying := { s with nodes := Function.update s.nodes n (.dying node) }
    let done := node.edges.elems.foldl cut dying
    { done with nodes := Function.update done.nodes n .expired }
  | _ => s

/-- A shared pointer to `n` goes away; the last one destroys the node. -/
def release (s : Heap ν ε) (n : NodeId) : Heap ν ε :=
  if s.owned n then s else s.destroyNode n

/-! ## `node_graph` -/

def clearParent (s : Heap ν ε) (n : NodeId) : Heap ν ε :=
  s.modifyNode n fun node => { node with parentGraph := none }

def setGraphNodes (s : Heap ν ε) (g : GraphId) (Nodes : OrderedSet NodeId) : Heap ν ε :=
  { s with graphNodes := Function.update s.graphNodes g Nodes }

def nodeRemove (s : Heap ν ε) (g : GraphId) (Node : NodePtr) : Heap ν ε :=
  match Node with
  | .obj n =>
    if n ∈ s.graphNodes g then
      (s.setGraphNodes g ((s.graphNodes g).erase n)).clearParent n
    else s
  | .null => s

/-- The insertion of `Node` into this graph and of this graph into `Node`. -/
def enterGraph (s : Heap ν ε) (g : GraphId) (n : NodeId) : Heap ν ε :=
  (s.setGraphNodes g ((s.graphNodes g).insert n)).modifyNode n fun node =>
    { node with parentGraph := some g }

def nodeAdd (s : Heap ν ε) (g : GraphId) (n : NodeId) : Except Fault (Heap ν ε) :=
  if s.parentGraphOf n = some g then .ok s
  else match s.parentGraphOf n with
    | none => .ok (s.enterGraph g n)
    | some ParentGraph =>
      if ParentGraph ∈ s.graphs then .ok ((s.nodeRemove ParentGraph (.obj n)).enterGraph g n)
      else .error .destroyedObject

/-- First every back pointer is cleared, then `clear()` drops the members one by one. -/
def nodeRemoveAll (s : Heap ν ε) (g : GraphId) : Heap ν ε :=
  let Nodes := (s.graphNodes g).elems
  Nodes.foldl release ((Nodes.foldl clearParent s).setGraphNodes g ∅)

def nodeGetAll (s : Heap ν ε) (g : GraphId) : OrderedSet NodeId := s.graphNodes g

def nodeGetShared (s : Heap ν ε) (g : GraphId) (Node : NodeId) : NodePtr :=
  match (s.graphNodes g).elems.find? fun Item => decide (Item = Node) with
  | some Item => .obj Item
  | none => .null

/-! ## `graph_node` -/

def insertEdge (s : Heap ν ε) (n : NodeId) (e : EdgeId) : Heap ν ε :=
  s.modifyNode n fun node => { node with edges := node.edges.insert e }

/-- `make_shared<graph_edge>` gives the edge the identity `e`, and both ends insert it. -/
def addEdge (s : Heap ν ε) (this d : NodeId) (e : EdgeId) (Edge : GraphEdge ε) : Heap ν ε :=
  let created := { s with edges := Function.update s.edges e (some Edge) }
  (created.insertEdge this e).insertEdge d e

def connectTo (s : Heap ν ε) (this : NodeId) (Destination : NodePtr) (Data : ε) (e : EdgeId) :
    Except Fault (Bool × Heap ν ε) :=
  match Destination with
  | .null => .ok (false, s)
  | .obj d =>
    match s.parentGraphOf this with
    | none => .ok (false, s)
    | some ParentGraph =>
      if s.parentGraphOf d ≠ some ParentGraph then .ok (false, s)
      else if ParentGraph ∉ s.graphs then .error .destroyedObject
      else
        let SharedThis := s.nodeGetShared ParentGraph this
        if SharedThis = .null then
          .error (.assertion "Parent graph should be able to provide a shared copy.")
        else (GraphEdge.make SharedThis Destination Data).map fun Edge =>
          (true, s.addEdge this d e Edge)

def graphGet (s : Heap ν ε) (n : NodeId) : Option GraphId := s.parentGraphOf n

def sourceGet (s : Heap ν ε) (e : EdgeId) : NodePtr :=
  match s.edges e with
  | some edge => s.lock edge.source
  | none => .null

def destinationGet (s : Heap ν ε) (e : EdgeId) : NodePtr :=
  match s.edges e with
  | some edge => s.lock edge.destination
  | none => .null

def connectedIncomingGet (s : Heap ν ε) (this : NodeId) : OrderedSet NodePtr :=
  (OrderedSet.collect
    (fun Edge => if s.destinationGet Edge = .obj this then some (s.sourceGet Edge) else none)
    (s.edgesOf this).elems).erase .null

def connectedOutgoingGet (s : Heap ν ε) (this : NodeId) : OrderedSet NodePtr :=
  (OrderedSet.collect
    (fun Edge => if s.sourceGet Edge = .obj this then some (s.destinationGet Edge) else none)
    (s.edgesOf this).elems).erase .null

def edgesIncomingGet (s : Heap ν ε) (this : NodeId) : OrderedSet EdgeId :=
  OrderedSet.collect
    (fun Edge => if s.destinationGet Edge = .obj this then some Edge else none)
    (s.edgesOf this).elems

end Heap

/-! ## Runs of the operations -/

/-- The steps that callers can make while every graph stays alive. `holdNode` is a caller
taking a shared pointer of its own and `dropNode` one giving its last one away. -/
inductive Op (ν ε : Type) where
  | makeGraph (g : GraphId)
  | makeNode (n : NodeId) (Data : ν)
  | holdNode (n : NodeId)
  | dropNode (n : NodeId)
  | nodeAdd (g : GraphId) (n : NodeId)
  | nodeRemove (g : GraphId) (n : NodeId)
  | nodeRemoveAll (g : GraphId)
  | connectTo (this : NodeId) (Destination : NodePtr) (Data : ε) (e : EdgeId)
  | cut (e : EdgeId)

namespace Heap

def makeGraph (s : Heap ν ε) (g : GraphId) : Heap ν ε :=
  if g ∈ s.graphs then s
  else { s.setGraphNodes g ∅ with graphs := s.graphs.insert g }

/-- `make_shared<graph_node>( Data )`, kept by the caller. -/
def makeNode (s : Heap ν ε) (n : NodeId) (Data : ν) : Heap ν ε :=
  match s.nodes n with
  | .unused =>
    { s with
      nodes := Function.update s.nodes n (.live { data := Data })
      held := Function.update s.held n true }
  | _ => s

def setHeld (s : Heap ν ε) (n : NodeId) (holds : Bool) : Heap ν ε :=
  { s with held := Function.update s.held n holds }

def holdNode (s : Heap ν ε) (n : NodeId) : Heap ν ε :=
  if s.isLive n then s.setHeld n true else s

def dropNode (s : Heap ν ε) (n : NodeId) : Heap ν ε :=
  if s.isLive n then (s.setHeld n false).release n else s

/-- The pointers that a caller passes are null or point to living nodes. -/
def canPass (s : Heap ν ε) : NodePtr → Bool
  | .null => true
  | .obj n => s.isLive n

/-- One operation of a caller. The argument of `NodeRemove` is released after the call. -/
def step (s : Heap ν ε) : Op ν ε → Except Fault (Heap ν ε)
  | .makeGraph g => .ok (s.makeGraph g)
  | .makeNode n Data => .ok (s.makeNode n Data)
  | .holdNode n => .ok (s.holdNode n)
  | .dropNode n => .ok (s.dropNode n)
  | .nodeAdd g n => if g ∈ s.graphs ∧ s.isLive n then s.nodeAdd g n else .ok s
  | .nodeRemove g n =>
    .ok (if g ∈ s.graphs ∧ s.isLive n then (s.nodeRemove g (.obj n)).release n else s)
  | .nodeRemoveAll g => .ok (if g ∈ s.graphs then s.nodeRemoveAll g else s)
  | .connectTo this Destination Data e =>
    if s.isLive this ∧ s.canPass Destination ∧ s.edges e = none then
      (s.connectTo this Destination Data e).map Prod.snd
    else .ok s
  | .cut e => .ok (s.cut e)

end Heap

end Unotu.Graph
