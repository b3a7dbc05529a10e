import Unotu.Graph.Roster
import Unotu.Graph.Views
import Unotu.Library.OwnedGraph
import Unotu.Library.Simulation

/-!
# The graph as a store

Beside the steps that change the heap, callers read and write the data of a node and ask for
neighbours, edges, members and ends. Each call answers what the graph of owned nodes answers,
in which there are no pointers, no counts and no second copies. `ConnectedGet`,
`EdgesGet( Node )`, `Disconnect`, `GraphCut` and the overloads for raw pointers of `OtherGet` and
`NodeRemove` are no calls: none of them can be instantiated.
-/

set_option autoImplicit false

namespace Unotu.Graph

variable {ν ε : Type}

/-! ## Calls and answers -/

/-- A caller that writes through `DataReferenceGet` turns the data into `write Data`. -/
inductive Call (ν ε : Type) where
  | lifetime (op : LifetimeOp ν ε)
  | dataSet (n : NodeId) (Data : ν)
  | dataReferenceGet (n : NodeId) (write : ν → ν)
  | dataGet (n : NodeId)
  | graphGet (n : NodeId)
  | nodeGetAll (g : GraphId)
  | nodeGetShared (g : GraphId) (Node : NodeId)
  | connectedIncomingGet (n : NodeId)
  | connectedOutgoingGet (n : NodeId)
  | edgesGet (n : NodeId)
  | edgesIncomingGet (n : NodeId)
  | edgesOutgoingGet (n : NodeId)
  | sourceGet (e : EdgeId)
  | destinationGet (e : EdgeId)
  | otherGet (e : EdgeId) (Node : NodeId)

/-- `refused` stands for a call that cannot be made, through a pointer that nobody has. -/
inductive Answer (ν Members Nodes Edges : Type) where
  | done
  | refused
  | connected (accepted : Bool)
  | data (Data : Option ν)
  | graph (ParentGraph : Option GraphId)
  | node (p : NodePtr)
  | members (ns : Members)
  | nodes (ps : Nodes)
  | edges (es : Edges)

/-- What the code returns, and what it means. -/
abbrev Reply (ν : Type) := Answer ν (OrderedSet NodeId) (OrderedSet NodePtr) (OrderedSet EdgeId)

abbrev Meaning (ν : Type) := Answer ν (Set NodeId) (Set NodePtr) (Set EdgeId)

def Reply.meaning : Reply ν → Meaning ν
  | .done => .done
  | .refused => .refused
  | .connected accepted => .connected accepted
  | .data Data => .data Data
  | .graph ParentGraph => .graph ParentGraph
  | .node p => .node p
  | .members ns => .members {n | n ∈ ns}
  | .nodes ps => .nodes {p | p ∈ ps}
  | .edges es => .edges {e | e ∈ es}

namespace Heap

variable (s : Heap ν ε)

def dataGet (n : NodeId) : Option ν :=
  match s.nodes n with
  | .live node => some node.data
  | _ => none

/-- A write through the reference that `DataReferenceGet` returns. -/
def dataReferenceGet (n : NodeId) (write : ν → ν) : Heap ν ε :=
  s.modifyNode n fun node => { node with data := write node.data }

def dataSet (n : NodeId) (Data : ν) : Heap ν ε := s.dataReferenceGet n fun _ => Data

/-- Only `ConnectTo` has something to say. -/
def lifetimeReply : LifetimeOp ν ε → Reply ν
  | .call (.connectTo this Destination Data e) =>
    if s.isLive this ∧ s.canPass Destination ∧ s.edges e = none then
      match s.connectTo this Destination Data e with
      | .ok (accepted, _) => .connected accepted
      | .error _ => .refused
    else .refused
  | _ => .done

/-- A question about a node that the caller can reach. -/
def ask (n : NodeId) (r : Reply ν) : Reply ν := if s.isLive n then r else .refused

def askEdge (e : EdgeId) (r : Reply ν) : Reply ν := if (s.edges e).isSome then r else .refused

def askGraph (g : GraphId) (r : Reply ν) : Reply ν := if g ∈ s.graphs then r else .refused

def stepCall : Call ν ε → Except Fault (Heap ν ε × Reply ν)
  | .lifetime op => (s.stepLifetime op).map fun t => (t, s.lifetimeReply op)
  | .dataSet n Data => .ok (s.dataSet n Data, s.ask n .done)
  | .dataReferenceGet n write => .ok (s.dataReferenceGet n write, s.ask n .done)
  | .dataGet n => .ok (s, s.ask n (.data (s.dataGet n)))
  | .graphGet n => .ok (s, s.ask n (.graph (s.graphGet n)))
  | .nodeGetAll g => .ok (s, s.askGraph g (.members (s.nodeGetAll g)))
  | .nodeGetShared g Node => .ok (s, s.askGraph g (.node (s.nodeGetShared g Node)))
  | .connectedIncomingGet n => .ok (s, s.ask n (.nodes (s.connectedIncomingGet n)))
  | .connectedOutgoingGet n => .ok (s, s.ask n (.nodes (s.connectedOutgoingGet n)))
  | .edgesGet n => .ok (s, s.ask n (.edges (s.edgesGetAll n)))
  | .edgesIncomingGet n => .ok (s, s.ask n (.edges (s.edgesIncomingGet n)))
  | .edgesOutgoingGet n => .ok (s, s.ask n (.edges (s.edgesOutgoingGet n)))
  | .sourceGet e => .ok (s, s.askEdge e (.node (s.sourceGet e)))
  | .destinationGet e => .ok (s, s.askEdge e (.node (s.destinationGet e)))
  | .otherGet e Node => .ok (s, s.ask Node (s.askEdge e (.node (s.otherGet e (.obj Node)))))

/-- No graph is destroyed while a caller owns one of its members. -/
def CallKeepsParents : Call ν ε → Prop
  | .lifetime op => s.KeepsParents op
  | _ => True

end Heap

/-! ## What they are meant to answer -/

abbrev Store (ν : Type) := OwnedGraph NodeId EdgeId GraphId ν

namespace Store

open Classical

variable (o : Store ν)

noncomputable def stepLifetime : LifetimeOp ν ε → Store ν
  | .call (.makeGraph g) => o.addGroup g
  | .call (.makeNode n Data) => o.addNode n Data
  | .call (.holdNode n) => o.hold n
  | .call (.dropNode n) => o.drop n
  | .call (.nodeAdd g n) => o.enter g n
  | .call (.nodeRemove g n) => o.leave g {n}
  | .call (.nodeRemoveAll g) => o.leave g Set.univ
  | .call (.connectTo _ .null _ _) => o
  | .call (.connectTo this (.obj d) _ e) => o.connect this d e
  | .call (.cut e) => o.cut e
  | .destroyGraph g => o.dissolve g

/-- A pointer to the node, which is null once the node is gone. -/
noncomputable def ptr (n : NodeId) : NodePtr := if n ∈ o.graph.nodes then .obj n else .null

def Passable : NodePtr → Prop
  | .null => True
  | .obj n => n ∈ o.graph.nodes

def Accepts (this : NodeId) (e : EdgeId) : NodePtr → Prop
  | .null => False
  | .obj d => o.Connectable this d e

noncomputable def lifetimeMeaning : LifetimeOp ν ε → Meaning ν
  | .call (.connectTo this Destination _ e) =>
    if this ∈ o.graph.nodes ∧ o.Passable Destination ∧ o.ends e = none then
      .connected (decide (o.Accepts this e Destination))
    else .refused
  | _ => .done

noncomputable def ask (n : NodeId) (m : Meaning ν) : Meaning ν :=
  if n ∈ o.graph.nodes then m else .refused

noncomputable def askGraph (g : GraphId) (m : Meaning ν) : Meaning ν :=
  if g ∈ o.groups then m else .refused

/-- A question about the ends of an edge that was made at some time. -/
noncomputable def askEdge (e : EdgeId) (m : NodeId → NodeId → Meaning ν) : Meaning ν :=
  match o.ends e with
  | some (a, b) => m a b
  | none => .refused

noncomputable def stepCall : Call ν ε → Store ν × Meaning ν
  | .lifetime op => (stepLifetime o op, lifetimeMeaning o op)
  | .dataSet n Data => (o.assign n fun _ => Data, ask o n .done)
  | .dataReferenceGet n write => (o.assign n write, ask o n .done)
  | .dataGet n => (o, ask o n (.data (o.datum n)))
  | .graphGet n => (o, ask o n (.graph (o.home n)))
  | .nodeGetAll g => (o, askGraph o g (.members {n | o.home n = some g}))
  | .nodeGetShared g Node =>
    (o, askGraph o g (.node (if o.home Node = some g then .obj Node else .null)))
  | .connectedIncomingGet n => (o, ask o n (.nodes {p | ∃ m, p = .obj m ∧ o.graph.Adj m n}))
  | .connectedOutgoingGet n => (o, ask o n (.nodes {p | ∃ m, p = .obj m ∧ o.graph.Adj n m}))
  | .edgesGet n => (o, ask o n (.edges {e | o.graph.Incident e n}))
  | .edgesIncomingGet n => (o, ask o n (.edges {e ∈ o.graph.edges | o.graph.target e = n}))
  | .edgesOutgoingGet n => (o, ask o n (.edges {e ∈ o.graph.edges | o.graph.source e = n}))
  | .sourceGet e => (o, askEdge o e fun a _ => .node (ptr o a))
  | .destinationGet e => (o, askEdge o e fun _ b => .node (ptr o b))
  | .otherGet e Node =>
    (o, ask o Node (askEdge o e fun a b => .node (ptr o (if a = Node then b else a))))

end Store

end Unotu.Graph
