import Unotu.Filter.Drawing
import Unotu.Widget.View

/-!
# The filter graph widget

`w_filtergraph` shows one graph of filter nodes. Its events come with the screen and the keys at
that moment, with the address of a node that may be created, and with the stack that is
left for an evaluation.
-/

set_option autoImplicit false

namespace Unotu.Filter.World

open Unotu.Graph

/-- `make_shared<graph_node>( new .. )`; nothing sets the `ParentGraphNode` of `Data`. -/
def newNode (w : World) (n : NodeId) (Data : FilterNode) : World :=
  match w.heap.nodes n with
  | .unused => { w with heap := w.heap.makeNode n () }.setFilter (.data n) (some Data)
  | _ => w

def callGraph (w : World) (op : Op Unit Unit) : Except Stopped World :=
  match w.heap.step op with
  | .ok heap => .ok { w with heap := heap }
  | .error f => .error (w, .fault f)

/-- `Node->DataReferenceGet()->Position = ..` -/
def positionSet (w : World) (n : NodeId) (Position : DPoint) : World :=
  match w.filters (.data n) with
  | none => w
  | some Data => w.setFilter (.data n) (some { Data with position := Position })

def findOut (w : World) : List NodeId → Except Stopped (Option NodeId)
  | [] => .ok none
  | Item :: Nodes =>
    match w.filters (.data Item) with
    | none => .error (w, .fault .destroyedObject)
    | some Data => if Data.kind = .fnOut then .ok (some Item) else w.findOut Nodes

/-- What `ENTER` runs; the result is the boolean that is printed. -/
def executeGraph (w : World) (g : GraphId) (depth : Nat) : Except Stopped (World × Bool) := do
  match ← w.findOut (w.heap.nodeGetAll g).elems with
  | none => .error (w, .fault (.assertion "Graph must contain an 'OUT' node."))
  | some OutNode =>
    let (w, Result) ← w.outputGet depth (.data OutNode)
    match ← w.castBoolean Result with
    | none => .error (w, .fault (.assertion "'OUT' should always output a boolean."))
    | some Boolean => .ok (w, Boolean)

end Unotu.Filter.World

namespace Unotu.Widget

open Unotu.Graph Unotu.Filter

structure FilterGraph where
  world : World
  graph : GraphId
  view : View := {}

/-- An event that did not return, with the widget as it is then. -/
abbrev Halted := FilterGraph × Stop

inductive KeyAction where
  | release
  | press
  | repeat
deriving DecidableEq

inductive Key where
  | home
  | space
  | one
  | enter
  | other
deriving DecidableEq

inductive MouseButton where
  | left
  | middle
  | other
deriving DecidableEq

/-- What an event finds: the screen, whether a shift key is down, where a new node would be
allocated, and how many calls the evaluator may nest. -/
structure Surroundings where
  screen : Screen
  bShiftPressed : Bool
  address : NodeId
  stack : Nat

inductive Event where
  | onTick
  | onRefresh
  | scrollLines (Lines : ℚ)
  | scrollPages (Pages : ℚ)
  | onMousePressed (Button : MouseButton)
  | onMouseReleased (Button : MouseButton)
  | onKeyInput (Action : KeyAction) (Key : Key)

/-- Where the constructor's nodes and edges are allocated. -/
structure Addresses where
  out : NodeId
  first : NodeId
  second : NodeId
  origin : NodeId
  firstEdge : EdgeId
  secondEdge : EdgeId
  nodes_nodup : [out, first, second, origin].Nodup
  edges_ne : firstEdge ≠ secondEdge

namespace FilterGraph

/-- The constructor; at its end the local `shared_ptr`s go away. -/
def construct (a : Addresses) : Except Stopped FilterGraph := do
  let w ← World.empty.callGraph (.makeGraph 0)
  let w := w.newNode a.out fnOut
  let w := w.newNode a.first (filterNode ⟨1 / 10, 1 / 2⟩ "No name")
  let w := w.newNode a.second (filterNode ⟨4 / 5, 3 / 5⟩ "No name")
  let w ← w.callGraph (.nodeAdd 0 a.out)
  let w ← w.callGraph (.nodeAdd 0 a.first)
  let w ← w.callGraph (.nodeAdd 0 a.second)
  let w ← w.callGraph (.connectTo a.first (.obj a.out) () a.firstEdge)
  let w ← w.callGraph (.connectTo a.second (.obj a.out) () a.secondEdge)
  let w := w.newNode a.origin (filterNode ⟨0, 0⟩ "I'm the origin!")
  let w ← w.callGraph (.nodeAdd 0 a.origin)
  let w ← w.callGraph (.dropNode a.origin)
  let w ← w.callGraph (.dropNode a.out)
  let w ← w.callGraph (.dropNode a.first)
  let w ← w.callGraph (.dropNode a.second)
  .ok { world := w, graph := 0 }

def setView (w : FilterGraph) (view : View) : FilterGraph := { w with view := view }

def setWorld (w : FilterGraph) (world : World) : FilterGraph := { w with world := world }

/-- What calls on the world have done stays in the widget, also where they stop. -/
def onWorld (w : FilterGraph) : Except Stopped World → Except Halted FilterGraph
  | .ok world => .ok (w.setWorld world)
  | .error (world, stop) => .error (w.setWorld world, stop)

/-! ## Keys -/

/-- `case GLFW_KEY_ENTER`, with the result that is printed. -/
def keyEnter (w : FilterGraph) (s : Surroundings) (Action : KeyAction) :
    Except Halted (FilterGraph × Option Bool) :=
  if Action = .press then
    match w.world.executeGraph w.graph (s.stack + 1) with
    | .ok (world, Boolean) => .ok (w.setWorld world, some Boolean)
    | .error (world, stop) => .error (w.setWorld world, stop)
  else .ok (w, none)

/-- The node that `GLFW_KEY_1` adds at an address that is not in use; its `shared_ptr` goes
away with the block. -/
def addLiteral (w : FilterGraph) (s : Surroundings) : Except Halted FilterGraph :=
  match w.world.heap.nodes s.address with
  | .unused => w.onWorld do
    let world := w.world.newNode s.address fnBooleanLiteral
    let world ← world.callGraph (.nodeAdd w.graph s.address)
    let world := world.positionSet s.address
      (w.view.mousePositionInGraphCoordinates s.screen + w.view.viewOrigin * ((2 : ℚ) : DPoint))
    world.callGraph (.dropNode s.address)
  | _ => .ok w

/-- `case GLFW_KEY_1` has no `break`. -/
def keyOne (w : FilterGraph) (s : Surroundings) (Action : KeyAction) :
    Except Halted (FilterGraph × Option Bool) := do
  let w ← if Action = .press then w.addLiteral s else .ok w
  w.keyEnter s Action

/-- `case GLFW_KEY_SPACE` has no `break` either. -/
def keySpace (w : FilterGraph) (s : Surroundings) (Action : KeyAction) :
    Except Halted (FilterGraph × Option Bool) :=
  let view := match Action with
    | .press => w.view.startDragging s.screen
    | .release => w.view.stopDragging s.screen
    | .repeat => w.view
  (w.setView view).keyOne s Action

def keyHome (w : FilterGraph) (Action : KeyAction) : FilterGraph :=
  if Action ≠ .press then w else w.setView { w.view with viewOrigin := ⟨0, 0⟩ }

def onKeyInput (w : FilterGraph) (s : Surroundings) (Action : KeyAction) :
    Key → Except Halted (FilterGraph × Option Bool)
  | .home => .ok (w.keyHome Action, none)
  | .space => w.keySpace s Action
  | .one => w.keyOne s Action
  | .enter => w.keyEnter s Action
  | .other => .ok (w, none)

/-! ## The mouse and the other events -/

def onTick (w : FilterGraph) (s : Surroundings) : FilterGraph :=
  if w.view.bDragging then w.setView (w.view.adjustViewToDrag s.screen) else w

def onRefresh (w : FilterGraph) : Except Halted FilterGraph :=
  w.onWorld (w.world.onRefresh w.graph)

def onMousePressed (w : FilterGraph) (s : Surroundings) : MouseButton → FilterGraph
  | .left => if s.bShiftPressed then w.setView (w.view.startDragging s.screen) else w
  | .middle => w.setView (w.view.startDragging s.screen)
  | .other => w

/-- The left button falls through to the middle one. -/
def onMouseReleased (w : FilterGraph) (s : Surroundings) : MouseButton → FilterGraph
  | .left => w.setView ((w.view.stopDragging s.screen).stopDragging s.screen)
  | .middle => w.setView (w.view.stopDragging s.screen)
  | .other => w

def step (w : FilterGraph) : Surroundings × Event → Except Halted FilterGraph
  | (s, .onTick) => .ok (w.onTick s)
  | (_, .onRefresh) => w.onRefresh
  | (s, .scrollLines Lines) => .ok (w.setView (w.view.zoomBy s.screen (1 / 5 * Lines)))
  | (s, .scrollPages Pages) => .ok (w.setView (w.view.zoomBy s.screen (1 / 2 * Pages)))
  | (s, .onMousePressed Button) => .ok (w.onMousePressed s Button)
  | (s, .onMouseReleased Button) => .ok (w.onMouseReleased s Button)
  | (s, .onKeyInput Action Key) => (w.onKeyInput s Action Key).map Prod.fst

end FilterGraph

end Unotu.Widget
