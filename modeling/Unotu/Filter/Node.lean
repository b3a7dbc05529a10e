import Unotu.Graph.Operations
import Unotu.Cards.Text
import Mathlib.Data.Rat.Defs

/-!
# Filter nodes and their evaluation

Every node of a filter graph has one `filter_node` as its `Data`; drawing makes local copies
of it. Parameters live in a store from `new` to `delete`. An evaluation is given a depth
for its recursion and stops early with an exception, a fault, or without stack.
-/

set_option autoImplicit false

namespace Unotu.Filter

open Unotu.Graph Unotu.Cards

/-- Positions, with exact coordinates. -/
structure DPoint where
  x : ℚ
  y : ℚ
deriving DecidableEq

/-! ## Parameters -/

inductive FnpType where
  | none
  | stringlist
  | stringlistAny
  | stringlistEvery
  | string
  | boolean
deriving DecidableEq

inductive Parameter where
  | stringlist (List : List Text)
  | stringlistAny (List : List Text)
  | stringlistEvery (List : List Text)
  | string (String : Text)
  | boolean (Boolean : Bool)

def Parameter.type : Parameter → FnpType
  | stringlist _ => .stringlist
  | stringlistAny _ => .stringlistAny
  | stringlistEvery _ => .stringlistEvery
  | string _ => .string
  | boolean _ => .boolean

abbrev ParamId := Nat

/-! ## Nodes -/

inductive FilterKind where
  | filterNode
  | fnOut
  | fnBooleanLiteral
deriving DecidableEq

/-- The `Data` of a graph node, or an object of its own, such as a local copy. -/
inductive FilterId where
  | data (n : NodeId)
  | copy (k : Nat)
deriving DecidableEq

structure FilterNode where
  kind : FilterKind
  parentGraphNode : Option NodeId := none
  position : DPoint := ⟨0, 0⟩
  name : String := "No name"
  cachedOutput : Option ParamId := none
deriving DecidableEq

/-- The conversion to a `filter_node` by value keeps every member and forgets the class. -/
def FilterNode.slice (Data : FilterNode) : FilterNode := { Data with kind := .filterNode }

def filterNode (Position : DPoint) (Name : String) : FilterNode :=
  { kind := .filterNode, position := Position, name := Name }

def fnOut : FilterNode :=
  { kind := .fnOut, name := "OUT", position := ⟨1 / 2, 4 / 5⟩ }

def fnBooleanLiteral : FilterNode :=
  { kind := .fnBooleanLiteral, name := "Checkmark" }

/-- Why an evaluation stops without a value. -/
inductive Stop where
  | userError (What : String) (Source : FilterId)
  | fault (f : Fault)
  | stackOverflow
deriving DecidableEq

structure World where
  heap : Heap Unit Unit
  filters : FilterId → Option FilterNode
  store : ParamId → Option Parameter
  nextParam : ParamId

/-- A call that stops leaves a world behind. -/
abbrev Stopped := World × Stop

namespace World

def setFilter (w : World) (f : FilterId) (node : Option FilterNode) : World :=
  { w with filters := Function.update w.filters f node }

/-- `new`: the parameter is stored under an identity that was never used before. -/
def newParameter (w : World) (P : Parameter) : World × ParamId :=
  ({ w with store := Function.update w.store w.nextParam (some P), nextParam := w.nextParam + 1 },
    w.nextParam)

/-- `delete` of a possibly null pointer. -/
def deleteParameter (w : World) : Option ParamId → Except Stopped World
  | none => .ok w
  | some p =>
    match w.store p with
    | none => .error (w, .fault .doubleFree)
    | some _ => .ok { w with store := Function.update w.store p none }

def cachedOutputSet (w : World) (f : FilterId) (Parameter : Option ParamId) :
    Except Stopped (World × Option ParamId) :=
  match w.filters f with
  | none => .error (w, .fault .destroyedObject)
  | some node => do
    let w ← w.deleteParameter node.cachedOutput
    .ok (w.setFilter f (some { node with cachedOutput := Parameter }), Parameter)

def destroyFilter (w : World) (f : FilterId) : Except Stopped World :=
  match w.filters f with
  | none => .error (w, .fault .destroyedObject)
  | some node => do
    let w ← w.deleteParameter node.cachedOutput
    .ok (w.setFilter f none)

/-- `ParentGraphNode.lock().get()`. -/
def parentNodeGet (w : World) (node : FilterNode) : NodePtr :=
  match node.parentGraphNode with
  | none => .null
  | some n => w.heap.lock n

def inputCountGet (w : World) (node : FilterNode) : Except Fault Nat :=
  match w.parentNodeGet node with
  | .null => .error (.assertion "'filter_node' with no graph node parent!")
  | .obj n => .ok (w.heap.edgesIncomingGet n).elems.length

def isAcceptableParameter (w : World) (node : FilterNode) (P : Option ParamId) :
    Except Fault Bool :=
  match node.kind with
  | .filterNode => .ok false
  | .fnOut | .fnBooleanLiteral =>
    match P with
    | none => .error .nullDereference
    | some p =>
      match w.store p with
      | none => .error .destroyedObject
      | some Parameter =>
        if Parameter.type = .boolean then do
          let count ← w.inputCountGet node
          .ok (decide (count < 1))
        else
          .ok false

/-! ## OutputGet -/

/-- `dynamic_cast<fnp_boolean*>`, and its `Boolean` when it succeeds. -/
def castBoolean (w : World) : Option ParamId → Except Stopped (Option Bool)
  | none => .ok none
  | some p =>
    match w.store p with
    | none => .error (w, .fault .destroyedObject)
    | some (.boolean Boolean) => .ok (some Boolean)
    | some _ => .ok none

/-- `CachedOutputSet( new fnp_boolean( Boolean ) )`. -/
def cacheBoolean (w : World) (f : FilterId) (Boolean : Bool) :
    Except Stopped (World × Option ParamId) :=
  let (w, p) := w.newParameter (.boolean Boolean)
  w.cachedOutputSet f (some p)

/-- The loop over the connected nodes; each is evaluated by its own class's `OutputGet`. -/
def collectOutputs (OutputGet : World → FilterId → Except Stopped (World × Option ParamId)) :
    World → List NodePtr → Except Stopped (World × List (Option ParamId))
  | w, [] => .ok (w, [])
  | w, .null :: _ => .error (w, .fault .nullDereference)
  | w, .obj m :: Connected => do
    let (w, P) ← OutputGet w (.data m)
    let (w, Output) ← collectOutputs OutputGet w Connected
    .ok (w, P :: Output)

def inputParametersGet (OutputGet : World → FilterId → Except Stopped (World × Option ParamId))
    (w : World) (node : FilterNode) : Except Stopped (World × List (Option ParamId)) :=
  match w.parentNodeGet node with
  | .null => .error (w, .fault .nullDereference)
  | .obj n => collectOutputs OutputGet w (w.heap.connectedIncomingGet n).elems

/-- `fn_out::OutputGet` after it has collected its parameters. -/
def outResult (w : World) (f : FilterId) :
    List (Option ParamId) → Except Stopped (World × Option ParamId)
  | [] => .error (w, .userError "OUT requires a checkmark parameter." f)
  | [P] => do
    match ← w.castBoolean P with
    | none => .error (w, .fault (.assertion
        "The only 'OUT' node parameter should be a boolean parameter."))
    | some Boolean => w.cacheBoolean f Boolean
  | _ => .error (w, .userError
      "OUT requires only one parameter, which should be a checkmark." f)

/-- `fn_boolean_literal::OutputGet` after it has collected its parameters. -/
def literalResult (w : World) (f : FilterId) :
    List (Option ParamId) → Except Stopped (World × Option ParamId)
  | [P] => do
    match ← w.castBoolean P with
    | none => .error (w, .fault (.assertion
        "'fn_boolean_literal' only accepts boolean parameters."))
    | some Boolean => w.cacheBoolean f Boolean
  | [] => w.cacheBoolean f true
  | _ => .error (w, .fault (.assertion "Multiple parameters for boolean literal."))

/-- The virtual `OutputGet`, with at most `depth` nested calls. -/
def outputGet : Nat → World → FilterId → Except Stopped (World × Option ParamId)
  | 0, w, _ => .error (w, .stackOverflow)
  | depth + 1, w, f =>
    match w.filters f with
    | none => .error (w, .fault .destroyedObject)
    | some node =>
      match node.kind with
      | .filterNode => .ok (w, none)
      | .fnOut => do
        let (w, Parameters) ← inputParametersGet (outputGet depth) w node
        w.outResult f Parameters
      | .fnBooleanLiteral => do
        let (w, Parameters) ← inputParametersGet (outputGet depth) w node
        w.literalResult f Parameters

/-- The caller catches a `user_error_exception`; nothing else that stops a call is caught. -/
def evaluateFilter (w : World) (f : FilterId) (depth : Nat) : Except Stopped World :=
  match w.outputGet depth f with
  | .ok (w', _) => .ok w'
  | .error (w', .userError _ _) => .ok w'
  | .error stopped => .error stopped

end World

end Unotu.Filter
