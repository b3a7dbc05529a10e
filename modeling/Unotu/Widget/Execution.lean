import Unotu.Widget.FilterGraph
import Unotu.Graph.Settling

/-!
# Pressing ENTER

Neither the constructor nor the key that adds a literal sets the `ParentGraphNode` of a filter
node, and nothing does later. The graph always has its `OUT`, so an execution always
finds it, and always dereferences its missing parent.
-/

set_option autoImplicit false

namespace Unotu.Filter.World

open Unotu.Graph

variable {w : World}

/-- No filter node has a `ParentGraphNode`, and every living graph node has its filter node. -/
structure Unwired (w : World) : Prop where
  sound : w.heap.Sound
  noParent : ∀ f node, w.filters f = some node → node.parentGraphNode = none
  data : ∀ n, w.heap.isLive n → ∃ node, w.filters (.data n) = some node

structure HasOut (w : World) (g : GraphId) (out : NodeId) : Prop where
  member : w.heap.InGraph out g
  data : ∃ node, w.filters (.data out) = some node ∧ node.kind = .fnOut

theorem empty_unwired : World.empty.Unwired where
  sound := Heap.sound_empty
  noParent f node hf := by cases hf
  data n hn := by simp [empty, Heap.isLive_iff, Heap.empty] at hn

/-- No filter node is wired and the graph has its `OUT`. -/
structure Idle (w : World) (g : GraphId) : Prop where
  unwired : w.Unwired
  out : ∃ out, w.HasOut g out

theorem callGraph_eq {op : Op Unit Unit} {heap : Heap Unit Unit} (h : w.heap.step op = .ok heap) :
    w.callGraph op = .ok { w with heap := heap } := by
  simp only [callGraph, h]

theorem Unwired.settles (h : w.Unwired) {g : GraphId} {heap : Heap Unit Unit}
    (hs : w.heap.Settles heap g) : World.Unwired { w with heap := heap } where
  sound := hs.sound
  noParent := h.noParent
  data n hn := h.data n (hs.live n hn)

theorem Idle.callGraph {g : GraphId} (h : w.Idle g) {op : Op Unit Unit} {heap : Heap Unit Unit}
    (hstep : w.heap.step op = .ok heap) (hs : w.heap.Settles heap g) :
    ∃ w', w.callGraph op = .ok w' ∧ w'.Idle g := by
  obtain ⟨out, hmember, hdata⟩ := h.out
  exact ⟨_, callGraph_eq hstep, h.unwired.settles hs, out, hs.inGraph out hmember, hdata⟩

theorem Idle.nodeAdd {g : GraphId} (h : w.Idle g) (n : NodeId) :
    ∃ w', w.callGraph (.nodeAdd g n) = .ok w' ∧ w'.Idle g := by
  obtain ⟨heap, hstep, hs, -⟩ := Heap.nodeAdd_settles h.unwired.sound g n
  exact h.callGraph hstep hs

theorem Idle.connectTo {g : GraphId} (h : w.Idle g) (this : NodeId) (Destination : NodePtr)
    (e : EdgeId) : ∃ w', w.callGraph (.connectTo this Destination () e) = .ok w' ∧ w'.Idle g := by
  obtain ⟨heap, hstep, hs⟩ := Heap.connectTo_settles h.unwired.sound g this Destination () e
  exact h.callGraph hstep hs

theorem Idle.dropNode {g : GraphId} (h : w.Idle g) (n : NodeId) :
    ∃ w', w.callGraph (.dropNode n) = .ok w' ∧ w'.Idle g := by
  obtain ⟨heap, hstep, hs⟩ := Heap.dropNode_settles h.unwired.sound g n
  exact h.callGraph hstep hs

theorem newNode_of_used {n : NodeId} (hused : w.heap.nodes n ≠ .unused) (Data : FilterNode) :
    w.newNode n Data = w := by
  unfold newNode
  split
  · rename_i hunused
    exact absurd hunused hused
  · rfl

theorem newNode_of_unused {n : NodeId} (hunused : w.heap.nodes n = .unused) (Data : FilterNode) :
    (w.newNode n Data).heap.isLive n ∧ (w.newNode n Data).filters (.data n) = some Data := by
  simp [newNode, hunused, setFilter, Heap.makeNode, Heap.isLive_iff]

theorem newNode_graphs (n : NodeId) (Data : FilterNode) :
    (w.newNode n Data).heap.graphs = w.heap.graphs := by
  unfold newNode
  split
  · rename_i hunused
    simp [setFilter, Heap.makeNode, hunused]
  · rfl

theorem newNode_unwired (h : w.Unwired) (n : NodeId) {Data : FilterNode}
    (hparent : Data.parentGraphNode = none) :
    (w.newNode n Data).Unwired ∧ (∀ m, w.heap.isLive m → (w.newNode n Data).heap.isLive m ∧
        (w.newNode n Data).filters (.data m) = w.filters (.data m)) ∧
      ∀ m g, (w.newNode n Data).heap.InGraph m g ↔ w.heap.InGraph m g := by
  by_cases hunused : w.heap.nodes n = .unused
  · have hnew : w.newNode n Data =
        { w with heap := w.heap.makeNode n () }.setFilter (.data n) (some Data) := by
      simp only [newNode, hunused]
    obtain ⟨hp, M, hrep⟩ := h.sound
    have hrep' := Heap.makeNode_represents hrep hunused ()
    have hdead := hrep.notMem_of_unused hunused
    rw [hnew]
    refine ⟨⟨⟨Heap.makeNode_placed hp hunused (), _, hrep'⟩, ?_, ?_⟩, ?_, ?_⟩
    · intro f node hf
      rw [setFilter_filters] at hf
      split at hf
      · cases hf
        exact hparent
      · exact h.noParent f node hf
    · intro m hm
      rw [setFilter_filters]
      split
      · exact ⟨Data, rfl⟩
      · rename_i hmn
        rcases (hrep'.nodes m).mp hm with heq | hold
        · exact absurd (congrArg FilterId.data heq) hmn
        · exact h.data m ((hrep.nodes m).mpr hold)
    · intro m hm
      have hmM := (hrep.nodes m).mp hm
      have hmn : m ≠ n := fun heq => hdead (heq ▸ hmM)
      refine ⟨(hrep'.nodes m).mpr (Or.inr hmM), ?_⟩
      simp only [setFilter_filters, FilterId.data.injEq, if_neg hmn]
    · intro m g
      exact Heap.inGraph_makeNode hunused () m g
  · rw [newNode_of_used hunused]
    exact ⟨h, fun m hm => ⟨hm, rfl⟩, fun _ _ => Iff.rfl⟩

theorem Idle.newNode {g : GraphId} (h : w.Idle g) (n : NodeId) {Data : FilterNode}
    (hparent : Data.parentGraphNode = none) : (w.newNode n Data).Idle g := by
  obtain ⟨hunwired, hkept, hin⟩ := newNode_unwired h.unwired n hparent
  obtain ⟨out, hmember, hdata⟩ := h.out
  refine ⟨hunwired, out, (hin out g).mpr hmember, ?_⟩
  rw [(hkept out hmember.isLive).2]
  exact hdata

theorem Idle.positionSet {g : GraphId} (h : w.Idle g) (n : NodeId) (Position : DPoint) :
    (w.positionSet n Position).Idle g := by
  unfold World.positionSet
  split
  · exact h
  · rename_i Data hdata
    refine ⟨⟨h.unwired.sound, ?_, ?_⟩, ?_⟩
    · intro f node hf
      rw [setFilter_filters] at hf
      split at hf
      · cases hf
        exact h.unwired.noParent (.data n) Data hdata
      · exact h.unwired.noParent f node hf
    · intro m hm
      rw [setFilter_filters]
      split
      · exact ⟨_, rfl⟩
      · exact h.unwired.data m hm
    · obtain ⟨out, hmember, node, hnode, hkind⟩ := h.out
      refine ⟨out, hmember, ?_⟩
      rw [setFilter_filters]
      split
      · rename_i heq
        rw [heq, hdata] at hnode
        cases hnode
        exact ⟨_, rfl, hkind⟩
      · exact ⟨node, hnode, hkind⟩

structure Drawn (w w' : World) : Prop where
  heap : w'.heap = w.heap
  data : ∀ n, w'.filters (.data n) = w.filters (.data n)
  noParent : ∀ f node, w'.filters f = some node → node.parentGraphNode = none

theorem deleteParameter_eq {c : Option ParamId} {w' : World} (h : w.deleteParameter c = .ok w') :
    w'.heap = w.heap ∧ w'.filters = w.filters := by
  unfold deleteParameter at h
  split at h
  · cases h
    exact ⟨rfl, rfl⟩
  · split at h
    · cases h
    · cases h
      exact ⟨rfl, rfl⟩

theorem draw_drawn {w₀ w' : World} {op : DrawOp} (h : w₀.Drawn w) (hdraw : w.draw op = .ok w') :
    w₀.Drawn w' := by
  cases op with
  | copy k Node =>
    cases Node with
    | null => cases hdraw
    | obj n =>
      simp only [draw] at hdraw
      split at hdraw
      · cases hdraw
      · rename_i Data hdata
        cases hdraw
        refine ⟨h.heap, ?_, ?_⟩
        · intro m
          rw [setFilter_filters, if_neg (by simp)]
          exact h.data m
        · intro f node hf
          rw [setFilter_filters] at hf
          split at hf
          · cases hf
            exact h.noParent _ Data hdata
          · exact h.noParent f node hf
  | endOfScope k =>
    simp only [draw, destroyFilter] at hdraw
    split at hdraw
    · cases hdraw
    · rename_i node _
      cases hdelete : w.deleteParameter node.cachedOutput with
      | error e => simp [hdelete, bind, Except.bind] at hdraw
      | ok w₁ =>
        rw [hdelete] at hdraw
        cases hdraw
        obtain ⟨hheap, hfilters⟩ := deleteParameter_eq hdelete
        refine ⟨hheap.trans h.heap, ?_, ?_⟩
        · intro m
          rw [setFilter_filters, if_neg (by simp), hfilters]
          exact h.data m
        · intro f node hf
          rw [setFilter_filters, hfilters] at hf
          split at hf
          · cases hf
          · exact h.noParent f node hf

theorem Idle.onRefresh {g : GraphId} (h : w.Idle g) {w' : World}
    (hrefresh : w.onRefresh g = .ok w') : w'.Idle g := by
  have hdrawn : w.Drawn w' := Runs.run_preserves draw (P := fun w' => w.Drawn w')
    (fun _ _ _ => draw_drawn) ⟨rfl, fun _ => rfl, h.unwired.noParent⟩ hrefresh
  obtain ⟨out, hmember, hdata⟩ := h.out
  refine ⟨⟨?_, hdrawn.noParent, ?_⟩, out, ?_, ?_⟩
  · rw [hdrawn.heap]
    exact h.unwired.sound
  · intro n hn
    rw [hdrawn.heap] at hn
    rw [hdrawn.data]
    exact h.unwired.data n hn
  · rw [hdrawn.heap]
    exact hmember
  · rw [hdrawn.data]
    exact hdata

/-! ## The execution -/

theorem findOut_eq (h : w.Unwired) {Nodes : List NodeId}
    (hlive : ∀ n ∈ Nodes, w.heap.isLive n) {out : NodeId} (hmem : out ∈ Nodes)
    (hout : ∃ node, w.filters (.data out) = some node ∧ node.kind = .fnOut) :
    ∃ n node, w.findOut Nodes = .ok (some n) ∧ w.filters (.data n) = some node ∧
      node.kind = .fnOut := by
  induction Nodes with
  | nil => cases hmem
  | cons n Nodes ih =>
    obtain ⟨node, hnode⟩ := h.data n (hlive n List.mem_cons_self)
    simp only [findOut, hnode]
    by_cases hclass : node.kind = .fnOut
    · rw [if_pos hclass]
      exact ⟨n, node, rfl, hnode, hclass⟩
    · rw [if_neg hclass]
      apply ih fun m hm => hlive m (List.mem_cons_of_mem n hm)
      rcases List.mem_cons.mp hmem with heq | htail
      · subst n
        obtain ⟨node', hnode', hkind⟩ := hout
        rw [hnode] at hnode'
        cases hnode'
        exact absurd hkind hclass
      · exact htail

/-- `InputParametersGet` dereferences the result of `ParentNodeGet`. -/
theorem outputGet_unwired (h : w.Unwired) {f : FilterId} {node : FilterNode}
    (hf : w.filters f = some node) (hkind : node.kind = .fnOut) (depth : Nat) :
    w.outputGet (depth + 1) f = .error (w, .fault .nullDereference) := by
  have hparent : w.parentNodeGet node = .null := by
    simp only [parentNodeGet, h.noParent f node hf]
  simp only [outputGet, hf, hkind, inputParametersGet, hparent]
  rfl

theorem Idle.executeGraph {g : GraphId} (h : w.Idle g) (depth : Nat) :
    w.executeGraph g (depth + 1) = .error (w, .fault .nullDereference) := by
  obtain ⟨out, hmember, hdata⟩ := h.out
  have hin := h.unwired.sound.1.member g
  have hlive : ∀ n ∈ (w.heap.nodeGetAll g).elems, w.heap.isLive n := by
    intro n hn
    exact ((hin n).mp (OrderedSet.mem_elems.mp hn)).isLive
  have hmem : out ∈ (w.heap.nodeGetAll g).elems := OrderedSet.mem_elems.mpr ((hin out).mpr hmember)
  obtain ⟨n, node, hfind, hnode, hclass⟩ := findOut_eq h.unwired hlive hmem hdata
  simp only [World.executeGraph, hfind, bind, Except.bind,
    outputGet_unwired h.unwired hnode hclass]

end Unotu.Filter.World

namespace Unotu.Widget.FilterGraph

open Unotu.Graph Unotu.Filter

variable {w : FilterGraph}

def Idle (w : FilterGraph) : Prop := w.world.Idle w.graph

theorem Idle.keyEnter (h : w.Idle) (s : Surroundings) :
    w.keyEnter s .press = .error (w, .fault .nullDereference) := by
  simp only [FilterGraph.keyEnter, if_true, World.Idle.executeGraph h]
  rfl

theorem Idle.addLiteral (h : w.Idle) (s : Surroundings) :
    ∃ w', w.addLiteral s = .ok w' ∧ w'.Idle := by
  unfold FilterGraph.addLiteral
  split
  · have hnew := World.Idle.newNode h s.address (rfl : fnBooleanLiteral.parentGraphNode = none)
    obtain ⟨w₁, hw₁, h₁⟩ := hnew.nodeAdd s.address
    obtain ⟨w₂, hw₂, h₂⟩ := (h₁.positionSet s.address
      (w.view.mousePositionInGraphCoordinates s.screen +
        w.view.viewOrigin * ((2 : ℚ) : DPoint))).dropNode s.address
    simp only [hw₁, hw₂, bind, Except.bind, FilterGraph.onWorld]
    exact ⟨_, rfl, h₂⟩
  · exact ⟨w, rfl, h⟩

theorem threeNodes_unwired {w₁ : World} (h : w₁.Unwired) (hempty : ∀ n, w₁.heap.nodes n = .unused)
    (a : Addresses) :
    ∃ w₂, ((w₁.newNode a.out fnOut).newNode a.first (filterNode ⟨1 / 10, 1 / 2⟩ "No name")).newNode
        a.second (filterNode ⟨4 / 5, 3 / 5⟩ "No name") = w₂ ∧ w₂.Unwired ∧
      w₂.heap.graphs = w₁.heap.graphs ∧ w₂.heap.isLive a.out ∧
      w₂.filters (.data a.out) = some fnOut := by
  obtain ⟨hlive, hdata⟩ := World.newNode_of_unused (hempty a.out) fnOut
  obtain ⟨h₁, -, -⟩ := World.newNode_unwired h a.out (rfl : fnOut.parentGraphNode = none)
  obtain ⟨h₂, hkept, -⟩ := World.newNode_unwired h₁ a.first
    (rfl : (filterNode ⟨1 / 10, 1 / 2⟩ "No name").parentGraphNode = none)
  obtain ⟨hlive₂, hdata₂⟩ := hkept a.out hlive
  obtain ⟨h₃, hkept', -⟩ := World.newNode_unwired h₂ a.second
    (rfl : (filterNode ⟨4 / 5, 3 / 5⟩ "No name").parentGraphNode = none)
  obtain ⟨hlive₃, hdata₃⟩ := hkept' a.out hlive₂
  refine ⟨_, rfl, h₃, ?_, hlive₃, hdata₃.trans (hdata₂.trans hdata)⟩
  rw [World.newNode_graphs, World.newNode_graphs, World.newNode_graphs]

theorem construct_idle (a : Addresses) : ∃ w, construct a = .ok w ∧ w.Idle := by
  let w₁ : World := { World.empty with heap := Heap.empty.makeGraph 0 }
  have hgraph : World.empty.callGraph (.makeGraph 0) = .ok w₁ := rfl
  have h₁ : w₁.Unwired := by
    have hsound : w₁.heap.Sound := ⟨Heap.makeGraph_placed Heap.empty_placed 0, _,
      Heap.makeGraph_represents Heap.empty_represents 0⟩
    refine ⟨hsound, World.empty_unwired.noParent, ?_⟩
    intro n hn
    cases hn
  obtain ⟨w₂, hnodes, h₂, hgraphs, hlive, hdata⟩ := threeNodes_unwired h₁ (fun _ => rfl) a
  have hg : 0 ∈ w₂.heap.graphs := by
    rw [hgraphs]
    exact OrderedSet.mem_insert.mpr (Or.inl rfl)
  obtain ⟨heap, hstep, hs, hin⟩ := Heap.nodeAdd_settles h₂.sound 0 a.out
  have hout := World.callGraph_eq hstep
  have h₃ : World.Idle { w₂ with heap := heap } 0 :=
    ⟨h₂.settles hs, a.out, hin hg hlive, fnOut, hdata, rfl⟩
  obtain ⟨w₄, hw₄, h₄⟩ := h₃.nodeAdd a.first
  obtain ⟨w₅, hw₅, h₅⟩ := h₄.nodeAdd a.second
  obtain ⟨w₆, hw₆, h₆⟩ := h₅.connectTo a.first (.obj a.out) a.firstEdge
  obtain ⟨w₇, hw₇, h₇⟩ := h₆.connectTo a.second (.obj a.out) a.secondEdge
  have h₈ := h₇.newNode a.origin
    (rfl : (filterNode ⟨0, 0⟩ "I'm the origin!").parentGraphNode = none)
  obtain ⟨w₉, hw₉, h₉⟩ := h₈.nodeAdd a.origin
  obtain ⟨w₁₀, hw₁₀, h₁₀⟩ := h₉.dropNode a.origin
  obtain ⟨w₁₁, hw₁₁, h₁₁⟩ := h₁₀.dropNode a.out
  obtain ⟨w₁₂, hw₁₂, h₁₂⟩ := h₁₁.dropNode a.first
  obtain ⟨w₁₃, hw₁₃, h₁₃⟩ := h₁₂.dropNode a.second
  refine ⟨{ world := w₁₃, graph := 0 }, ?_, h₁₃⟩
  simp only [construct, hgraph, hnodes, hout, hw₄, hw₅, hw₆, hw₇, hw₉, hw₁₀, hw₁₁, hw₁₂, hw₁₃, bind,
    Except.bind]

/-! ## Runs of the widget -/

/-- A press of `1` does not get past the `ENTER` it falls through to. -/
theorem Idle.keyOne (h : w.Idle) {s : Surroundings} {Action : KeyAction}
    {r : FilterGraph × Option Bool} (hr : w.keyOne s Action = .ok r) : r.1.Idle := by
  unfold FilterGraph.keyOne at hr
  by_cases hpress : Action = .press
  · subst Action
    obtain ⟨w', hw', hidle⟩ := h.addLiteral s
    simp [hw', hidle.keyEnter s, bind, Except.bind] at hr
  · simp only [if_neg hpress, bind, Except.bind, FilterGraph.keyEnter, Except.ok.injEq] at hr
    rw [← hr]
    exact h

theorem Idle.onKeyInput (h : w.Idle) {s : Surroundings} {Action : KeyAction} {Key : Key}
    {r : FilterGraph × Option Bool} (hr : w.onKeyInput s Action Key = .ok r) : r.1.Idle := by
  cases Key with
  | home =>
    cases hr
    unfold FilterGraph.keyHome
    split
    · exact h
    · exact h
  | space =>
    have hfall : ∃ view, w.onKeyInput s Action .space = (w.setView view).keyOne s Action := ⟨_, rfl⟩
    obtain ⟨view, hview⟩ := hfall
    have hidle : (w.setView view).Idle := h
    exact hidle.keyOne (hview.symm.trans hr)
  | one => exact h.keyOne hr
  | enter =>
    by_cases hpress : Action = .press
    · subst Action
      have hfault := h.keyEnter s
      rw [FilterGraph.onKeyInput, hfault] at hr
      cases hr
    · simp only [FilterGraph.onKeyInput, FilterGraph.keyEnter, if_neg hpress, Except.ok.injEq] at hr
      rw [← hr]
      exact h
  | other =>
    cases hr
    exact h

theorem Idle.step (h : w.Idle) {input : Surroundings × Event} {w' : FilterGraph}
    (hstep : w.step input = .ok w') : w'.Idle := by
  obtain ⟨s, event⟩ := input
  cases event with
  | onTick =>
    cases hstep
    unfold FilterGraph.onTick
    split
    · exact h
    · exact h
  | onRefresh =>
    simp only [FilterGraph.step, FilterGraph.onRefresh] at hstep
    cases hrefresh : w.world.onRefresh w.graph with
    | error e =>
      rw [hrefresh] at hstep
      cases hstep
    | ok world =>
      rw [hrefresh] at hstep
      cases hstep
      exact World.Idle.onRefresh h hrefresh
  | scrollLines Lines =>
    cases hstep
    exact h
  | scrollPages Pages =>
    cases hstep
    exact h
  | onMousePressed Button =>
    cases hstep
    unfold FilterGraph.onMousePressed
    split
    · split
      · exact h
      · exact h
    · exact h
    · exact h
  | onMouseReleased Button =>
    cases hstep
    unfold FilterGraph.onMouseReleased
    split
    · exact h
    · exact h
    · exact h
  | onKeyInput Action Key =>
    cases hkey : w.onKeyInput s Action Key with
    | error e => simp [FilterGraph.step, hkey, Except.map] at hstep
    | ok r =>
      simp only [FilterGraph.step, hkey, Except.map, Except.ok.injEq] at hstep
      rw [← hstep]
      exact h.onKeyInput hkey

/-- The evaluation of `OUT` yields a boolean, or a user error is thrown. -/
def EnterSafe (w : FilterGraph) (s : Surroundings) : Prop :=
  (∃ w' Boolean, w.onKeyInput s .press .enter = .ok (w', some Boolean)) ∨
    ∃ w' What Source, w.onKeyInput s .press .enter = .error (w', .userError What Source)

theorem not_enterSafe_of_fault {s : Surroundings} {w' : FilterGraph} {f : Fault}
    (hfault : w.onKeyInput s .press .enter = .error (w', .fault f)) : ¬ w.EnterSafe s := by
  intro hsafe
  rcases hsafe with ⟨w'', Boolean, hok⟩ | ⟨w'', What, Source, herror⟩
  · rw [hfault] at hok
    cases hok
  · rw [hfault] at herror
    cases herror

/-- The graph has its `OUT`, no member has a `ParentGraphNode` that locks, and an execution
dereferences a null pointer. -/
structure EnterFaults (w : FilterGraph) : Prop where
  out : ∃ n, w.world.heap.InGraph n w.graph ∧ w.world.kindOf n = .fnOut
  noLock : ∀ n node, w.world.heap.InGraph n w.graph → w.world.filters (.data n) = some node →
    w.world.parentNodeGet node = .null
  enter : ∀ s, w.onKeyInput s .press .enter = .error (w, .fault .nullDereference)
  notSafe : ∀ s, ¬ w.EnterSafe s

theorem Idle.enterFaults (h : w.Idle) : w.EnterFaults where
  out := by
    obtain ⟨out, hmember, node, hnode, hkind⟩ := h.out
    exact ⟨out, hmember, by simp only [World.kindOf, hnode, hkind]⟩
  noLock n node _ hnode := by
    simp only [World.parentNodeGet, h.unwired.noParent _ node hnode]
  enter s := h.keyEnter s
  notSafe s := not_enterSafe_of_fault (h.keyEnter s)

/-- In every state of the widget that events lead to, pressing `ENTER` dereferences null. -/
theorem run_enterFaults (a : Addresses) (events : List (Surroundings × Event)) :
    ∃ w, construct a = .ok w ∧ Runs.Along step EnterFaults w events := by
  obtain ⟨w, hw, hidle⟩ := construct_idle a
  refine ⟨w, hw, ?_⟩
  intro before w' _ hrun
  have hidle' := Runs.run_preserves step (P := Idle) (fun _ _ _ h hs => h.step hs) hidle hrun
  exact hidle'.enterFaults

/-- The first node of the constructor at the lowest address. -/
def ascending : Addresses where
  out := 0
  first := 1
  second := 2
  origin := 3
  firstEdge := 0
  secondEdge := 1
  nodes_nodup := by decide
  edges_ne := by decide

/-- A fresh widget faults, whatever the screen and the keys. -/
theorem fresh_widget_faults :
    ∃ w, construct ascending = .ok w ∧ ∀ s, ¬ w.EnterSafe s ∧
      w.onKeyInput s .press .enter = .error (w, .fault .nullDereference) := by
  have hconstruct : ∃ w, construct ascending = .ok w ∧ ∀ s,
      w.onKeyInput s .press .enter = .error (w, .fault .nullDereference) :=
    ⟨_, rfl, fun _ => rfl⟩
  obtain ⟨w, hw, hfault⟩ := hconstruct
  exact ⟨w, hw, fun s => ⟨not_enterSafe_of_fault (hfault s), hfault s⟩⟩

end Unotu.Widget.FilterGraph
