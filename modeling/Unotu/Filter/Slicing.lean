import Unotu.Filter.Building

/-!
# What a graph node holds of a filter node

`ParentGraphNode` points to a `graph_node<filter_node, void*>`, whose `Data` is a `filter_node`
by value: made from an object of a derived class, it is the sliced base of that object. The
widget's `graph_node<filter_node*, void*>` has a pointer to the object itself.
-/

set_option autoImplicit false

namespace Unotu.Filter

open Unotu.Graph

/-- The `node_data` of a graph of filter nodes. -/
inductive NodeData where
  | filterNode
  | filterNodePointer
deriving DecidableEq

/-- The object that is placed in a graph node; a graph of values only copies from it. -/
def NodeData.object : NodeData → NodeId → FilterId
  | .filterNode, n => .copy n
  | .filterNodePointer, n => .data n

/-- The steps of a run. A caller may evaluate a placed object at any time, and may give it
any new parameter as its cached output. -/
inductive PlaceOp where
  | build (op : BuildOp)
  | cachedOutputSet (n : NodeId) (P : Parameter)
  | outputGet (n : NodeId) (depth : Nat)

namespace World

/-- A new graph node made from `Data`; `ParentGraphNode` of the object, and of what the graph
node holds, is set to it. -/
def placeFilter (d : NodeData) (w : World) (n : NodeId) (Data : FilterNode) : World :=
  match d, w.heap.nodes n with
  | .filterNode, .unused => (w.makeFilter n Data.slice).setFilter (.copy n)
      (some { Data with parentGraphNode := some n, cachedOutput := none })
  | _, _ => w.makeFilter n Data

def buildIn (d : NodeData) (w : World) : BuildOp → Except Stop World
  | .makeFilter n Data => .ok (w.placeFilter d n Data)
  | op => w.build op

def perform (d : NodeData) (w : World) : PlaceOp → Except Stopped World
  | .build op =>
    match w.buildIn d op with
    | .ok w' => .ok w'
    | .error e => .error (w, e)
  | .cachedOutputSet n P =>
    if w.heap.isLive n then
      ((w.newParameter P).1.cachedOutputSet (d.object n) (some w.nextParam)).map Prod.fst
    else .ok w
  | .outputGet n depth =>
    if w.heap.isLive n then w.evaluateFilter (d.object n) depth else .ok w

/-- The class of the object that was placed in the graph node. -/
def placedKind (d : NodeData) (w : World) (n : NodeId) : FilterKind :=
  match w.filters (d.object n) with
  | none => .filterNode
  | some node => node.kind

def placedShape (d : NodeData) (w : World) : Shape where
  kind := w.placedKind d
  preds := w.shape.preds

/-! ## What every run keeps -/

/-- The filter nodes that graph nodes hold, without the objects outside. -/
def withoutCopies (w : World) : World :=
  { w with filters := fun f =>
      match f with
      | .data n => w.filters (.data n)
      | .copy _ => none }

/-- Every graph node has a placed object, both are wired, and a graph of values holds bases. -/
structure Laid (d : NodeData) (w : World) : Prop where
  built : ∃ M, w.withoutCopies.Built M
  owned : w.Owned
  objects : ∀ n, w.heap.isLive n →
    ∃ node, w.filters (d.object n) = some node ∧ node.parentGraphNode = some n
  sliced : d = .filterNode → ∀ n, w.kindOf n = .filterNode

variable {d : NodeData} {w : World}

theorem Laid.ready (h : w.Laid d) : w.Ready := by
  obtain ⟨M, hbuilt⟩ := h.built
  exact ⟨hbuilt.sound, hbuilt.wired, h.owned⟩

theorem Owned.withoutCopies (h : w.Owned) : w.withoutCopies.Owned := by
  refine ⟨?_, ?_, h.fresh⟩
  · intro f node p hf hp
    cases f with
    | data n => exact h.stored (.data n) node p hf hp
    | copy k => cases hf
  · intro f g node node' p hf hg hp hp'
    cases f with
    | data n =>
      cases g with
      | data m => exact h.sole (.data n) (.data m) node node' p hf hg hp hp'
      | copy k => cases hg
    | copy k => cases hf

theorem Keeps.withoutCopies {w' : World} (h : Keeps w w') :
    Keeps w.withoutCopies w'.withoutCopies where
  heap := h.heap
  filters f := by
    cases f with
    | data n => exact h.filters (.data n)
    | copy k => rfl

theorem Laid.keeps (h : w.Laid d) {w' : World} (hk : Keeps w w') (howned : w'.Owned) :
    w'.Laid d where
  built := by
    obtain ⟨M, hbuilt⟩ := h.built
    exact ⟨M, hbuilt.keeps hk.withoutCopies howned.withoutCopies⟩
  owned := howned
  objects n hn := by
    rw [hk.heap] at hn
    obtain ⟨node, hnode, hparent⟩ := h.objects n hn
    obtain ⟨c, hc⟩ := hk.exists_filter hnode
    exact ⟨_, hc, hparent⟩
  sliced hd n := by
    rw [hk.kindOf]
    exact h.sliced hd n

theorem empty_laid (d : NodeData) : World.empty.Laid d where
  built := ⟨_, by
    have hsame : World.empty.withoutCopies = World.empty := by
      simp only [withoutCopies, empty, World.mk.injEq, true_and, and_true]
      funext f
      cases f with
      | data n => rfl
      | copy k => rfl
    rw [hsame]
    exact empty_built⟩
  owned := empty_built.owned
  objects n hn := by simp [empty, Heap.isLive_iff, Heap.empty] at hn
  sliced _ _ := rfl

/-! ## One step -/

/-- Only the creation of a filter node looks at more than the heap. -/
theorem build_congr {v w w' : World} (hheap : v.heap = w.heap) {op : BuildOp}
    (hop : ∀ n Data, op ≠ .makeFilter n Data) (hw : w.build op = .ok w') :
    v.build op = .ok { v with heap := w'.heap } := by
  have hstep : ∀ r : Except Fault (Heap Unit Unit), w.withHeap r = .ok w' →
      v.withHeap r = .ok { v with heap := w'.heap } := by
    intro r hr
    cases r with
    | error f => cases hr
    | ok heap =>
      cases hr
      rfl
  cases op with
  | makeFilter n Data => exact absurd rfl (hop n Data)
  | makeGraph g =>
    simp only [build, hheap] at hw ⊢
    exact hstep _ hw
  | nodeAdd g n =>
    simp only [build, hheap] at hw ⊢
    exact hstep _ hw
  | connectTo this Destination e =>
    simp only [build, hheap] at hw ⊢
    exact hstep _ hw

theorem build_laid (h : w.Laid d) (op : BuildOp) (hop : ∀ n Data, op ≠ .makeFilter n Data) :
    ∃ w', w.build op = .ok w' ∧ w'.Laid d := by
  obtain ⟨M, hbuilt⟩ := h.built
  obtain ⟨v, M', hv, hbuilt', hstep⟩ := build_spec hbuilt op
  have hheap : w.heap = w.withoutCopies.heap := rfl
  refine ⟨{ w with heap := v.heap }, build_congr hheap hop hv, ?_⟩
  have hsame : v.filters = w.withoutCopies.filters ∧ M'.nodes = M.nodes := by
    cases hstep with
    | connected _ _ _ _ hf => exact ⟨hf, rfl⟩
    | created => exact absurd rfl (hop _ _)
    | kept _ hf => exact ⟨hf, rfl⟩
  refine ⟨⟨M', ?_⟩, ⟨h.owned.stored, h.owned.sole, h.owned.fresh⟩, ?_, h.sliced⟩
  · refine ⟨hbuilt'.placed, hbuilt'.represents, hbuilt'.finite, ?_, ?_, fun _ => rfl⟩
    · intro n hn
      obtain ⟨node, hnode, hparent⟩ := hbuilt'.wired n hn
      rw [hsame.1] at hnode
      exact ⟨node, hnode, hparent⟩
    · exact ⟨h.owned.withoutCopies.stored, h.owned.withoutCopies.sole, h.owned.fresh⟩
  · intro n hn
    have hmem := (hbuilt'.represents.nodes n).mp hn
    rw [hsame.2] at hmem
    exact h.objects n ((hbuilt.represents.nodes n).mpr hmem)

theorem makeFilter_eq {n : NodeId} (hunused : w.heap.nodes n = .unused) (Data : FilterNode) :
    w.makeFilter n Data = { w with heap := w.heap.makeNode n () }.setFilter (.data n)
      (some { Data with parentGraphNode := some n, cachedOutput := none }) := by
  simp only [makeFilter, hunused]

theorem withoutCopies_setFilter_data (w : World) (n : NodeId) (node : Option FilterNode) :
    (w.setFilter (.data n) node).withoutCopies = w.withoutCopies.setFilter (.data n) node := by
  simp only [withoutCopies, setFilter, World.mk.injEq, true_and, and_true]
  funext f
  cases f with
  | data m => simp [Function.update_apply]
  | copy k => simp

theorem withoutCopies_setFilter_copy (w : World) (k : Nat) (node : Option FilterNode) :
    (w.setFilter (.copy k) node).withoutCopies = w.withoutCopies := by
  simp only [withoutCopies, setFilter, World.mk.injEq, true_and, and_true]
  funext f
  cases f with
  | data m => simp
  | copy k => rfl

theorem withoutCopies_makeFilter {n : NodeId} (hunused : w.heap.nodes n = .unused)
    (Data : FilterNode) :
    (w.makeFilter n Data).withoutCopies = w.withoutCopies.makeFilter n Data := by
  have hunused' : w.withoutCopies.heap.nodes n = .unused := hunused
  rw [makeFilter_eq hunused, makeFilter_eq hunused', withoutCopies_setFilter_data]
  rfl

theorem makeFilter_owned (h : w.Owned) {n : NodeId} (hunused : w.heap.nodes n = .unused)
    (Data : FilterNode) : (w.makeFilter n Data).Owned := by
  rw [makeFilter_eq hunused]
  have hmade : World.Owned { w with heap := w.heap.makeNode n () } := ⟨h.stored, h.sole, h.fresh⟩
  exact hmade.setUncached (.data n) rfl

theorem withoutCopies_makeFilter_built {M : Multigraph NodeId EdgeId}
    (h : w.withoutCopies.Built M) {n : NodeId} (hunused : w.heap.nodes n = .unused)
    (Data : FilterNode) : (w.makeFilter n Data).withoutCopies.Built (M.addNode n) := by
  rw [withoutCopies_makeFilter hunused]
  exact (makeFilter_built h hunused Data).1

theorem makeFilter_copy {n : NodeId} (hunused : w.heap.nodes n = .unused) (Data : FilterNode)
    (k : Nat) : (w.makeFilter n Data).filters (.copy k) = w.filters (.copy k) := by
  rw [makeFilter_eq hunused, setFilter_filters, if_neg (by simp)]

/-- By value the graph node gets the sliced object, and the object stays outside. -/
theorem placeSliced_laid (h : w.Laid .filterNode) {n : NodeId} (hunused : w.heap.nodes n = .unused)
    (Data : FilterNode) :
    ((w.makeFilter n Data.slice).setFilter (.copy n)
      (some { Data with parentGraphNode := some n, cachedOutput := none })).Laid .filterNode := by
  obtain ⟨M, hbuilt⟩ := h.built
  have hlaid := withoutCopies_makeFilter_built hbuilt hunused Data.slice
  refine ⟨⟨M.addNode n, ?_⟩, ?_, ?_, ?_⟩
  · rw [withoutCopies_setFilter_copy]
    exact hlaid
  · exact (makeFilter_owned h.owned hunused Data.slice).setUncached (.copy n) rfl
  · intro m hm
    rw [NodeData.object, setFilter_filters, makeFilter_copy hunused]
    by_cases hmn : m = n
    · subst m
      exact ⟨_, if_pos rfl, rfl⟩
    · rcases (hlaid.represents.nodes m).mp hm with hmem | hmem
      · exact absurd hmem hmn
      · obtain ⟨node, hnode, hparent⟩ := h.objects m ((hbuilt.represents.nodes m).mpr hmem)
        refine ⟨node, ?_, hparent⟩
        rw [if_neg (by simpa using hmn)]
        exact hnode
  · intro _ m
    have hbase := h.sliced rfl m
    rw [kindOf, setFilter_filters, if_neg (by simp), makeFilter_eq hunused, setFilter_filters]
    by_cases hmn : m = n
    · simp [hmn, FilterNode.slice]
    · simpa [hmn, kindOf] using hbase

theorem placeFilter_laid (h : w.Laid d) (n : NodeId) (Data : FilterNode) :
    (w.placeFilter d n Data).Laid d := by
  by_cases hunused : w.heap.nodes n = .unused
  · cases d with
    | filterNodePointer =>
      obtain ⟨M, hbuilt⟩ := h.built
      have hlaid := withoutCopies_makeFilter_built hbuilt hunused Data
      exact ⟨⟨_, hlaid⟩, makeFilter_owned h.owned hunused Data, hlaid.wired, by simp⟩
    | filterNode =>
      have hplace : w.placeFilter .filterNode n Data = (w.makeFilter n Data.slice).setFilter (.copy n)
          (some { Data with parentGraphNode := some n, cachedOutput := none }) := by
        simp only [placeFilter, hunused]
      rw [hplace]
      exact placeSliced_laid h hunused Data
  · have hsame : w.placeFilter d n Data = w := by
      unfold placeFilter
      split
      · rename_i hu
        exact absurd hu hunused
      · exact makeFilter_of_used hunused Data
    rw [hsame]
    exact h

theorem buildIn_laid (h : w.Laid d) (op : BuildOp) : ∃ w', w.buildIn d op = .ok w' ∧ w'.Laid d := by
  cases op with
  | makeFilter n Data => exact ⟨_, rfl, placeFilter_laid h n Data⟩
  | makeGraph g => exact build_laid h (.makeGraph g) (by simp)
  | nodeAdd g n => exact build_laid h (.nodeAdd g n) (by simp)
  | connectTo this Destination e => exact build_laid h (.connectTo this Destination e) (by simp)

/-! ## Evaluations -/

/-- The call ends with the graph as it was and with single owners, whatever it returns. -/
def Ends {α : Type} (w : World) (r : Except Stopped (World × α)) : Prop :=
  ∃ w', Keeps w w' ∧ w'.Owned ∧ ((∃ a, r = .ok (w', a)) ∨ ∃ e, r = .error (w', e))

theorem Ends.weaken {α : Type} {w' : World} {r : Except Stopped (World × α)} (hk : Keeps w w')
    (h : w'.Ends r) : w.Ends r := by
  obtain ⟨w'', hkeeps, howned, hr⟩ := h
  exact ⟨w'', hk.trans hkeeps, howned, hr⟩

theorem error_ends {α : Type} (h : w.Owned) (e : Stop) :
    w.Ends (.error (w, e) : Except Stopped (World × α)) :=
  ⟨w, .refl w, h, Or.inr ⟨e, rfl⟩⟩

theorem cacheBoolean_ends (h : w.Owned) {f : FilterId} {node : FilterNode}
    (hf : w.filters f = some node) (b : Bool) : w.Ends (w.cacheBoolean f b) := by
  obtain ⟨w', hset, howned, hkeeps, -⟩ := cacheNew_spec h hf (.boolean b)
  exact ⟨w', hkeeps, howned, Or.inl ⟨_, hset⟩⟩

theorem outResult_ends (h : w.Owned) {f : FilterId} {node : FilterNode}
    (hf : w.filters f = some node) {Parameters : List (Option ParamId)} {values : List Value}
    (hvalues : w.HaveValues Parameters values) : w.Ends (w.outResult f Parameters) := by
  rcases Parameters with _ | ⟨P, _ | ⟨P', Parameters⟩⟩
  · exact error_ends h _
  · obtain ⟨v, rfl⟩ := List.length_eq_one_iff.mp hvalues.1.symm
    have hcast := castBoolean_of_hasValue (hvalues.2 P v rfl rfl)
    simp only [outResult, hcast]
    cases v with
    | none => exact error_ends h _
    | some b => exact cacheBoolean_ends h hf b
  · exact error_ends h _

theorem literalResult_ends (h : w.Owned) {f : FilterId} {node : FilterNode}
    (hf : w.filters f = some node) {Parameters : List (Option ParamId)} {values : List Value}
    (hvalues : w.HaveValues Parameters values) : w.Ends (w.literalResult f Parameters) := by
  rcases Parameters with _ | ⟨P, _ | ⟨P', Parameters⟩⟩
  · exact cacheBoolean_ends h hf true
  · obtain ⟨v, rfl⟩ := List.length_eq_one_iff.mp hvalues.1.symm
    have hcast := castBoolean_of_hasValue (hvalues.2 P v rfl rfl)
    simp only [literalResult, hcast]
    cases v with
    | none => exact error_ends h _
    | some b => exact cacheBoolean_ends h hf b
  · exact error_ends h _

theorem Simulates.ends_bind {α β γ : Type} {Rel : World → α → β → Prop}
    {r : Except Stopped (World × α)} {s : Option (Except Stop β)} (h : Simulates w Rel r s)
    {f : World × α → Except Stopped (World × γ)}
    (hf : ∀ w' a b, Ready w' → Keeps w w' → Rel w' a b → w'.Ends (f (w', a))) :
    w.Ends (r >>= f) := by
  cases h with
  | deep ready keeps => exact ⟨_, keeps, ready.owned, Or.inr ⟨_, rfl⟩⟩
  | stop ready keeps => exact ⟨_, keeps, ready.owned, Or.inr ⟨_, rfl⟩⟩
  | value ready keeps rel => exact (hf _ _ _ ready keeps rel).weaken keeps

theorem inputParametersGet_evaluates (h : w.Ready) {n : NodeId} (hn : w.heap.isLive n)
    {node : FilterNode} (hparent : node.parentGraphNode = some n) (depth : Nat) :
    Simulates w HaveValues (inputParametersGet (outputGet depth) w node)
      (Demand.inputs (w.shape.evaluate depth) (w.shape.preds n)) := by
  apply inputParametersGet_simulates h hn hparent
  intro w' m hw' hk hm
  have hsim := outputGet_simulates hw' hm depth
  rwa [hk.shape] at hsim

theorem outputGet_ends (h : w.Ready) {f : FilterId} {node : FilterNode}
    (hf : w.filters f = some node) {n : NodeId} (hparent : node.parentGraphNode = some n)
    (hn : w.heap.isLive n) (depth : Nat) : w.Ends (w.outputGet depth f) := by
  cases depth with
  | zero => exact error_ends h.owned _
  | succ depth =>
    have hinputs := inputParametersGet_evaluates h hn hparent depth
    cases hclass : node.kind with
    | filterNode =>
      simp only [outputGet, hf, hclass]
      exact ⟨w, .refl w, h.owned, Or.inl ⟨none, rfl⟩⟩
    | fnOut =>
      simp only [outputGet, hf, hclass]
      apply hinputs.ends_bind
      intro w' Parameters values hready hk hvalues
      obtain ⟨c, hc⟩ := hk.exists_filter hf
      exact outResult_ends hready.owned hc hvalues
    | fnBooleanLiteral =>
      simp only [outputGet, hf, hclass]
      apply hinputs.ends_bind
      intro w' Parameters values hready hk hvalues
      obtain ⟨c, hc⟩ := hk.exists_filter hf
      exact literalResult_ends hready.owned hc hvalues

/-! ## Runs -/

theorem evaluateFilter_ok {w' : World} {f : FilterId} {depth : Nat}
    (h : w.Ends (w.outputGet depth f)) (hw' : w.evaluateFilter f depth = .ok w') :
    Keeps w w' ∧ w'.Owned := by
  obtain ⟨v, hkeeps, howned, ⟨P, hcall⟩ | ⟨e, hcall⟩⟩ := h
  · simp only [evaluateFilter, hcall] at hw'
    cases hw'
    exact ⟨hkeeps, howned⟩
  · simp only [evaluateFilter, hcall] at hw'
    split at hw'
    · rename_i heq
      cases heq
    · rename_i heq
      cases heq
      cases hw'
      exact ⟨hkeeps, howned⟩
    · cases hw'

theorem perform_laid {w' : World} (h : w.Laid d) (op : PlaceOp) (hw' : w.perform d op = .ok w') :
    w'.Laid d := by
  cases op with
  | build op =>
    obtain ⟨v, hv, hlaid⟩ := buildIn_laid h op
    simp only [perform, hv] at hw'
    cases hw'
    exact hlaid
  | cachedOutputSet n P =>
    by_cases hn : w.heap.isLive n
    · obtain ⟨node, hnode, -⟩ := h.objects n hn
      obtain ⟨v, hset, howned, hkeeps, -⟩ := cacheNew_spec h.owned hnode P
      simp only [perform, if_pos hn, hset, Except.map] at hw'
      cases hw'
      exact h.keeps hkeeps howned
    · simp only [perform, if_neg hn] at hw'
      cases hw'
      exact h
  | outputGet n depth =>
    by_cases hn : w.heap.isLive n
    · obtain ⟨node, hnode, hparent⟩ := h.objects n hn
      simp only [perform, if_pos hn] at hw'
      obtain ⟨hkeeps, howned⟩ := evaluateFilter_ok (outputGet_ends h.ready hnode hparent hn depth) hw'
      exact h.keeps hkeeps howned
    · simp only [perform, if_neg hn] at hw'
      cases hw'
      exact h

theorem run_laid {ops : List PlaceOp} {w : World}
    (hrun : Runs.run (perform d) World.empty ops = .ok w) : w.Laid d :=
  Runs.run_preserves (perform d) (fun _ op _ h => perform_laid h op) (empty_laid d) hrun

end World

end Unotu.Filter
