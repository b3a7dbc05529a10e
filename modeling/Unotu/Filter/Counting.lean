import Unotu.Filter.Evaluation
import Unotu.Graph.Parallel

/-!
# Counting the inputs of a filter node

`InputCountGet` counts edges and `InputParametersGet` collects from distinct nodes. The two
numbers are the same exactly when no edge into the node is doubled.
-/

set_option autoImplicit false

namespace Unotu.Filter.World

open Unotu.Graph

variable {w : World}

/-- The count is the number of parameters whenever they are collected, whatever the `OutputGet`
of the connected nodes do. -/
def CountsInputs (w : World) (node : FilterNode) : Prop :=
  ∃ count, w.inputCountGet node = .ok count ∧
    ∀ OutputGet w' Parameters,
      inputParametersGet OutputGet w node = .ok (w', Parameters) → Parameters.length = count

/-- One parameter for each connected node. -/
theorem length_of_collectOutputs
    {OutputGet : World → FilterId → Except Stopped (World × Option ParamId)}
    {Connected : List NodePtr} {r : World × List (Option ParamId)}
    (h : collectOutputs OutputGet w Connected = .ok r) : r.2.length = Connected.length := by
  induction Connected generalizing w r with
  | nil =>
    cases h
    rfl
  | cons p Connected ih =>
    cases p with
    | null => cases h
    | obj m =>
      cases hm : OutputGet w (.data m) with
      | error stopped => simp [collectOutputs, hm, Bind.bind, Except.bind] at h
      | ok r₁ =>
        cases hrest : collectOutputs OutputGet r₁.1 Connected with
        | error stopped => simp [collectOutputs, hm, hrest, Bind.bind, Except.bind] at h
        | ok r₂ =>
          simp only [collectOutputs, hm, hrest, Bind.bind, Except.bind, Except.ok.injEq] at h
          rw [← h, List.length_cons, List.length_cons, ih hrest]

theorem collectOutputs_null (w : World) (ns : List NodeId) :
    collectOutputs (fun w _ => .ok (w, none)) w (ns.map .obj) =
      .ok (w, ns.map fun _ => none) := by
  induction ns with
  | nil => rfl
  | cons n ns ih => simp [collectOutputs, ih, Bind.bind, Except.bind]

theorem countsInputs_iff (h : w.heap.Sound) {n : NodeId} (hn : w.heap.isLive n)
    {node : FilterNode} (hparent : node.parentGraphNode = some n) :
    w.CountsInputs node ↔ w.heap.SingleInputs n := by
  have hcount : w.inputCountGet node = .ok (w.heap.edgesIncomingGet n).elems.length := by
    simp only [inputCountGet, parentNodeGet_eq hn hparent]
  have hsources : ∀ p, p ∈ w.heap.connectedIncomingGet n ↔
      ∃ e ∈ w.heap.edgesIncomingGet n, w.heap.sourceGet e = p := by
    obtain ⟨-, M, hrep⟩ := h
    exact (hrep.viewsAgree hn).sources
  rw [Heap.SingleInputs, ← OrderedSet.length_image_eq_iff hsources, connected_eq_map h hn]
  constructor
  · rintro ⟨count, hok, hall⟩
    obtain rfl := Except.ok.inj (hcount.symm.trans hok)
    -- nodes that all output the null pointer are enough to collect
    have hreturn := inputParametersGet_eq h hn hparent fun w _ => .ok (w, none)
    rw [collectOutputs_null] at hreturn
    simpa using hall _ _ _ hreturn
  · intro hlength
    refine ⟨_, hcount, ?_⟩
    intro OutputGet w' Parameters hok
    rw [inputParametersGet_eq h hn hparent] at hok
    exact (length_of_collectOutputs hok).trans hlength

/-- Along a run every wired filter node counts its inputs right exactly when every connection
is made once. -/
theorem run_countsInputs_iff (ops : List (Op Unit Unit)) :
    Runs.Along Heap.step
      (fun s => ∀ (w : World) (n : NodeId) (node : FilterNode), w.heap = s → s.isLive n →
        node.parentGraphNode = some n → w.CountsInputs node)
      Heap.empty ops ↔
      Runs.EveryStep Heap.step Heap.ConnectsOnce Heap.empty ops := by
  rw [← Heap.run_singleInputs_iff]
  have hsound : ∀ js s, Runs.run Heap.step (Heap.empty : Heap Unit Unit) js = .ok s →
      s.Sound := by
    intro js s hrun
    obtain ⟨s', hrun', hs'⟩ := Heap.run_sound js
    obtain rfl := Except.ok.inj (hrun.symm.trans hrun')
    exact hs'
  constructor
  · intro hcounts js s hjs hrun n hn
    let w : World := ⟨s, fun _ => none, fun _ => none, 0⟩
    let node : FilterNode := { fnOut with parentGraphNode := some n }
    have hw : w.CountsInputs node := hcounts js s hjs hrun w n node rfl hn rfl
    exact (countsInputs_iff (w := w) (hsound js s hrun) hn rfl).mp hw
  · rintro hsingle js s hjs hrun w n node rfl hn hparent
    exact (countsInputs_iff (hsound js _ hrun) hn hparent).mpr (hsingle js _ hjs hrun n hn)

/-- Two literals, the first connected to the second twice. -/
def doubledConnection : List (Op Unit Unit) :=
  [.makeGraph 0, .makeNode 0 (), .makeNode 1 (), .nodeAdd 0 0, .nodeAdd 0 1,
    .connectTo 0 (.obj 1) () 0, .connectTo 0 (.obj 1) () 1]

def literalAt (n : NodeId) : FilterNode := { fnBooleanLiteral with parentGraphNode := some n }

def literals (s : Heap Unit Unit) : World where
  heap := s
  filters f :=
    match f with
    | .data n => some (literalAt n)
    | .copy _ => none
  store _ := none
  nextParam := 0

/-- The second literal counts two inputs and is given one. -/
theorem doubled_input_counted_twice :
    ∃ s, Runs.run Heap.step Heap.empty doubledConnection = .ok s ∧ s.isLive 1 ∧
      (literals s).filters (.data 1) = some (literalAt 1) ∧
      (literals s).inputCountGet (literalAt 1) = .ok 2 ∧
      ((inputParametersGet (outputGet 1) (literals s) (literalAt 1)).toOption.map
        fun r => r.2) = some [some 0] ∧
      ¬ (literals s).CountsInputs (literalAt 1) := by
  have hrun : ∃ s, Runs.run Heap.step Heap.empty doubledConnection = .ok s ∧ s.isLive 1 ∧
      (literals s).filters (.data 1) = some (literalAt 1) ∧
      (literals s).inputCountGet (literalAt 1) = .ok 2 ∧
      ((inputParametersGet (outputGet 1) (literals s) (literalAt 1)).toOption.map
        fun r => r.2) = some [some 0] :=
    ⟨_, rfl, rfl, rfl, rfl, rfl⟩
  obtain ⟨s, hs, hn, hfilter, hcount, hreturn⟩ := hrun
  refine ⟨s, hs, hn, hfilter, hcount, hreturn, ?_⟩
  rintro ⟨count, hok, hall⟩
  obtain rfl := Except.ok.inj (hcount.symm.trans hok)
  cases hr : inputParametersGet (outputGet 1) (literals s) (literalAt 1) with
  | error stopped => simp [hr, Except.toOption] at hreturn
  | ok r =>
    have hlength := hall _ _ _ hr
    simp only [hr, Except.toOption, Option.map_some, Option.some.injEq] at hreturn
    rw [hreturn] at hlength
    cases hlength

end Unotu.Filter.World
